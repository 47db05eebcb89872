import Rtai.Control

/-! # What the semaphore services do

    Each section of a service is given as one change of the kernel, with the
    wait queues as lists, up to scheduling data (`Still`).  The state is the
    one after the call has returned, when it returns. -/

namespace RtaiSemEffects

open RtaiRings RtaiKernel RtaiSchedCore RtaiPrioInher RtaiTaskApi RtaiSched
  RtaiSem RtaiSteps RtaiFrames RtaiWaitQueues RtaiControl

variable {T S : Type} [decT : DecidableEq T] [decS : DecidableEq S] [finT : Fintype T]
  [finS : Fintype S]

/-! ## Composing with what is still -/

omit decS finT finS in
/-- The place in the call is no scheduling data. -/
theorem still_pc {k k' : Kernel T S} (h : Still k k') (c : T) (p : Pc T S) :
    Still { k with pc := Function.update k.pc c p }
      { k' with pc := Function.update k'.pc c p } := by
  obtain ⟨_, _, _, _, _, _, _, _, _, _, _, rfl, hst, haw⟩ := h
  exact ⟨_, _, _, _, _, _, _, _, _, _, _, rfl, hst, haw⟩

/-- The state in which a call of `c` has returned. -/
def returned (k : Kernel T S) (c : T) : Kernel T S :=
  { k with pc := Function.update k.pc c .idle }

omit decS finT finS in
theorem Still.returned {k k' : Kernel T S} (h : Still k k') (c : T) :
    Still (returned k c) (returned k' c) :=
  still_pc h c .idle

omit decS finT finS in
theorem finish_done {k k' : Kernel T S} {c : T} {v : Ret T}
    {r : Outcome T S} {o : Option (Ret T)} (h : done k v = some r)
    (hf : finish c r = (k', o)) : k' = returned k c ∧ o = some v := by
  cases h
  cases hf
  exact ⟨rfl, rfl⟩

omit decS finT finS in
theorem finish_stay {k k' : Kernel T S} {c : T} {p : Pc T S}
    {r : Outcome T S} {o : Option (Ret T)} (h : stay k c p = some r)
    (hf : finish c r = (k', o)) :
    k' = { k with pc := Function.update k.pc c p } ∧ o = none := by
  cases h
  cases hf
  exact ⟨rfl, rfl⟩

/-! ## Effects -/

/-- `rt_sem_wait_until` sets `blocked_on` and `resume_time` before it looks at
    the owner. -/
def Prepared (k : Kernel T S) (c : T) (s : S) (k₀ : Kernel T S) : Prop :=
  Still k k₀ ∨
  Still { k with blockedOn := Function.update k.blockedOn c (.queue (.sem s)) } k₀

/-- Whom a waiting task passes its priority to. -/
def passDest (k : Kernel T S) (s : S) : TaskPtr T :=
  if k.type s > 0 then
    match k.owndby s with
    | some o => .task o
    | none => .null
  else .null

/-- A robbed owner, queued again. -/
def robbed (k : Kernel T S) (c : T) (s : S) (o : T)
    (q : Links (Node T (Head T S))) : Kernel T S :=
  { k with
    count := Function.update k.count s (k.count s - 1)
    state := Function.update k.state o (k.state o ∪ {.semaphore})
    blockedOn := Function.update k.blockedOn o (.queue (.sem s))
    queue := q
    owndby := Function.update k.owndby s (some c)
    resq := k.resq.insertBefore (.elem s) (.head c) }

/-- The current task, queued. -/
def queued (k : Kernel T S) (c : T) (s : S) (q : Links (Node T (Head T S)))
    (p : Pc T S) : Kernel T S :=
  { k with
    count := Function.update k.count s (k.count s - 1)
    state := Function.update k.state c (k.state c ∪ {.semaphore})
    blockedOn := Function.update k.blockedOn c (.queue (.sem s))
    queue := q
    pc := Function.update k.pc c p }

/-- A waiter that leaves with its token given back. -/
def unqueued (k : Kernel T S) (c : T) (s : S) (q : Links (Node T (Head T S))) : Kernel T S :=
  { k with
    blockedOn := Function.update k.blockedOn c .null
    queue := q
    count := Function.update k.count s (moreCount k s) }

/-- The priority of the owner of a resource is recomputed. -/
inductive Recomputes (k : Kernel T S) (s : S) (k' : Kernel T S) : Prop where
  | none (h : k.owndby s = none ∨ k.type s ≤ 0) (hk : Still k k')
  | owner (o : T) (p : Int) (ho : k.owndby s = some o) (ht : 0 < k.type s)
      (hp : prioFromResq k o = some p)
      (hk : Still { k with priority := Function.update k.priority o p } k')

/-- The first section of `rt_sem_wait`, `rt_sem_wait_if` (`tries`) and
    `rt_sem_wait_until`. -/
inductive Waits (tries : Bool) (k : Kernel T S) (L : Head T S → List T) (c : T) (s : S)
    (k' : Kernel T S) (L' : Head T S → List T) (o : Option (Ret T)) :
    Prop where
  /-- Nothing is taken: the owner of a non recursive resource, or a busy
      semaphore for `rt_sem_wait_if`. -/
  | refuse (k₀ : Kernel T S) (r : Ret T) (hP : Prepared k c s k₀)
      (hc : k.count s ≤ 0) (hk : k' = returned k₀ c) (hL : L' = L)
      (ho : o = some r) (hr : k.owndby s = some c ∧ r = .deadlok ∨
        tries = true ∧ r = .val (k.count s))
  | take (hc : 0 < k.count s)
      (hk : k' = returned (takeOwnership { k with
        count := Function.update k.count s (k.count s - 1) } c s) c)
      (hL : L' = L) (ho : o = some (.val (k.count s)))
  | nested (k₀ : Kernel T S) (hP : Prepared k c s k₀) (hc : k.count s ≤ 0)
      (howner : k.owndby s = some c) (hrt : 0 < k.restype s)
      (hk : k' = returned { k₀ with
        type := Function.update k₀.type s (incr (k₀.type s)) } c)
      (hL : L' = L) (ho : o = some (.val (incr (k.type s))))
  | rob (k₀ : Kernel T S) (u : T) (l₁ l₂ : List T)
      (q : Links (Node T (Head T S))) (hP : Prepared k c s k₀)
      (hc : k.count s ≤ 0) (ht : 0 < k.type s) (hu : k.owndby s = some u)
      (hprio : k.priority c < k.priority u) (hrun : k.running u = 0)
      (hl : L (.sem s) = l₁ ++ l₂)
      (hL : L' = Function.update L (.sem s) (l₁ ++ u :: l₂)) (R : Rings q L')
      (hle : ∀ a ∈ l₁, k.priority a ≤ k.priority u)
      (hlt : ∀ b ∈ l₂.head?, k.priority u < k.priority b)
      (hk : Still (returned (robbed k₀ c s u q) c) k')
      (ho : o = some (.val 1))
  /-- The time of `rt_sem_wait_until` is over. -/
  | expire (k₁ k₂ : Kernel T S) (q : Links (Node T (Head T S)))
      (hc : k.count s ≤ 0) (hk₁ : Still k k₁) (R : Rings q L)
      (hre : Recomputes { k₁ with
        blockedOn := Function.update k.blockedOn c .null
        queue := q } s k₂)
      (hk : k' = returned k₂ c) (hL : L' = L) (ho : o = some .timout)
  | block (k₀ k₁ : Kernel T S) (L₁ : Head T S → List T) (l₁ l₂ : List T)
      (q : Links (Node T (Head T S))) (p : Pc T S) (hP : Prepared k c s k₀)
      (hc : k.count s ≤ 0)
      (hown : 0 < k.type s → k.restype s ≠ 0 → k.owndby s ≠ some c)
      (hpass : Passes (k.priority c) k₀ L (passDest k s) k₁ L₁)
      (R₁ : Rings k₁.queue L₁) (hl : L₁ (.sem s) = l₁ ++ l₂)
      (hL : L' = Function.update L₁ (.sem s) (l₁ ++ c :: l₂)) (R : Rings q L')
      (hord : k.qtype s = 0 → (∀ a ∈ l₁, k₁.priority a ≤ k₁.priority c) ∧
        ∀ b ∈ l₂.head?, k₁.priority c < k₁.priority b)
      (hp : p = .semWait s ∨ p = .semWaitUntil s)
      (hk : Still (queued k₁ c s q p) k') (ho : o = none)

/-- The second section of `rt_sem_wait` and `rt_sem_wait_until`. -/
inductive WaitEnds (k : Kernel T S) (L : Head T S → List T) (c : T) (s : S)
    (k' : Kernel T S) (L' : Head T S → List T) (o : Option (Ret T)) :
    Prop where
  | granted (hb : k.blockedOn c = .null)
      (hk : k' = returned (takeOwnership k c s) c) (hL : L' = L)
      (ho : o = some (.val (k.count s)))
  | failed (k₂ : Kernel T S) (l₁ l₂ : List T)
      (q : Links (Node T (Head T S))) (hb : k.blockedOn c ≠ .null)
      (hl : L (.sem s) = l₁ ++ c :: l₂)
      (hL : L' = Function.update L (.sem s) (l₁ ++ l₂)) (R : Rings q L')
      (hre : Recomputes (unqueued k c s q) s k₂) (hk : k' = returned k₂ c)
      (ho : o = some .timout ∨ o = some .unblkd)

/-- The first waiter, granted what it waited for. -/
def granted (k : Kernel T S) (s : S) (u : T) (q : Links (Node T (Head T S))) : Kernel T S :=
  { k with
    count := Function.update k.count s (moreCount k s)
    state := Function.update k.state u (k.state u \ {.semaphore, .delayed})
    blockedOn := Function.update k.blockedOn u .null
    queue := q }

/-- A resource that is given up, with `u` its new owner. -/
def released (k : Kernel T S) (s : S) (u : Option T) : Kernel T S :=
  { k with
    owndby := Function.update k.owndby s u
    resq := k.resq.unlink (.elem s) }

/-- `rt_sem_signal`, up to what happens to the place of the caller. -/
inductive Signals (k : Kernel T S) (L : Head T S → List T) (c : Option T)
    (s : S) (k' : Kernel T S) (L' : Head T S → List T) (o : Option (Ret T)) :
    Prop where
  | refuse (ht : k.type s ≠ 0) (hrt : k.restype s ≠ 0)
      (hc : k.owndby s = none ∨ k.owndby s ≠ c) (hk : k' = k) (hL : L' = L) (ho : o = some .perm)
  | unnest (hown : k.restype s ≠ 0 → k.owndby s = c) (ht : 1 < k.type s)
      (hk : k' = { k with type := Function.update k.type s (k.type s - 1) })
      (hL : L' = L) (ho : o = some (.val 0))
  | give (ht : k.type s ≤ 0) (hl : L (.sem s) = [])
      (hk : k' = { k with
        count := Function.update k.count s (moreCount k s) })
      (hL : L' = L) (ho : o = some (.val 0))
  | grant (u : T) (l : List T) (q : Links (Node T (Head T S)))
      (ht : k.type s ≤ 0) (hl : L (.sem s) = u :: l)
      (hL : L' = Function.update L (.sem s) l) (R : Rings q L')
      (hk : Still (granted k s u q) k') (ho : o = some (.val 0))
  | release (c' : T) (hc : c = some c') (p : Int) (ht : k.type s = 1)
      (hown : k.restype s ≠ 0 → k.owndby s = some c') (hl : L (.sem s) = [])
      (k₁ : Kernel T S)
      (hk₁ : k₁ = { released k s none with
        count := Function.update k.count s (moreCount k s) })
      (hp : prioFromResq k₁ c' = some p)
      (hk : Still { k₁ with priority := Function.update k.priority c' p } k')
      (hL : L' = L) (ho : o = some (.val 0))
  | handOver (c' : T) (hc : c = some c') (p : Int) (u : T) (l : List T)
      (q : Links (Node T (Head T S))) (ht : k.type s = 1)
      (hown : k.restype s ≠ 0 → k.owndby s = some c')
      (hl : L (.sem s) = u :: l)
      (hL : L' = Function.update L (.sem s) l) (R : Rings q L')
      (rn : T → Int)
      (hrn : rn = k.running ∨ rn = Function.update k.running u 0)
      (k₁ : Kernel T S)
      (hk₁ : k₁ = { released (granted k s u q) s (some u) with
        running := rn })
      (hp : prioFromResq k₁ c' = some p)
      (hk : Still { k₁ with priority := Function.update k.priority c' p } k')
      (ho : o = some (.val 0))

/-! ## The services have these effects -/

theorem setTaskPrioFromResq_spec {k k' : Kernel T S} {t : T}
    (h : setTaskPrioFromResq k t = some k') :
    ∃ p, prioFromResq k t = some p ∧
      Still { k with priority := Function.update k.priority t p } k' := by
  obtain ⟨p, hp, h⟩ := Option.bind_eq_some_iff.mp h
  exact ⟨p, hp, renqReadyTask_still h⟩

/-- What `semWaitFailed` does when the links of the task have been undone. -/
theorem semWaitFailed_spec {k k' : Kernel T S} {c : T} {s : S}
    (h : semWaitFailed k c s = some k') :
    Recomputes (unqueued k c s (k.queue.unlink (.elem c))) s k' := by
  unfold semWaitFailed at h
  dsimp only [dequeueBlocked] at h
  cases ho : k.owndby s with
  | none =>
    rw [ho] at h
    cases h
    exact .none (Or.inl ho) (Still.refl _)
  | some o =>
    rw [ho] at h
    dsimp only at h
    by_cases ht : k.type s > 0
    · rw [if_pos ht] at h
      obtain ⟨p, hp, hk⟩ := setTaskPrioFromResq_spec h
      exact .owner o p ho ht hp hk
    · rw [if_neg ht] at h
      cases h
      exact .none (Or.inr (not_lt.mp ht)) (Still.refl _)

/-- A wait that goes on without the semaphore, which has not been deleted. -/
theorem tail_failed {k : Kernel T S} {c : T} {s : S} {r : Outcome T S}
    (hnull : k.blockedOn c ≠ .null) (hobj : k.blockedOn c ≠ .objrem)
    (h : rtSemWaitTail k c s = some r ∨ rtSemWaitUntilTail k c s = some r) :
    ∃ k₂ v, semWaitFailed k c s = some k₂ ∧ (v = .timout ∨ v = .unblkd) ∧
      done k₂ v = some r := by
  have htail : rtSemWaitTail k c s = (semWaitFailed k c s).bind fun k₂ => done k₂ .unblkd := by
    unfold rtSemWaitTail
    cases hb : k.blockedOn c with
    | null => exact absurd hb hnull
    | objrem => exact absurd hb hobj
    | _ => rfl
  have huntil : rtSemWaitUntilTail k c s = (semWaitFailed k c s).bind fun k₂ =>
      done k₂ (if (k.blockedOn c).isPtr then .timout else .unblkd) := by
    unfold rtSemWaitUntilTail
    cases hb : k.blockedOn c with
    | null => exact absurd hb hnull
    | objrem => exact absurd hb hobj
    | _ => rfl
  rcases h with h | h
  · rw [htail] at h
    obtain ⟨k₂, hw, hd⟩ := Option.bind_eq_some_iff.mp h
    exact ⟨k₂, _, hw, Or.inr rfl, hd⟩
  · rw [huntil] at h
    obtain ⟨k₂, hw, hd⟩ := Option.bind_eq_some_iff.mp h
    refine ⟨k₂, _, hw, ?_, hd⟩
    split
    · exact Or.inl rfl
    · exact Or.inr rfl

/-- **The end of a wait.** -/
theorem rtSemWaitTail_effect {k k' : Kernel T S} {L : Head T S → List T}
    (C : Control k L) {c : T} {s : S} {r : Outcome T S} {o : Option (Ret T)}
    (hpc : waitsOn (k.pc c) = some s)
    (h : rtSemWaitTail k c s = some r ∨ rtSemWaitUntilTail k c s = some r)
    (hf : finish c r = (k', o)) : ∃ L', WaitEnds k L c s k' L' o := by
  by_cases hb : k.blockedOn c = .null
  · have hd : done (takeOwnership k c s) (.val (k.count s)) = some r := by
      rcases h with h | h
      · unfold rtSemWaitTail at h; rw [hb] at h; exact h
      · unfold rtSemWaitUntilTail at h; rw [hb] at h; exact h
    obtain ⟨rfl, rfl⟩ := finish_done hd hf
    exact ⟨L, .granted hb rfl rfl rfl⟩
  · obtain ⟨k₂, v, hw, hv, hd⟩ := tail_failed hb (C.stands c).present h
    obtain ⟨rfl, rfl⟩ := finish_done hd hf
    obtain ⟨l₁, l₂, hl⟩ := List.append_of_mem ((C.stands c).waits s hpc hb)
    refine ⟨_, .failed k₂ l₁ l₂ _ hb hl rfl (C.rings.unlink hl) (semWaitFailed_spec hw) rfl ?_⟩
    rcases hv with rfl | rfl
    · exact Or.inl rfl
    · exact Or.inr rfl

/-! ### Waiting -/

omit decS finT finS in
/-- The preparation is no control matter. -/
theorem Prepared.control {k k₀ : Kernel T S} {L : Head T S → List T} {c : T}
    {s : S} (h : Prepared k c s k₀) (C : Control k L) (hc : Caller k c) :
    Control k₀ L := by
  rcases h with h | h
  · exact C.still h
  · have hb : BlockedOn.queue (.sem s) ≠ (.objrem : BlockedOn T S) := nofun
    exact (C.setBlockedOn hc hb).still h

omit decS finT finS in
/-- The fields that the preparation leaves alone. -/
theorem Prepared.same {k k₀ : Kernel T S} {c : T} {s : S} (h : Prepared k c s k₀) :
    k₀.priority = k.priority ∧ k₀.running = k.running ∧
      k₀.owndby = k.owndby ∧ k₀.type = k.type ∧ k₀.restype = k.restype ∧
      k₀.count = k.count ∧ k₀.qtype = k.qtype ∧ k₀.queue = k.queue := by
  rcases h with h | h <;>
    obtain ⟨_, _, _, _, _, _, _, _, _, _, _, rfl, -, -⟩ := h <;>
    exact ⟨rfl, rfl, rfl, rfl, rfl, rfl, rfl, rfl⟩

omit decS finT finS in
theorem remReadyTask_eq (k : Kernel T S) (t : T) :
    ∃ rd, remReadyTask k t = { k with ready := rd } := by
  unfold remReadyTask
  split
  · exact ⟨_, rfl⟩
  · exact ⟨k.ready, rfl⟩

theorem passToOwner_passes {k k' : Kernel T S} {L : Head T S → List T}
    {c : T} {s : S} (h : passToOwner k c s = some k')
    (R : Rings k.queue L) (hQ : QueuedWhereBlocked k L) :
    ∃ L', Rings k'.queue L' ∧ Passes (k.priority c) k L (passDest k s) k' L' := by
  unfold passToOwner at h
  unfold passDest
  by_cases ht : k.type s > 0
  · rw [if_pos ht] at h ⊢
    cases ho : k.owndby s with
    | none =>
      rw [ho] at h
      exact passLoop_passes R hQ h
    | some o =>
      rw [ho] at h
      exact passLoop_passes R hQ h
  · rw [if_neg ht] at h ⊢
    cases h
    exact ⟨L, R, .null k L⟩

/-- The robbery of an owner that is in no queue. -/
theorem ubiMaiorRob_effect {tries : Bool} {k k₀ k' : Kernel T S} {L : Head T S → List T}
    (C : Control k L) {c u : T} {s : S} {r : Outcome T S} {o : Option (Ret T)}
    (hP : Prepared k c s k₀) (hc : k.count s ≤ 0) (ht : 0 < k.type s)
    (hv : ubiMaiorVictim k₀ c s = some u) (hu : ∀ h, u ∉ L h)
    (h : ubiMaiorRob k₀ c s u = some r) (hf : finish c r = (k', o)) :
    ∃ L', Waits tries k L c s k' L' o := by
  obtain ⟨hprio, hrun, hown, -, -, -, -, hq⟩ := hP.same
  have hvictim : k.owndby s = some u ∧ k.priority c < k.priority u ∧ k.running u ≤ 0 := by
    unfold ubiMaiorVictim at hv
    rw [hown, hprio, hrun] at hv
    cases ho : k.owndby s with
    | none => rw [ho] at hv; exact nomatch hv
    | some o' =>
      rw [ho] at hv
      dsimp only at hv
      split at hv
      · next hcond => cases hv; exact ⟨rfl, hcond⟩
      · exact nomatch hv
  obtain ⟨ho, hp, hle⟩ := hvictim
  have hzero : k.running u = 0 := le_antisymm hle (C.stands u).running
  unfold ubiMaiorRob at h
  rw [if_pos (by rw [hrun]; exact hzero)] at h
  obtain ⟨rd, hrem⟩ := remReadyTask_eq
    { k₀ with count := Function.update k₀.count s (k₀.count s - 1) } u
  dsimp only at h
  rw [hrem] at h
  obtain ⟨k₃, hk₃, h⟩ := Option.bind_eq_some_iff.mp h
  cases hk₃
  obtain ⟨k₄, he, h⟩ := Option.bind_eq_some_iff.mp h
  have R₀ : Rings k₀.queue L := hq ▸ C.rings
  obtain ⟨l₁, l₂, q, hl, rfl, R', hord⟩ := enqueueBlocked_spec he R₀ hu
  obtain ⟨rfl, rfl⟩ := finish_done h hf
  have hord' := hord rfl
  dsimp only at hord'
  rw [hprio] at hord'
  exact ⟨_, .rob k₀ u l₁ l₂ q hP hc ht ho hp hzero hl rfl R' hord'.1 hord'.2
    (Still.ready _ rd) rfl⟩

/-- From `pass_prio` to the reschedule of a wait that blocks. -/
theorem wait_blocks {tries : Bool} {k k₀ k₁ k₂ k₃ k₄ k' : Kernel T S}
    {L : Head T S → List T} {c : T} {s : S} {p : Pc T S} (bits : TaskState)
    (h₁ : passToOwner k₀ c s = some k₁)
    (hk₄ : k₄ = remReadyCurrent { k₁ with
      count := Function.update k₁.count s (k₁.count s - 1)
      state := Function.update k₁.state c (k₁.state c ∪ bits) } c)
    (h₂ : enqueueBlocked k₄ c (.sem s) (k₄.qtype s) = some k₂)
    (h₃ : Still k₂ k₃)
    (hk : k' = { k₃ with pc := Function.update k₃.pc c p })
    (C : Control k L) (hcall : Caller k c) (hP : Prepared k c s k₀)
    (hc : k.count s ≤ 0)
    (hown : 0 < k.type s → k.restype s ≠ 0 → k.owndby s ≠ some c)
    (hbits : ∀ f, f ∈ blocking → f ∈ bits → f = .semaphore)
    (hp : p = .semWait s ∨ p = .semWaitUntil s) :
    ∃ L', Waits tries k L c s k' L' none := by
  have C₀ := hP.control C hcall
  obtain ⟨hprio, -, hownd, htype, -, -, hqt, -⟩ := hP.same
  obtain ⟨L₁, R₁, P⟩ := passToOwner_passes h₁ C₀.rings C₀.queuedWhereBlocked
  have hdest : passDest k₀ s = passDest k s := by
    unfold passDest; rw [hownd, htype]
  rw [hprio, hdest] at P
  have hsh := P.shuffles C₀.rings
  have hqt₁ : k₁.qtype s = k.qtype s := by
    obtain ⟨_, _, -, -, hst⟩ := hsh
    obtain ⟨_, _, _, _, _, _, _, _, _, _, _, rfl, -, -⟩ := hst
    exact congrFun hqt s
  have hun : ∀ h, c ∉ L₁ h := by
    intro h hm
    obtain ⟨_, _, -, hperm, -⟩ := hsh
    exact C.caller_unlinked hcall h ((hperm h).mem_iff.mp hm)
  -- apart from the links, what `rem_ready_current` leaves is a blocked task
  have hrem : Still { k₁ with
      count := Function.update k₁.count s (k₁.count s - 1)
      state := Function.update k₁.state c (k₁.state c ∪ {.semaphore}) }
      (remReadyCurrent { k₁ with
        count := Function.update k₁.count s (k₁.count s - 1)
        state := Function.update k₁.state c (k₁.state c ∪ bits) } c) := by
    refine (Still.state _ (Function.update k₁.state c (k₁.state c ∪ bits))
      ?_).trans (Still.remReadyCurrent _ c)
    intro u f hf hm
    by_cases hu : u = c
    · subst hu
      dsimp only
      rw [Function.update_self, Finset.mem_union] at hm ⊢
      rcases hm with hm | hm
      · exact Or.inl hm
      · rw [hbits f hf hm]
        exact Or.inr (Finset.mem_singleton_self _)
    · dsimp only
      rw [Function.update_of_ne hu] at hm ⊢
      exact hm
  obtain ⟨_, _, _, _, _, _, _, _, _, _, _, heq, hst, haw⟩ := hrem
  rw [heq] at hk₄
  rw [hk₄] at h₂
  obtain ⟨l₁, l₂, q, hl, rfl, R', hord⟩ := enqueueBlocked_spec h₂ R₁ hun
  have hstill : Still (queued k₁ c s q p) k' := by
    rw [hk]
    refine Still.trans ?_ (still_pc h₃ c p)
    exact ⟨_, _, _, _, _, _, _, _, _, _, _, rfl, hst, haw⟩
  exact ⟨_, .block k₀ k₁ L₁ l₁ l₂ q p hP hc hown P R₁ hl rfl R'
    (fun hq => hord (hqt₁.trans hq)) hp hstill rfl⟩

omit decT decS finT finS in
/-- `sem->owndby` is not the caller when the nested wait is not taken. -/
theorem not_owner {k : Kernel T S} {c : T} {s : S}
    (h : ¬ (k.type s > 0 ∧ k.restype s ≠ 0 ∧ k.owndby s = some c)) :
    0 < k.type s → k.restype s ≠ 0 → k.owndby s ≠ some c :=
  fun h1 h2 h3 => h ⟨h1, h2, h3⟩

theorem nestedWait_effect {tries : Bool} {k k₀ k' : Kernel T S} {L : Head T S → List T}
    {c : T} {s : S} {r : Outcome T S} {o : Option (Ret T)}
    (h : nestedWait k₀ s = some r) (hf : finish c r = (k', o))
    (hP : Prepared k c s k₀) (hc : k.count s ≤ 0)
    (howner : k.owndby s = some c) : Waits tries k L c s k' L o := by
  obtain ⟨-, -, -, htype, hrt, -, -, -⟩ := hP.same
  unfold nestedWait at h
  split at h
  · next hpos =>
      obtain ⟨rfl, rfl⟩ := finish_done h hf
      rw [hrt] at hpos
      exact .nested k₀ hP hc howner hpos rfl rfl (by rw [htype])
  · obtain ⟨rfl, rfl⟩ := finish_done h hf
    exact .refuse k₀ _ hP hc rfl rfl rfl (Or.inl ⟨howner, rfl⟩)

theorem takeToken_effect {tries : Bool} {k k' : Kernel T S} {L : Head T S → List T} {c : T}
    {s : S} {r : Outcome T S} {o : Option (Ret T)}
    (h : takeToken k c s = some r) (hf : finish c r = (k', o))
    (hc : ¬ k.count s ≤ 0) : Waits tries k L c s k' L o := by
  obtain ⟨rfl, rfl⟩ := finish_done h hf
  exact .take (not_le.mp hc) rfl rfl rfl

/-- An owner that may be robbed has been granted the semaphore and is in no
    queue. -/
def RobsUnlinked (k : Kernel T S) (L : Head T S → List T) (c : T) (s : S) :
    Prop :=
  ∀ u, 0 < k.type s → ubiMaiorVictim k c s = some u → ∀ h, u ∉ L h

/-- **`rt_sem_wait`** -/
theorem rtSemWait_effect {k k' : Kernel T S} {L : Head T S → List T}
    {c : T} {s : S} {r : Outcome T S} {o : Option (Ret T)}
    (h : rtSemWait k c s = some r) (hf : finish c r = (k', o))
    (C : Control k L) (hcall : Caller k c) (hrob : RobsUnlinked k L c s) :
    ∃ L', Waits false k L c s k' L' o := by
  have hP : Prepared k c s k := Or.inl (Still.refl k)
  unfold rtSemWait at h
  rw [if_neg (by rw [C.semMagic]; exact nofun)] at h
  by_cases hc : k.count s ≤ 0
  · rw [if_pos hc] at h
    cases hv : (if k.type s > 0 then ubiMaiorVictim k c s else none) with
    | some u =>
      rw [hv] at h
      split at hv
      · next ht =>
          exact ubiMaiorRob_effect C hP hc ht hv (hrob u ht hv) h hf
      · exact nomatch hv
    | none =>
      rw [hv] at h
      dsimp only at h
      split at h
      · next hown => exact ⟨L, nestedWait_effect h hf hP hc hown.2.2⟩
      · next hown =>
          obtain ⟨k₁, h₁, h⟩ := Option.bind_eq_some_iff.mp h
          obtain ⟨k₂, h₂, h⟩ := Option.bind_eq_some_iff.mp h
          obtain ⟨rfl, rfl⟩ := finish_stay h hf
          exact wait_blocks {.semaphore} h₁ rfl h₂ (Still.refl k₂) rfl C
            hcall hP hc (not_owner hown)
            (fun f _ hf => Finset.mem_singleton.mp hf) (Or.inl rfl)
  · rw [if_neg hc] at h
    exact ⟨L, takeToken_effect h hf hc⟩

/-- **`rt_sem_wait_if`** -/
theorem rtSemWaitIf_effect {k k' : Kernel T S} {L : Head T S → List T}
    {c : T} {s : S} {r : Outcome T S} {o : Option (Ret T)}
    (h : rtSemWaitIf k c s = some r) (hf : finish c r = (k', o))
    (C : Control k L) (hrob : RobsUnlinked k L c s) :
    ∃ L', Waits true k L c s k' L' o := by
  have hP : Prepared k c s k := Or.inl (Still.refl k)
  unfold rtSemWaitIf at h
  rw [if_neg (by rw [C.semMagic]; exact nofun)] at h
  by_cases hc : k.count s ≤ 0
  · rw [if_pos hc] at h
    cases hv : (if k.type s > 0 then ubiMaiorVictim k c s else none) with
    | some u =>
      rw [hv] at h
      split at hv
      · next ht =>
          exact ubiMaiorRob_effect C hP hc ht hv (hrob u ht hv) h hf
      · exact nomatch hv
    | none =>
      rw [hv] at h
      dsimp only at h
      split at h
      · next hown => exact ⟨L, nestedWait_effect h hf hP hc hown.2⟩
      · obtain ⟨rfl, rfl⟩ := finish_done h hf
        exact ⟨L, .refuse k _ hP hc rfl rfl rfl (Or.inr ⟨rfl, rfl⟩)⟩
  · rw [if_neg hc] at h
    exact ⟨L, takeToken_effect h hf hc⟩

omit decT finT finS in
/-- A token that is taken and given back while there is none leaves the count
    alone. -/
theorem count_back (k : Kernel T S) (s : S) (hc : k.count s ≤ 0) :
    Function.update (Function.update k.count s (k.count s - 1)) s
      (moreCount { k with
        count := Function.update k.count s (k.count s - 1) } s) = k.count := by
  have hm : moreCount { k with
      count := Function.update k.count s (k.count s - 1) } s = k.count s := by
    have hself : Function.update k.count s (k.count s - 1) s = k.count s - 1 :=
      Function.update_self ..
    rw [moreCount_of_nonpos (by dsimp only; omega)]
    dsimp only
    omega
  rw [hm, Function.update_idem, Function.update_eq_self]

/-- The time of a timed wait is over before it begins. -/
theorem rtSemWaitUntil_expires {tries : Bool} {k k' : Kernel T S} {L : Head T S → List T}
    {c : T} {s : S} {time : Int} {r : Outcome T S} {o : Option (Ret T)}
    (C : Control k L) (hcall : Caller k c) (hc : k.count s ≤ 0)
    (h : rtSemWaitUntilTail { k with
      blockedOn := Function.update k.blockedOn c (.queue (.sem s))
      resumeTime := Function.update k.resumeTime c time
      count := Function.update k.count s (k.count s - 1)
      queue := k.queue.selfLink (.elem c) } c s = some r)
    (hf : finish c r = (k', o)) : Waits tries k L c s k' L o := by
  unfold rtSemWaitUntilTail at h
  dsimp only at h
  rw [Function.update_self] at h
  obtain ⟨k₂, hw, hd⟩ := Option.bind_eq_some_iff.mp h
  obtain ⟨rfl, rfl⟩ := finish_done hd hf
  have hre := semWaitFailed_spec hw
  unfold unqueued at hre
  dsimp only at hre
  rw [unlink_selfLink, Function.update_idem] at hre
  have hk₁ : Still k { k with
      resumeTime := Function.update k.resumeTime c time } :=
    Still.times k k.timeH _ k.periodicResumeTime k.period k.resyncFrame
  have R := C.rings.selfLink (C.caller_unlinked hcall)
  refine .expire _ k₂ _ hc hk₁ R ?_ rfl rfl rfl
  have hcount := count_back { k with
    blockedOn := Function.update k.blockedOn c (.queue (.sem s))
    resumeTime := Function.update k.resumeTime c time
    queue := k.queue.selfLink (.elem c) } s hc
  dsimp only at hcount
  rw [hcount] at hre
  exact hre

/-- **`rt_sem_wait_until`** -/
theorem rtSemWaitUntil_effect {k k' : Kernel T S} {L : Head T S → List T}
    {c : T} {s : S} {time : Int} {r : Outcome T S} {o : Option (Ret T)}
    (h : rtSemWaitUntil k c s time = some r) (hf : finish c r = (k', o))
    (C : Control k L) (hcall : Caller k c) (hrob : RobsUnlinked k L c s) :
    ∃ L', Waits false k L c s k' L' o := by
  unfold rtSemWaitUntil at h
  rw [if_neg (by rw [C.semMagic]; exact nofun)] at h
  by_cases hc : k.count s ≤ 0
  · rw [if_pos hc] at h
    dsimp only at h
    have hP : Prepared k c s { k with
        blockedOn := Function.update k.blockedOn c (.queue (.sem s))
        resumeTime := Function.update k.resumeTime c time } :=
      Or.inr (Still.times _ k.timeH _ k.periodicResumeTime k.period k.resyncFrame)
    split at h
    · next htime =>
        cases hv : (if k.type s > 0 then ubiMaiorVictim { k with
            blockedOn := Function.update k.blockedOn c (.queue (.sem s))
            resumeTime := Function.update k.resumeTime c time } c s
            else none) with
        | some u =>
          rw [hv] at h
          split at hv
          · next ht =>
              exact ubiMaiorRob_effect C hP hc ht hv (hrob u ht hv) h hf
          · exact nomatch hv
        | none =>
          rw [hv] at h
          dsimp only at h
          split at h
          · next hown => exact ⟨L, nestedWait_effect h hf hP hc hown.2.2⟩
          · next hown =>
              obtain ⟨k₁, h₁, h⟩ := Option.bind_eq_some_iff.mp h
              obtain ⟨k₂, h₂, h⟩ := Option.bind_eq_some_iff.mp h
              obtain ⟨k₃, h₃, h⟩ := Option.bind_eq_some_iff.mp h
              obtain ⟨rfl, rfl⟩ := finish_stay h hf
              have h₃' := enqTimedTask_still h₃
              refine wait_blocks _ h₁ rfl h₂ h₃' rfl C hcall hP hc
                (not_owner hown) ?_ (Or.inr rfl)
              intro f hb hf
              rcases Finset.mem_insert.mp hf with hf | hf
              · exact hf
              · rw [Finset.mem_singleton.mp hf] at hb
                exact absurd hb (by decide)
    · exact ⟨L, rtSemWaitUntil_expires C hcall hc h hf⟩
  · rw [if_neg hc] at h
    exact ⟨L, takeToken_effect h hf hc⟩

/-! ### Signalling -/

omit finS in
/-- The first waiter is granted the semaphore. -/
theorem wakeWaiter_spec {k k' : Kernel T S} {u : T} {ready : Bool}
    (h : wakeWaiter k u = some (k', ready)) :
    Still { k with
      state := Function.update k.state u (k.state u \ {.semaphore, .delayed})
      blockedOn := Function.update k.blockedOn u .null
      queue := k.queue.unlink (.elem u) } k' ∧
    k'.suspdepth = k.suspdepth ∧
    (ready = true → .delayed ∉ k'.state u) := by
  have hrem : ∃ tm, remTimedTask (dequeueBlocked k u) u = { k with
      blockedOn := Function.update k.blockedOn u .null
      queue := k.queue.unlink (.elem u)
      timed := tm } := by
    unfold remTimedTask dequeueBlocked
    split
    · exact ⟨_, rfl⟩
    · exact ⟨k.timed, rfl⟩
  obtain ⟨tm, hrem⟩ := hrem
  unfold wakeWaiter at h
  rw [hrem] at h
  dsimp only at h
  split at h
  · next hready =>
      cases h
      refine ⟨?_, rfl, fun h => nomatch h⟩
      have hsame : Function.update k.state u
          (k.state u \ {.semaphore, .delayed}) = k.state := by
        have hs : k.state u \ {.semaphore, .delayed} = k.state u := by
          rw [hready]; decide
        rw [hs, Function.update_eq_self]
      rw [hsame]
      exact Still.timed _ tm
  · split at h
    · next hready =>
        obtain ⟨k₂, he, h⟩ := Option.bind_eq_some_iff.mp h
        cases h
        obtain ⟨hsd, hbits⟩ := enqReadyTask_keeps he
        refine ⟨(Still.timed _ tm).trans (enqReadyTask_still he hready), hsd, fun _ hd => ?_⟩
        have := hbits u .delayed (by decide) hd
        dsimp only at this
        rw [hready] at this
        exact absurd this (by decide)
    · cases h
      exact ⟨Still.timed _ tm, rfl, fun h => nomatch h⟩

/-- The rest of a signal by the owner of a resource. -/
theorem releaseResource_spec {k k' : Kernel T S} {c : T} {s : S}
    {u : Option T} {o : Option (Ret T)}
    (h : releaseResource k c s u = some (k', o))
    (hsd : 0 ≤ k.suspdepth c) :
    o = some (.val 0) ∧ ∃ p, prioFromResq (released k s u) c = some p ∧
      Still { released k s u with
        priority := Function.update k.priority c p } k' := by
  obtain ⟨k₂, hd, h⟩ := Option.bind_eq_some_iff.mp h
  obtain ⟨p, hp, hr⟩ := Option.bind_eq_some_iff.mp hd
  have hsame := renqReadyTask_suspdepth hr
  dsimp only at hsame
  have hstill := renqReadyTask_still hr
  split at h
  · cases h
    exact ⟨rfl, p, hp, (hstill.trans (Still.set k₂ c (by decide))).trans
      (Still.remReadyCurrent _ c)⟩
  · next hpos =>
      split at h
      · next hneg =>
          rw [hsame] at hneg
          exact absurd hneg (not_lt.mpr hsd)
      · cases h
        exact ⟨rfl, p, hp, hstill⟩

/-- The new owner of a resource is marked as not having run. -/
theorem handOver_spec {k k₂ k' : Kernel T S} {c u : T} {s : S} {ready : Bool}
    {o : Option (Ret T)} {q : Links (Node T (Head T S))}
    (hstill : Still (granted k s u q) k₂)
    (hdel : ready = true → .delayed ∉ k₂.state u)
    (h : releaseResource (if ready = true then { k₂ with
        running := Function.update k₂.running u
          (if .delayed ∈ k₂.state u then -4 else 0) } else k₂) c s (some u) =
      some (k', o))
    (hsd : 0 ≤ k₂.suspdepth c) :
    ∃ rn, (rn = k.running ∨ rn = Function.update k.running u 0) ∧ o = some (.val 0) ∧ ∃ p,
      prioFromResq { released (granted k s u q) s (some u) with
        running := rn } c = some p ∧
      Still { released (granted k s u q) s (some u) with
        running := rn
        priority := Function.update k.priority c p } k' := by
  have hrun : ∃ rn, (rn = k.running ∨ rn = Function.update k.running u 0) ∧
      (if ready = true then { k₂ with
        running := Function.update k₂.running u
          (if .delayed ∈ k₂.state u then -4 else 0) } else k₂) =
      { k₂ with running := rn } := by
    obtain ⟨_, _, _, _, _, _, _, _, _, _, _, rfl, -, -⟩ := hstill
    cases ready with
    | false => exact ⟨k.running, Or.inl rfl, rfl⟩
    | true =>
      refine ⟨_, Or.inr rfl, ?_⟩
      rw [if_pos rfl, if_neg (hdel rfl)]
      rfl
  obtain ⟨rn, hrn, heq⟩ := hrun
  rw [heq] at h
  obtain ⟨ho, p, hp, hk⟩ := releaseResource_spec h hsd
  refine ⟨rn, hrn, ho, p, ?_, ?_⟩
  · rw [← hp]
    obtain ⟨_, _, _, _, _, _, _, _, _, _, _, rfl, -, -⟩ := hstill
    exact prioFromResq_congr c rfl rfl rfl rfl rfl rfl
  · refine Still.trans ?_ hk
    obtain ⟨_, _, _, _, _, _, _, _, _, _, _, rfl, hst, haw⟩ := hstill
    exact ⟨_, _, _, _, _, _, _, _, _, _, _, rfl, hst, haw⟩

/-- **`rt_sem_signal`** -/
theorem rtSemSignal_effect {k k' : Kernel T S} {L : Head T S → List T}
    {c : Option T} {s : S} {o : Option (Ret T)}
    (h : rtSemSignal k c s = some (k', o)) (C : Control k L)
    (hsd : 0 < k.type s → ∀ c', c = some c' → 0 ≤ k.suspdepth c') :
    ∃ L', Signals k L c s k' L' o := by
  unfold rtSemSignal at h
  rw [if_neg (by rw [C.semMagic]; exact nofun)] at h
  split at h
  · next href =>
      cases h
      exact ⟨L, .refuse href.1 href.2.1 href.2.2 rfl rfl rfl⟩
  · next hnref =>
      have hown : k.type s ≠ 0 → k.restype s ≠ 0 → k.owndby s = c := by
        intro h1 h2
        by_contra hne
        exact hnref ⟨h1, h2, Or.inr hne⟩
      split at h
      · next hnest =>
          cases h
          exact ⟨L, .unnest (hown (by omega)) hnest rfl rfl rfl⟩
      · next hnest =>
          dsimp only at h
          rw [C.rings.next_head] at h
          cases hl : L (.sem s) with
          | nil =>
            rw [hl, firstOf_nil] at h
            dsimp only [queueTask] at h
            split at h
            · next ht =>
                obtain ⟨c', hc, h⟩ := Option.bind_eq_some_iff.mp h
                have ht1 : k.type s = 1 := by omega
                obtain ⟨rfl, p, hp, hk⟩ := releaseResource_spec h (hsd ht c' hc)
                exact ⟨L, .release c' hc p ht1
                  (fun hrt => (hown (by omega) hrt).trans hc) hl _ rfl hp hk
                  rfl rfl⟩
            · next ht =>
                cases h
                exact ⟨L, .give (not_lt.mp ht) hl rfl rfl rfl⟩
          | cons u l =>
            rw [hl, firstOf_cons] at h
            dsimp only [queueTask] at h
            obtain ⟨⟨k₂, ready⟩, hw, h⟩ := Option.bind_eq_some_iff.mp h
            obtain ⟨hgrant, hsame, hdel⟩ := wakeWaiter_spec hw
            have hstill : Still (granted k s u (k.queue.unlink (.elem u)))
                k₂ := hgrant
            dsimp only at hsame
            have hl' : L (.sem s) = [] ++ u :: l := hl
            have R := C.rings.unlink hl'
            dsimp only at h
            split at h
            · next ht =>
                obtain ⟨c', hc, h⟩ := Option.bind_eq_some_iff.mp h
                have ht' : 0 < k.type s := by
                  obtain ⟨_, _, _, _, _, _, _, _, _, _, _, rfl, -, -⟩ :=
                    hstill
                  exact ht
                have ht1 : k.type s = 1 := by omega
                have hown' : k.restype s ≠ 0 → k.owndby s = some c' :=
                  fun hrt => (hown (by omega) hrt).trans hc
                have hsd' : 0 ≤ k₂.suspdepth c' := by
                  rw [hsame]; exact hsd ht' c' hc
                obtain ⟨rn, hrn, ho, p, hp, hk⟩ :=
                  handOver_spec hstill hdel h hsd'
                exact ⟨_, .handOver c' hc p u l _ ht1 hown' hl rfl R rn hrn
                  _ rfl hp hk ho⟩
            · next ht =>
                cases h
                have hle : k.type s ≤ 0 := by
                  obtain ⟨_, _, _, _, _, _, _, _, _, _, _, rfl, -, -⟩ :=
                    hstill
                  exact not_lt.mp ht
                exact ⟨_, .grant u l _ hle hl rfl R hstill rfl⟩

end RtaiSemEffects
