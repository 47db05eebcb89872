import Rtai.NoToken

/-! # sem.c: barriers

    The first `rt_sem_wait_barrier` on a semaphore moves its count into
    `owndby`, which then holds the size of a gang and no task; here it is `size`.
    Whoever completes a gang broadcasts, whoever does not waits. -/

namespace RtaiBarriers

open RtaiRings RtaiKernel RtaiSchedCore RtaiTaskApi RtaiSched RtaiSem
  RtaiSteps RtaiControl RtaiSemEffects RtaiSemControl RtaiServices
  RtaiSemSteps RtaiBroadcast RtaiHolders RtaiNoToken

variable {T S : Type} [decT : DecidableEq T] [decS : DecidableEq S] [finT : Fintype T]
  [finS : Fintype S]

/-! ## The barriers -/

/-- The system, with the size of every barrier; 0 is a null pointer. -/
structure Barriers (T S : Type) where
  kernel : Kernel T S
  size : S → Int

/-- The state after a section, and what is returned. -/
abbrev BarrierOutcome (T S : Type) := Barriers T S × Option (Ret T)

/-- `sem->count < 1 ? 1 : sem->count` -/
def gangSize (count : Int) : Int := if count < 1 then 1 else count

/-- The first call makes the count the size. -/
def setUp (x : Barriers T S) (s : S) : Barriers T S :=
  if x.size s = 0 then
    { kernel := { x.kernel with
        count := Function.update x.kernel.count s 0
        type := Function.update x.kernel.type s 0 }
      size := Function.update x.size s (gangSize (x.kernel.count s)) }
  else x

/-- `rt_sem_wait_barrier`, undefined when a task owns the semaphore. -/
def rtSemWaitBarrier (x : Barriers T S) (c : T) (s : S) : Option (BarrierOutcome T S) :=
  if !x.kernel.semMagic s then some (x, some .objinv)
  else if x.kernel.owndby s ≠ none then none
  else
    let x := setUp x s
    if 1 - x.kernel.count s < x.size s then do
      let (k, o) ← rtSemWait x.kernel c s
      return ({ x with kernel := k }, o.map fun _ => .val (-1))
    else do
      let (k, _) ← rtSemBroadcast x.kernel s
      return ({ x with kernel := k }, some (.val 0))

/-- A call that returns leaves its task outside any call. -/
def leaves (c : T) (r : BarrierOutcome T S) : BarrierOutcome T S :=
  let (k, o) := finish c (r.1.kernel, r.2)
  ({ r.1 with kernel := k }, o)

/-- The sections of the tasks that meet. -/
inductive BarrierAction (T S : Type) where
  /-- The task calls `rt_sem_wait_barrier`. -/
  | arrive (c : T) (s : S)
  /-- Any other section. -/
  | kernel (a : Action T S)
  deriving DecidableEq

/-- What a section returns: every wait is the one inside a barrier call, and
    that returns -1. -/
def answer (k : Kernel T S) (a : Action T S) (o : Option (Ret T)) : Option (Ret T) :=
  match a with
  | .cont c => if waitsOn (k.pc c) = none then o else o.map fun _ => .val (-1)
  | _ => o

/-- One atomic section. -/
def barrierStep (x : Barriers T S) : BarrierAction T S → Option (BarrierOutcome T S)
  | .arrive c s =>
    if mayCall x.kernel c then (rtSemWaitBarrier x c s).map (leaves c)
    else none
  | .kernel a => do
      let (k, o) ← exec x.kernel a
      return ({ x with kernel := k }, answer x.kernel a o)

/-! ## Who waits -/

/-- The system, with the tasks that wait at each barrier: they have arrived and
    have neither been released nor removed themselves. -/
structure Gang (T S : Type) where
  barriers : Barriers T S
  waiting : S → Finset T

/-- A task that arrives waits, unless its call returns 0 and releases those that
    wait; one that comes back from its call has removed itself. -/
def attendance (x : Gang T S) (a : BarrierAction T S) (o : Option (Ret T)) : S → Finset T :=
  match a with
  | .arrive c s =>
    match o with
    | none => Function.update x.waiting s (insert c (x.waiting s))
    | some (.val 0) => Function.update x.waiting s ∅
    | some _ => x.waiting
  | .kernel (.cont c) =>
    if o = none then x.waiting else fun s => (x.waiting s).erase c
  | .kernel _ => x.waiting

/-- A step, with who waits at which barrier. -/
def gangStep (x : Gang T S) (a : BarrierAction T S) :
    Option (Gang T S × Option (Ret T)) := do
  let (y, o) ← barrierStep x.barriers a
  return ({ barriers := y, waiting := attendance x a o }, o)

/-- A system of semaphores with these counts. -/
def opened (cfg : Config T S) (n : S → Int) : Gang T S where
  barriers :=
    { kernel := { boot cfg with count := n }
      size := fun _ => 0 }
  waiting := fun _ => ∅

/-! ## The runs -/

/-- The services that come in between. -/
def GangOp (x : Gang T S) : Op T S → Prop
  | .suspend _ => True
  | .resume _ => True
  | .unblock t _ => ∃ s, t ∈ x.waiting s
  | _ => False

/-- The actions: arrivals, suspending and resuming, unblocking tasks that
    wait. -/
def GangAction (x : Gang T S) : BarrierAction T S → Prop
  | .arrive _ _ => True
  | .kernel (.call _ op) => GangOp x op
  | .kernel (.linux op) => GangOp x op
  | .kernel _ => True

/-- No resume makes a task ready that waits. -/
def SparesOp (x : Gang T S) : Op T S → Prop
  | .resume t => x.barriers.kernel.suspdepth t = 1 →
      x.barriers.kernel.state t \ {.suspended, .delayed} = {.ready} → ∀ s, t ∉ x.waiting s
  | _ => True

/-- No task is made ready by a resume while it waits. -/
def SparesWaiters (x : Gang T S) : BarrierAction T S → Prop
  | .kernel (.call _ op) => SparesOp x op
  | .kernel (.linux op) => SparesOp x op
  | _ => True

/-! ## What is claimed -/

/-- A gang is never complete while its tasks wait, and the count is minus their
    number from the first call on. -/
structure Gathered (n : S → Int) (x : Gang T S) (s : S) : Prop where
  few : ((x.waiting s).card : Int) < gangSize (n s)
  count : x.barriers.size s ≠ 0 → x.barriers.kernel.count s = -((x.waiting s).card : Int)
  unused : x.barriers.size s = 0 → x.barriers.kernel.count s = n s ∧ x.waiting s = ∅

/-- The task is made to run unless something else holds it. -/
def Runs (k k' : Kernel T S) (t : T) : Prop :=
  k.state t \ {.semaphore, .delayed} = {.ready} →
    k'.state t = {.ready} ∨ k.isHard t = false ∧ k'.wakeup t = true

/-- **THE RELEASED** are those that waited: their wait is over, and nobody else's
    is. -/
structure Releases (x x' : Gang T S) (s : S) : Prop where
  none : x'.waiting s = ∅
  released : ∀ t, Granted x'.barriers.kernel s t ↔
    Granted x.barriers.kernel s t ∨ t ∈ x.waiting s
  runs : ∀ t ∈ x.waiting s, .semaphore ∉ x'.barriers.kernel.state t ∧
    Runs x.barriers.kernel x'.barriers.kernel t
  others : ∀ t, t ∉ x.waiting s → x'.barriers.kernel.state t = x.barriers.kernel.state t

/-- What a section returns and whom it releases: an arrival that completes a
    gang returns 0 and releases the others of it, any other waits; nothing else
    releases anybody, and the tasks that waited get -1. -/
def Answered (n : S → Int) (x : Gang T S) (a : BarrierAction T S)
    (o : Option (Ret T)) (x' : Gang T S) (s : S) : Prop :=
  match a with
  | .arrive c s' =>
    if s' = s then
      c ∉ x.waiting s ∧
      if ((x.waiting s).card : Int) + 1 = gangSize (n s) then
        o = some (.val 0) ∧ Releases x x' s
      else o = none ∧ x'.waiting s = insert c (x.waiting s) ∧
        ∀ t, Granted x'.barriers.kernel s t ↔ Granted x.barriers.kernel s t
    else x'.waiting s = x.waiting s ∧
      ∀ t, Granted x'.barriers.kernel s t ↔ Granted x.barriers.kernel s t
  | .kernel a =>
    (∀ t, Granted x'.barriers.kernel s t → Granted x.barriers.kernel s t) ∧
    x'.waiting s ⊆ x.waiting s ∧
    ∀ c, a = .cont c → waitsOn (x.barriers.kernel.pc c) = some s →
      o = some (.val (-1)) ∧ x'.waiting s = (x.waiting s).erase c

/-! ## A broadcast releases -/

section Releasing

variable {k k' : Kernel T S} {L : Head T S → List T} {u t : T} {s : S}

omit decS finS in
theorem enqReadyTask_runs (h : enqReadyTask k u = some k') (hu : k.state u = {.ready}) :
    (k'.state u = {.ready} ∨ k.isHard u = false ∧ k'.wakeup u = true) ∧
      (∀ t, t ≠ u → k'.state t = k.state t) ∧ k'.isHard = k.isHard ∧
      ∀ t, k.wakeup t = true → k'.wakeup t = true := by
  unfold enqReadyTask at h
  split at h
  · obtain ⟨pos, -, h⟩ := Option.bind_eq_some_iff.mp h
    cases h
    exact ⟨Or.inl hu, fun _ _ => rfl, rfl, fun _ => id⟩
  · next hsoft =>
      cases h
      refine ⟨Or.inr ⟨by simpa using hsoft, Function.update_self ..⟩,
        fun t ht => Function.update_of_ne ht .., rfl, fun t ht => ?_⟩
      show Function.update k.wakeup u true t = true
      by_cases htu : t = u
      · subst htu
        exact Function.update_self ..
      · rw [Function.update_of_ne htu]
        exact ht

omit finS in
/-- **One waiter is woken up**, and no other task is touched. -/
theorem wakeWaiter_runs {ready : Bool} (h : wakeWaiter k u = some (k', ready)) :
    Runs k k' u ∧ (∀ t, t ≠ u → k'.state t = k.state t) ∧
      k'.isHard = k.isHard ∧ ∀ t, k.wakeup t = true → k'.wakeup t = true := by
  have hrem : ∃ timed, remTimedTask (dequeueBlocked k u) u =
      { dequeueBlocked k u with timed := timed } := by
    unfold remTimedTask
    split
    · exact ⟨_, rfl⟩
    · exact ⟨k.timed, rfl⟩
  obtain ⟨timed, hrem⟩ := hrem
  unfold wakeWaiter at h
  rw [hrem] at h
  dsimp only at h
  split at h
  · next hready =>
      cases h
      exact ⟨fun _ => Or.inl hready, fun _ _ => rfl, rfl, fun _ => id⟩
  · have hoth : ∀ t, t ≠ u → Function.update (dequeueBlocked k u).state u
        ((dequeueBlocked k u).state u \ {.semaphore, .delayed}) t =
          k.state t := fun t ht => Function.update_of_ne ht ..
    split at h
    · next hready =>
        obtain ⟨k₂, hk₂, h⟩ := Option.bind_eq_some_iff.mp h
        cases h
        obtain ⟨hrun, hst, hhard, hwake⟩ := enqReadyTask_runs hk₂ hready
        exact ⟨fun _ => hrun, fun t ht => (hst t ht).trans (hoth t ht), hhard, hwake⟩
    · next hready =>
        cases h
        refine ⟨fun hst => absurd ?_ hready, hoth, rfl, fun _ => id⟩
        rw [Function.update_self]
        exact hst

omit finS in
/-- **The loop wakes up the queue**, and no other task is touched. -/
theorem broadcastLoop_runs {fuel : Nat} :
    ∀ {k k' : Kernel T S} {L : Head T S → List T}, Rings k.queue L →
      broadcastLoop s fuel k = some k' →
      (∀ t ∈ L (.sem s), Runs k k' t) ∧ (∀ t, t ∉ L (.sem s) → k'.state t = k.state t) ∧
        k'.isHard = k.isHard ∧ ∀ t, k.wakeup t = true → k'.wakeup t = true := by
  induction fuel with
  | zero => intro k k' L _ h; exact nomatch h
  | succ fuel ih =>
    intro k k' L R h
    unfold broadcastLoop at h
    rw [R.next_head] at h
    cases hl : L (.sem s) with
    | nil =>
      rw [hl, firstOf_nil, if_pos rfl] at h
      cases h
      exact ⟨fun t ht => absurd ht List.not_mem_nil, fun _ _ => rfl, rfl, fun _ => id⟩
    | cons u l =>
      rw [hl, firstOf_cons, if_neg (elem_ne_head u _)] at h
      dsimp only [queueTask] at h
      obtain ⟨⟨k₁, b⟩, hw, h⟩ := Option.bind_eq_some_iff.mp h
      obtain ⟨hstill, -, -⟩ := wakeWaiter_spec hw
      obtain ⟨hu, hoth, hhard, hwake⟩ := wakeWaiter_runs hw
      have hl' : L (.sem s) = [] ++ u :: l := hl
      have R₁ := R.unlink hl'
      have hq : k₁.queue = k.queue.unlink (.elem u) := by
        obtain ⟨_, _, _, _, _, _, _, _, _, _, _, rfl, -, -⟩ := hstill
        rfl
      obtain ⟨h1, h2, h3, h4⟩ := ih (hq ▸ R₁) h
      rw [Function.update_self, List.nil_append] at h1 h2
      have hnd : (u :: l).Nodup := hl ▸ R.nodup (.sem s)
      have hout := (List.nodup_cons.mp hnd).1
      refine ⟨?_, ?_, h3.trans hhard, fun t ht => h4 t (hwake t ht)⟩
      · intro t ht
        rcases List.mem_cons.mp ht with rfl | hin
        · -- it is not touched again
          intro hst
          rw [h2 t hout]
          exact (hu hst).imp_right fun h => ⟨h.1, h4 t h.2⟩
        · have htu : t ≠ u := by
            rintro rfl
            exact hout hin
          intro hst
          rw [← hoth t htu] at hst
          have := h1 t hin hst
          rw [hhard] at this
          exact this
      · intro t ht
        rw [List.mem_cons, not_or] at ht
        rw [h2 t ht.2, hoth t ht.1]

theorem rtSemBroadcast_runs {r : Outcome T S} (R : Rings k.queue L)
    (h : rtSemBroadcast k s = some r) :
    (∀ t ∈ L (.sem s), k.semMagic s = true → Runs k r.1 t) ∧
      ∀ t, t ∉ L (.sem s) → r.1.state t = k.state t := by
  unfold rtSemBroadcast at h
  split at h
  · next hm =>
      cases h
      refine ⟨fun t _ hm' => ?_, fun _ _ => rfl⟩
      rw [hm'] at hm
      exact absurd hm (by decide)
  · obtain ⟨k₁, hl, h⟩ := Option.bind_eq_some_iff.mp h
    cases h
    obtain ⟨h1, h2, -, -⟩ := broadcastLoop_runs R hl
    exact ⟨fun t ht _ => h1 t ht, h2⟩

end Releasing

/-! ## The invariant -/

/-- **THE BARRIERS COUNT THEIR WAITERS**: those that wait are those in the
    queue. -/
structure GangInv (n : S → Int) (x : Gang T S) (L : Head T S → List T) :
    Prop where
  control : Control x.barriers.kernel L
  places : ∀ t, SemPc (x.barriers.kernel.pc t)
  waiting : ∀ s t, t ∈ x.waiting s ↔ t ∈ L (.sem s)
  owner : ∀ s, x.barriers.kernel.owndby s = none
  used : ∀ s, x.barriers.size s ≠ 0 → x.barriers.size s = gangSize (n s) ∧
    NoToken x.barriers.kernel L s ∧
    ((L (.sem s)).length : Int) < x.barriers.size s
  unused : ∀ s, x.barriers.size s = 0 → x.barriers.kernel.count s = n s ∧ L (.sem s) = []
  waited : ∀ t s, waitsOn (x.barriers.kernel.pc t) = some s → x.barriers.size s ≠ 0

theorem gangSize_pos (n : Int) : 0 < gangSize n := by
  unfold gangSize
  split
  · decide
  · omega

section Invariant

variable {n : S → Int} {x x' : Gang T S} {L L' : Head T S → List T} {c t : T}
  {s s' : S} {o : Option (Ret T)}

omit decS finT finS in
/-- There are as many of them as are linked. -/
theorem GangInv.card (I : GangInv n x L) (s : S) :
    (x.waiting s).card = (L (.sem s)).length := by
  have hset : x.waiting s = (L (.sem s)).toFinset := by
    ext t
    rw [I.waiting s t, List.mem_toFinset]
  rw [hset]
  exact List.toFinset_card_of_nodup (I.control.rings.nodup (.sem s))

omit decS finT finS in
theorem GangInv.gathered (I : GangInv n x L) (s : S) : Gathered n x s := by
  have hcard := I.card s
  constructor
  · by_cases hz : x.barriers.size s = 0
    · rw [hcard, (I.unused s hz).2]
      exact gangSize_pos (n s)
    · obtain ⟨hsize, -, hlt⟩ := I.used s hz
      rw [hcard, ← hsize]
      exact hlt
  · intro hz
    rw [hcard]
    exact (I.used s hz).2.1.count
  · intro hz
    refine ⟨(I.unused s hz).1, Finset.card_eq_zero.mp ?_⟩
    rw [hcard, (I.unused s hz).2]
    rfl

omit decT decS finT finS in
/-- A task outside its wait waits at no barrier. -/
theorem GangInv.not_waiting (I : GangInv n x L)
    (hw : waitsOn (x.barriers.kernel.pc c) = none) (s : S) :
    c ∉ x.waiting s := by
  intro hc
  have hat := (I.control.stands c).home (.sem s) ((I.waiting s c).mp hc)
  exact nomatch hw.symm.trans hat.1

omit finT finS in
/-- To begin with nobody waits. -/
theorem gangInv_opened (cfg : Config T S) (n : S → Int) :
    GangInv n (opened cfg n) (fun _ => []) where
  control := (control_boot cfg).data (boot cfg).priority (boot cfg).basePriority
    n (boot cfg).type (boot cfg).owndby (boot cfg).resq
  places := fun _ => Or.inl rfl
  waiting := fun _ _ => iff_of_false (Finset.notMem_empty _) List.not_mem_nil
  owner := fun _ => rfl
  used := fun _ h => absurd rfl h
  unused := fun _ _ => ⟨rfl, rfl⟩
  waited := fun _ _ h => nomatch h

/-! ### Sections that are about no semaphore -/

omit finT finS in
/-- The condition says that `blocked_on` goes on telling who waits. -/
theorem GangInv.keepsGrants (I : GangInv n x L) {op : Op T S}
    (hop : GangOp x op) (hspare : SparesOp x op) :
    KeepsGrants x.barriers.kernel op := by
  cases op with
  | suspend t => trivial
  | resume t =>
    intro hd hst hw
    by_contra hb
    obtain ⟨s, hs⟩ := Option.ne_none_iff_exists'.mp hw
    exact hspare hd hst s ((I.waiting s t).mpr ((I.control.stands t).waits s hs hb))
  | unblock t mask =>
    intro _ _ _
    obtain ⟨s, hs⟩ := hop
    exact ((I.control.stands t).home (.sem s) ((I.waiting s t).mp hs)).2
  | _ => exact hop.elim

theorem GangInv.delaying {a : Action T S} {k₁ : Kernel T S} (I : GangInv n x L)
    (D : Delays x.barriers.kernel a k₁)
    (hkeep : ActionKeepsGrants x.barriers.kernel a) :
    GangInv n { x with barriers := { x.barriers with kernel := k₁ } } L := by
  obtain ⟨hcount, htype, -, hown⟩ := Delays.sems D
  have hwait : ∀ t s, waitsOn (k₁.pc t) = some s →
      waitsOn (x.barriers.kernel.pc t) = some s := by
    intro t s h
    rcases Delays.pc D t with heq | ⟨-, heq | heq | heq⟩
    · rw [← heq]
      exact h
    · rw [heq] at h
      exact nomatch h
    · rw [heq] at h
      exact nomatch h
    · exact nomatch (quiet_of_delayed heq).1.symm.trans h
  refine ⟨Delays.control D I.control hkeep, Delays.semPc D I.places, I.waiting,
    ?_, ?_, ?_, fun t s h => I.waited t s (hwait t s h)⟩
  · intro s
    exact (congrFun hown s).trans (I.owner s)
  · intro s hs
    obtain ⟨hsize, N, hlt⟩ := I.used s hs
    exact ⟨hsize, (Delays.queueStep D hkeep).noToken (congrFun htype s)
      (congrFun hown s) N, hlt⟩
  · intro s hs
    obtain ⟨hc, hl⟩ := I.unused s hs
    exact ⟨(congrFun hcount s).trans hc, hl⟩

/-! ### A task comes back from its wait -/

/-- A task that has come back from its wait is in no queue. -/
theorem WaitEnds.queues {k k' : Kernel T S} (W : WaitEnds k L c s k' L' o)
    (C : Control k L) (hpc : waitsOn (k.pc c) = some s) (s₁ : S) (t : T) :
    t ∈ L' (.sem s₁) ↔ t ∈ L (.sem s₁) ∧ t ≠ c := by
  cases W with
  | granted hb hk hL ho =>
    rw [hL]
    refine ⟨fun ht => ⟨ht, ?_⟩, And.left⟩
    rintro rfl
    exact C.granted_unlinked hpc hb _ ht
  | failed k₂ l₁ l₂ q hb hl hL R hre hk ho =>
    rw [hL]
    exact mem_remove_update C.rings hl

theorem WaitEnds.releases_nobody {k k' : Kernel T S}
    (W : WaitEnds k L c s k' L' o) (h : Granted k' s t) : Granted k s t := by
  obtain ⟨hidle, hoth⟩ := WaitEnds.moves W
  by_cases hb : k.blockedOn c = .null
  · cases W with
    | granted _ hk _ _ =>
      obtain ⟨ow, rq, he⟩ := takeOwnership_eq k c s
      rw [he] at hk
      subst hk
      exact ((granted_leaves (by rw [hidle]; rfl) hoth (fun _ _ => rfl) t).mp h).1
    | failed _ _ _ _ hne _ _ _ _ _ _ => exact absurd hb hne
  · exact ((WaitEnds.fails W hb).2 t).mp h

theorem GangInv.ends {k₁ : Kernel T S} (I : GangInv n x L)
    (W : WaitEnds x.barriers.kernel L c s k₁ L' o)
    (hpc : waitsOn (x.barriers.kernel.pc c) = some s)
    (hex : executes x.barriers.kernel c = true) :
    GangInv n
      { barriers := { x.barriers with kernel := k₁ }
        waiting := fun s => (x.waiting s).erase c } L' := by
  have hused := I.waited c s hpc
  obtain ⟨-, N, -⟩ := I.used s hused
  obtain ⟨hidle, hoth⟩ := WaitEnds.moves W
  have hq := WaitEnds.queues W I.control hpc
  have hsame : ∀ s₁, x.barriers.size s₁ ≠ 0 ∨ s ≠ s₁ → k₁.type s₁ = x.barriers.kernel.type s₁ ∧
        k₁.owndby s₁ = x.barriers.kernel.owndby s₁ := by
    intro s₁ h
    refine WaitEnds.owner_same W ?_
    by_cases hs : s = s₁
    · subst hs
      exact Or.inr N.type
    · exact Or.inl hs
  have C' := WaitEnds.control W I.control hpc hex
  have hlen : ∀ s₁, (L' (.sem s₁)).length ≤ (L (.sem s₁)).length := by
    intro s₁
    refine (List.subperm_of_subset (C'.rings.nodup (.sem s₁)) ?_).length_le
    exact fun t ht => ((hq s₁ t).mp ht).1
  refine ⟨C', ?_, ?_, ?_, ?_, ?_, ?_⟩
  · intro t
    by_cases ht : t = c
    · subst ht
      exact Or.inl hidle
    · show SemPc (k₁.pc t)
      rw [hoth t ht]
      exact I.places t
  · intro s₁ t
    rw [hq s₁ t, Finset.mem_erase, I.waiting s₁ t]
    exact and_comm
  · intro s₁
    refine (hsame s₁ ?_).2.trans (I.owner s₁)
    by_cases hs : s = s₁
    · subst hs
      exact Or.inl hused
    · exact Or.inr hs
  · intro s₁ h₁
    obtain ⟨hsize, N₁, hlt⟩ := I.used s₁ h₁
    have hl := hlen s₁
    refine ⟨hsize, ?_, ?_⟩
    · exact (WaitEnds.queueStep W hpc N₁).noToken (hsame s₁ (Or.inl h₁)).1
        (hsame s₁ (Or.inl h₁)).2 N₁
    · show ((L' (.sem s₁)).length : Int) < x.barriers.size s₁
      omega
  · intro s₁ h₁
    obtain ⟨hcount, hl⟩ := I.unused s₁ h₁
    have hs : s ≠ s₁ := by
      rintro rfl
      exact hused h₁
    refine ⟨(WaitEnds.untouched W hpc hs).count.trans hcount, ?_⟩
    have hl' := hlen s₁
    rw [hl] at hl'
    exact List.eq_nil_of_length_eq_zero (Nat.le_zero.mp hl')
  · intro t s₁ h
    by_cases ht : t = c
    · subst ht
      have h' : waitsOn (k₁.pc t) = some s₁ := h
      rw [hidle] at h'
      exact nomatch h'
    · refine I.waited t s₁ ?_
      rw [← hoth t ht]
      exact h


/-! ### Every section but an arrival -/

/-- The other actions of these runs delay or end a wait. -/
theorem GangInv.delays_or_ends {a : Action T S} (I : GangInv n x L)
    {r : Outcome T S} (ha : GangAction x (.kernel a))
    (hspare : SparesWaiters x (.kernel a))
    (he : exec x.barriers.kernel a = some r) :
    (delays x.barriers.kernel a = true ∧ ActionKeepsGrants x.barriers.kernel a) ∨
    ∃ c s, a = .cont c ∧ waitsOn (x.barriers.kernel.pc c) = some s := by
  cases a with
  | call c op =>
    refine Or.inl ⟨?_, I.keepsGrants ha hspare⟩
    cases op <;> first | rfl | exact ha.elim
  | linux op =>
    refine Or.inl ⟨?_, I.keepsGrants ha hspare⟩
    cases op <;> first | rfl | exact ha.elim
  | cont c =>
    rcases cont_cases (I.places c) he with hd | hs
    · exact Or.inl ⟨hd, trivial⟩
    · obtain ⟨s, hw⟩ := Option.isSome_iff_exists.mp hs
      exact Or.inr ⟨c, s, rfl, hw⟩
  | _ => exact Or.inl ⟨rfl, trivial⟩

/-- **EVERY OTHER SECTION** keeps the invariant and releases nobody. -/
theorem GangInv.otherStep {a : Action T S} (I : GangInv n x L)
    (ha : GangAction x (.kernel a)) (hspare : SparesWaiters x (.kernel a))
    (h : gangStep x (.kernel a) = some (x', o)) :
    (∃ L', GangInv n x' L') ∧ Answered n x (.kernel a) o x' s := by
  obtain ⟨⟨y, o'⟩, hy, h⟩ := Option.bind_eq_some_iff.mp h
  cases h
  obtain ⟨⟨k₁, o₁⟩, he, hy⟩ := Option.bind_eq_some_iff.mp hy
  cases hy
  rcases I.delays_or_ends ha hspare he with ⟨hd, hkeep⟩ | ⟨c, s₁, rfl, hpc⟩
  · have D := exec_delays hd he
    have hcont : ∀ c, a = .cont c → waitsOn (x.barriers.kernel.pc c) = none := by
      rintro c rfl
      exact (quiet_of_delayed hd).1
    have hsame : attendance x (.kernel a) (answer x.barriers.kernel a o₁) = x.waiting := by
      cases a with
      | cont c =>
        simp only [attendance]
        split
        · rfl
        · funext s
          exact Finset.erase_eq_of_notMem (I.not_waiting (hcont c rfl) s)
      | _ => rfl
    rw [hsame]
    refine ⟨⟨L, I.delaying D hkeep⟩, ?_, subset_rfl, ?_⟩
    · exact fun t => (Delays.granted D hkeep t).mp
    · intro c hc hw
      exact nomatch (hcont c hc).symm.trans hw
  · have hsem : aboutSem x.barriers.kernel (.cont c) = true := by
      show (waitsOn (x.barriers.kernel.pc c)).isSome = true
      rw [hpc]
      rfl
    obtain ⟨L', D⟩ := exec_sem hsem he I.control trivial trivial
    cases D with
    | waits _ _ _ _ ha _ _ _ => exact nomatch ha
    | signals _ _ _ ha _ _ _ => exact nomatch ha
    | linux _ ha _ => exact nomatch ha
    | ends c' s₂ ha hw hex W =>
      cases ha
      obtain rfl : s₂ = s₁ := Option.some.inj (hw.symm.trans hpc)
      have hret : ∃ v, o₁ = some v := by
        cases W with
        | granted _ _ _ ho => exact ⟨_, ho⟩
        | failed _ _ _ _ _ _ _ _ _ _ ho => exact ho.elim (⟨_, ·⟩) (⟨_, ·⟩)
      obtain ⟨v, rfl⟩ := hret
      have hans : answer x.barriers.kernel (.cont c) (some v) = some (.val (-1)) := by
        simp only [answer, hpc]
        rfl
      rw [hans]
      refine ⟨⟨L', I.ends W hpc hex⟩, ?_, ?_, ?_⟩
      · intro t ht
        by_cases hs : s₂ = s
        · subst hs
          exact WaitEnds.releases_nobody W ht
        · exact ((WaitEnds.untouched W hpc hs).granted t).mp ht
      · exact Finset.erase_subset c _
      · rintro c₁ hc hw₁
        cases hc
        exact ⟨rfl, rfl⟩

/-! ### An arrival -/

omit decT finT finS in
/-- **The first call** changes nothing but the count and the type. -/
theorem setUp_same (y : Barriers T S) (s : S) : ∃ count type, (setUp y s).kernel =
      { y.kernel with count := count, type := type } := by
  unfold setUp
  split
  · exact ⟨_, _, rfl⟩
  · exact ⟨y.kernel.count, y.kernel.type, rfl⟩

omit decT finT finS in
theorem GangInv.setsUp (I : GangInv n x L) (s : S) :
    GangInv n { x with barriers := setUp x.barriers s } L ∧
      (setUp x.barriers s).size s ≠ 0 := by
  unfold setUp
  split
  · next hz =>
      obtain ⟨hcount, hl⟩ := I.unused s hz
      rw [hcount]
      have hpos := gangSize_pos (n s)
      have hself : Function.update x.barriers.size s (gangSize (n s)) s =
          gangSize (n s) := Function.update_self ..
      have hother : ∀ s₁, s₁ ≠ s → Function.update x.barriers.size s (gangSize (n s)) s₁ =
            x.barriers.size s₁ := fun s₁ h => Function.update_of_ne h ..
      refine ⟨⟨?_, I.places, I.waiting, I.owner, ?_, ?_, ?_⟩, ?_⟩
      · exact I.control.data _ _ _ _ _ _
      · intro s₁ h₁
        by_cases hs : s₁ = s
        · subst hs
          refine ⟨hself, ⟨Function.update_self .., I.owner s₁, ?_⟩, ?_⟩
          · show Function.update x.barriers.kernel.count s₁ 0 s₁ = _
            rw [Function.update_self, hl]
            rfl
          · rw [hl]
            exact lt_of_lt_of_eq hpos hself.symm
        · have h₁' : x.barriers.size s₁ ≠ 0 := hother s₁ hs ▸ h₁
          obtain ⟨hsize, N, hlt⟩ := I.used s₁ h₁'
          refine ⟨(hother s₁ hs).trans hsize, ⟨?_, N.owndby, ?_⟩, ?_⟩
          · exact (Function.update_of_ne hs ..).trans N.type
          · exact (Function.update_of_ne hs ..).trans N.count
          · exact lt_of_lt_of_eq hlt (hother s₁ hs).symm
      · intro s₁ h₁
        have hs : s₁ ≠ s := by
          rintro rfl
          have h₁' : gangSize (n s₁) = 0 := hself.symm.trans h₁
          omega
        obtain ⟨hc, hl₁⟩ := I.unused s₁ ((hother s₁ hs).symm.trans h₁)
        exact ⟨(Function.update_of_ne hs ..).trans hc, hl₁⟩
      · intro t s₁ hw
        show Function.update x.barriers.size s (gangSize (n s)) s₁ ≠ 0
        by_cases hs : s₁ = s
        · subst hs
          rw [hself]
          omega
        · rw [hother s₁ hs]
          exact I.waited t s₁ hw
      · show Function.update x.barriers.size s (gangSize (n s)) s ≠ 0
        rw [hself]
        omega
  · next hz => exact ⟨I, hz⟩

/-- A wait for a semaphore that counts its waiters sleeps. -/
theorem rtSemWait_sleeps {k : Kernel T S} {r : Outcome T S} (N : NoToken k L s)
    (hm : k.semMagic s = true) (h : rtSemWait k c s = some r) : r.2 = none := by
  have hcount := N.count
  have hle : k.count s ≤ 0 := by omega
  have htype : ¬ k.type s > 0 := by
    rw [N.type]
    exact lt_irrefl 0
  unfold rtSemWait at h
  rw [hm, if_neg (by decide), if_pos hle, if_neg htype] at h
  dsimp only at h
  rw [if_neg fun h => htype h.1] at h
  obtain ⟨k₁, -, h⟩ := Option.bind_eq_some_iff.mp h
  obtain ⟨k₂, -, h⟩ := Option.bind_eq_some_iff.mp h
  cases h
  rfl

/-- Its caller is linked in the queue. -/
theorem Waits.joins {k k' : Kernel T S} (W : Waits false k L c s k' L' none)
    (N : NoToken k L s) (h : Head T S) (t : T) :
    t ∈ L' h ↔ t ∈ L h ∨ h = .sem s ∧ t = c := by
  cases W with
  | refuse _ _ _ _ _ _ ho _ => exact nomatch ho
  | take _ _ _ ho => exact nomatch ho
  | nested _ _ _ _ _ _ _ ho => exact nomatch ho
  | rob _ _ _ _ _ _ _ _ _ _ _ _ _ _ _ _ _ ho => exact nomatch ho
  | expire _ _ _ _ _ _ _ _ _ ho => exact nomatch ho
  | block k₀ k₁ L₁ l₁ l₂ q p hP _ _ hpass _ hl hL _ _ _ _ _ =>
    have hnull : passDest k s = .null := by
      unfold passDest
      rw [if_neg]
      rw [N.type]
      exact lt_irrefl 0
    rw [hnull] at hpass
    cases hpass
    rw [hL]
    exact mem_insert_update hl

omit decT decS finT finS in
/-- The other semaphores count on. -/
theorem GangInv.others {k₁ : Kernel T S} (I : GangInv n x L)
    (h : ∀ s₁, s ≠ s₁ → Untouched x.barriers.kernel L k₁ L' s₁ ∧
      k₁.type s₁ = x.barriers.kernel.type s₁ ∧
      k₁.owndby s₁ = x.barriers.kernel.owndby s₁) (s₁ : S) (hs : s ≠ s₁) :
    (x.barriers.size s₁ ≠ 0 → x.barriers.size s₁ = gangSize (n s₁) ∧
      NoToken k₁ L' s₁ ∧ ((L' (.sem s₁)).length : Int) < x.barriers.size s₁) ∧
    (x.barriers.size s₁ = 0 → k₁.count s₁ = n s₁ ∧ L' (.sem s₁) = []) ∧
    k₁.owndby s₁ = none := by
  obtain ⟨U, htype, hown⟩ := h s₁ hs
  refine ⟨fun hz => ?_, fun hz => ?_, hown.trans (I.owner s₁)⟩
  · obtain ⟨hsize, N, hlt⟩ := I.used s₁ hz
    refine ⟨hsize, U.queueStep.noToken htype hown N, ?_⟩
    rw [U.length]
    exact hlt
  · obtain ⟨hc, hl⟩ := I.unused s₁ hz
    refine ⟨U.count.trans hc, List.eq_nil_of_length_eq_zero ?_⟩
    rw [U.length, hl]
    rfl

/-- **AN ARRIVAL THAT DOES NOT COMPLETE A GANG** waits. -/
theorem GangInv.joins {r : Outcome T S} (I : GangInv n x L)
    (hmay : mayCall x.barriers.kernel c = true) (hz : x.barriers.size s ≠ 0)
    (hlt : 1 - x.barriers.kernel.count s < x.barriers.size s)
    (h : rtSemWait x.barriers.kernel c s = some r) :
    r.2 = none ∧ (∃ L', GangInv n
      { barriers := { x.barriers with kernel := r.1 }
        waiting := Function.update x.waiting s (insert c (x.waiting s)) } L') ∧
      ∀ s₁ t, Granted r.1 s₁ t ↔ Granted x.barriers.kernel s₁ t := by
  obtain ⟨hsize, N, -⟩ := I.used s hz
  have hcall := I.control.caller hmay
  have hnone := rtSemWait_sleeps N (I.control.semMagic s) h
  obtain ⟨k₁, o₁⟩ := r
  cases hnone
  have hpos : ¬ 0 < x.barriers.kernel.type s := by
    rw [N.type]
    exact lt_irrefl 0
  have hrob : RobsGranted x.barriers.kernel c s :=
    fun _ ht => absurd ht hpos
  obtain ⟨L', W⟩ := rtSemWait_effect h rfl I.control hcall
    (RobsGranted.unlinked hrob I.control)
  have hjoin := Waits.joins W N
  have C' := Waits.control W I.control hcall hrob
  have hown : ∀ s₁, k₁.type s₁ = x.barriers.kernel.type s₁ ∧
      k₁.owndby s₁ = x.barriers.kernel.owndby s₁ := by
    intro s₁
    refine Waits.owner_same W ?_
    by_cases hs : s = s₁
    · subst hs
      exact Or.inr ⟨N.type, N.owndby⟩
    · exact Or.inl hs
  have hoth := I.others fun s₁ (hs : s ≠ s₁) =>
    ⟨Waits.untouched W hcall hrob hs, hown s₁⟩
  have N' := (Waits.queueStep W hcall hrob N).noToken (hown s).1 (hown s).2 N
  have hg : ∀ s₁ t, Granted k₁ s₁ t ↔ Granted x.barriers.kernel s₁ t := by
    intro s₁ t
    by_cases hs : s = s₁
    · subst hs
      exact Waits.grants_nothing W hcall N t
    · exact (Waits.untouched W hcall hrob hs).granted t
  obtain ⟨p, hpc, hp⟩ := Waits.pc W
  have hw : waitsOn p = some s := by
    refine hp.resolve_left ?_
    rintro rfl
    -- it is linked, hence in its wait
    have hin : c ∈ L' (.sem s) := (hjoin _ c).mpr (Or.inr ⟨rfl, rfl⟩)
    have hat := ((C'.stands c).home (.sem s) hin).1
    rw [hpc, Function.update_self] at hat
    exact nomatch hat
  have hlen : (L' (.sem s)).length = (L (.sem s)).length + 1 := by
    have hset : (L' (.sem s)).toFinset = insert c (L (.sem s)).toFinset := by
      ext t
      rw [Finset.mem_insert, List.mem_toFinset, List.mem_toFinset, hjoin, or_comm]
      exact or_congr_left (and_iff_right rfl)
    have hout : c ∉ (L (.sem s)).toFinset := fun hc =>
      I.control.caller_unlinked hcall _ (List.mem_toFinset.mp hc)
    rw [← List.toFinset_card_of_nodup (C'.rings.nodup (.sem s)), hset,
      Finset.card_insert_of_notMem hout,
      List.toFinset_card_of_nodup (I.control.rings.nodup (.sem s))]
  refine ⟨rfl, ⟨L', C', ?_, ?_, ?_, ?_, ?_, ?_⟩, hg⟩
  · intro t
    show SemPc (k₁.pc t)
    rw [hpc]
    by_cases ht : t = c
    · subst ht
      rw [Function.update_self]
      exact Or.inr (Or.inr (Or.inr ⟨s, hw⟩))
    · rw [Function.update_of_ne ht]
      exact I.places t
  · intro s₁ t
    rw [hjoin]
    show t ∈ Function.update x.waiting s (insert c (x.waiting s)) s₁ ↔ _
    by_cases hs : s₁ = s
    · subst hs
      rw [Function.update_self, Finset.mem_insert, I.waiting, or_comm]
      exact or_congr_right (and_iff_right rfl).symm
    · rw [Function.update_of_ne hs, I.waiting]
      exact (or_iff_left fun h => hs (Head.sem.inj h.1)).symm
  · intro s₁
    exact (hown s₁).2.trans (I.owner s₁)
  · intro s₁ h₁
    by_cases hs : s = s₁
    · subst hs
      refine ⟨hsize, N', ?_⟩
      have hcount := N.count
      show ((L' (.sem s)).length : Int) < x.barriers.size s
      omega
    · exact (hoth s₁ hs).1 h₁
  · intro s₁ h₁
    have hs : s ≠ s₁ := by
      rintro rfl
      exact hz h₁
    exact (hoth s₁ hs).2.1 h₁
  · intro t s₁ h₁
    have h₁' : waitsOn (k₁.pc t) = some s₁ := h₁
    rw [hpc] at h₁'
    by_cases ht : t = c
    · subst ht
      rw [Function.update_self, hw] at h₁'
      cases h₁'
      exact hz
    · rw [Function.update_of_ne ht] at h₁'
      exact I.waited t s₁ h₁'

/-- **AN ARRIVAL THAT COMPLETES A GANG** releases it. -/
theorem GangInv.completes {r : Outcome T S} (I : GangInv n x L)
    (hmay : mayCall x.barriers.kernel c = true) (hz : x.barriers.size s ≠ 0)
    (h : rtSemBroadcast x.barriers.kernel s = some r)
    (hx' : x' = { barriers := { x.barriers with kernel := returned r.1 c }
                  waiting := Function.update x.waiting s ∅ }) :
    GangInv n x' (Function.update L (.sem s) []) ∧ Releases x x' s ∧
      ∀ s₁ t, s ≠ s₁ → (Granted x'.barriers.kernel s₁ t ↔ Granted x.barriers.kernel s₁ t) := by
  subst hx'
  obtain ⟨hsize, N, -⟩ := I.used s hz
  have hq := quiet_of_mayCall hmay
  have hcaller := I.not_waiting hq.1 s
  obtain ⟨hrun, hstill⟩ := rtSemBroadcast_runs I.control.rings h
  obtain ⟨k₁, o₁⟩ := r
  obtain ⟨-, k₂, D, rfl⟩ := rtSemBroadcast_effect h I.control
  obtain ⟨h1, h2, h3, -, -, -, -, h8⟩ := Served.fields D
  have hq₂ : Quiet (k₂.pc c) := by
    rw [h1]
    exact hq
  have C₂ := (Served.control D I.control).data k₂.priority k₂.basePriority
    (Function.update k₂.count s 0) k₂.type k₂.owndby k₂.resq
  have C' := Control.quiet_returned C₂ hq₂
  have hoth := I.others (s := s) fun s₁ hs =>
    ⟨(Served.untouched D rfl I.control hs).returned hq₂.1, congrFun h3 s₁,
      congrFun h2 s₁⟩
  have N' := (Served.queueStep D rfl I.control).noToken (congrFun h3 s) (congrFun h2 s) N
  have hempty : Function.update L (.sem s) [] (.sem s) = [] :=
    Function.update_self ..
  have hpc : ∀ t, t ≠ c → Function.update k₂.pc c .idle t = x.barriers.kernel.pc t := by
    intro t ht
    rw [Function.update_of_ne ht, h1]
  -- the queue is empty now, and the gang is the whole of it
  refine ⟨⟨C', ?_, ?_, ?_, ?_, ?_, ?_⟩, ⟨Function.update_self .., ?_, ?_, ?_⟩, ?_⟩
  · intro t
    show SemPc (Function.update k₂.pc c .idle t)
    by_cases ht : t = c
    · subst ht
      rw [Function.update_self]
      exact Or.inl rfl
    · rw [hpc t ht]
      exact I.places t
  · intro s₁ t
    show t ∈ Function.update x.waiting s ∅ s₁ ↔ _
    by_cases hs : s₁ = s
    · subst hs
      rw [Function.update_self, hempty]
      exact iff_of_false (Finset.notMem_empty t) List.not_mem_nil
    · rw [Function.update_of_ne hs, Function.update_of_ne (sem_ne (Ne.symm hs))]
      exact I.waiting s₁ t
  · exact fun s₁ => (congrFun h2 s₁).trans (I.owner s₁)
  · intro s₁ h₁
    by_cases hs : s = s₁
    · subst hs
      refine ⟨hsize, ⟨N'.type, N'.owndby, N'.count⟩, ?_⟩
      rw [hempty]
      have hpos := gangSize_pos (n s)
      rw [← hsize] at hpos
      exact hpos
    · exact (hoth s₁ hs).1 h₁
  · intro s₁ h₁
    have hs : s ≠ s₁ := by
      rintro rfl
      exact hz h₁
    exact (hoth s₁ hs).2.1 h₁
  · intro t s₁ h₁
    have h₁' : waitsOn (Function.update k₂.pc c .idle t) = some s₁ := h₁
    by_cases ht : t = c
    · subst ht
      rw [Function.update_self] at h₁'
      exact nomatch h₁'
    · rw [hpc t ht] at h₁'
      exact I.waited t s₁ h₁'
  · intro t
    refine (granted_returned hq₂.1 t).trans ?_
    rw [I.waiting s t]
    show waitsOn (k₂.pc t) = some s ∧ k₂.blockedOn t = .null ↔
      (waitsOn (x.barriers.kernel.pc t) = some s ∧
        x.barriers.kernel.blockedOn t = .null) ∨ t ∈ L (.sem s)
    rw [h1, h8 t]
    by_cases ht : t ∈ L (.sem s)
    · rw [if_pos ht]
      refine iff_of_true ⟨?_, rfl⟩ (Or.inr ht)
      exact ((I.control.stands t).home (.sem s) ht).1
    · rw [if_neg ht]
      exact (or_iff_left ht).symm
  · intro t ht
    have hin := (I.waiting s t).mp ht
    have htc : t ≠ c := by
      rintro rfl
      exact hcaller ht
    refine ⟨fun hsem => ?_, hrun t hin (I.control.semMagic s)⟩
    have hb : k₂.blockedOn t = .null := (h8 t).trans (if_pos hin)
    rcases (C'.stands t).semBit hsem with ⟨s₁, -, hb'⟩ | ⟨-, hidle, -⟩
    · exact nomatch hb.symm.trans hb'
    · have hidle' : Function.update k₂.pc c .idle t = .idle := hidle
      rw [hpc t htc] at hidle'
      have hw := ((I.control.stands t).home (.sem s) hin).1
      rw [hidle'] at hw
      exact nomatch hw
  · intro t ht
    exact hstill t fun hin => ht ((I.waiting s t).mpr hin)
  · intro s₁ t hs
    exact ((Served.untouched D rfl I.control hs).returned hq₂.1).granted t

/-- **EVERY ARRIVAL** waits, or completes a gang and releases it. -/
theorem GangInv.arrival (I : GangInv n x L) (h : gangStep x (.arrive c s) = some (x', o)) :
    (∃ L', GangInv n x' L') ∧ ∀ s₁, Answered n x (.arrive c s) o x' s₁ := by
  obtain ⟨⟨y, o'⟩, hy, h⟩ := Option.bind_eq_some_iff.mp h
  cases h
  simp only [barrierStep] at hy
  split at hy
  · next hmay =>
      obtain ⟨⟨z, v⟩, hr, hleave⟩ := Option.map_eq_some_iff.mp hy
      simp only [rtSemWaitBarrier] at hr
      rw [if_neg (by rw [I.control.semMagic]; exact nofun),
        if_neg (fun hne => hne (I.owner s))] at hr
      obtain ⟨I₀, hz⟩ := I.setsUp s
      obtain ⟨count, type, hsame⟩ := setUp_same x.barriers s
      have hmay₀ : mayCall (setUp x.barriers s).kernel c = true := by
        rw [hsame]
        exact hmay
      have hgr : ∀ s₁ t, Granted (setUp x.barriers s).kernel s₁ t ↔
          Granted x.barriers.kernel s₁ t := by
        intro s₁ t
        rw [hsame]
        exact Iff.rfl
      obtain ⟨hsize, N, hlt⟩ := I₀.used s hz
      have hcount := N.count
      have hcard := I.card s
      have hout := I.not_waiting (quiet_of_mayCall hmay).1 s
      dsimp only at hsize hlt hcount hz
      split at hr
      · next hroom =>
          obtain ⟨⟨k₁, o₁⟩, hw, hr⟩ := Option.bind_eq_some_iff.mp hr
          cases hr
          obtain ⟨hnone, hinv, hg⟩ := I₀.joins hmay₀ hz hroom hw
          cases hnone
          cases hleave
          refine ⟨hinv, fun s₁ => ?_⟩
          simp only [Answered]
          split
          · next hs =>
              subst hs
              refine ⟨hout, ?_⟩
              rw [if_neg (by omega)]
              exact ⟨trivial, Function.update_self .., fun t =>
                (hg s t).trans (hgr s t)⟩
          · next hs =>
              exact ⟨Function.update_of_ne (Ne.symm hs) ..,
                fun t => (hg s₁ t).trans (hgr s₁ t)⟩
      · next hfull =>
          obtain ⟨⟨k₁, o₁⟩, hb, hr⟩ := Option.bind_eq_some_iff.mp hr
          cases hr
          cases hleave
          obtain ⟨hinv, R, hg⟩ := I₀.completes hmay₀ hz hb rfl
          refine ⟨⟨_, hinv⟩, fun s₁ => ?_⟩
          simp only [Answered]
          split
          · next hs =>
              subst hs
              refine ⟨hout, ?_⟩
              rw [if_pos (by omega)]
              refine ⟨trivial, R.none, ?_, ?_, ?_⟩
              · exact fun t => (R.released t).trans (or_congr_left (hgr s t))
              · intro t ht
                obtain ⟨hsem, hrun⟩ := R.runs t ht
                refine ⟨hsem, ?_⟩
                rw [hsame] at hrun
                exact hrun
              · intro t ht
                refine (R.others t ht).trans ?_
                rw [hsame]
          · next hs =>
              exact ⟨Function.update_of_ne (Ne.symm hs) ..,
                fun t => (hg s₁ t hs).trans (hgr s₁ t)⟩
  · exact nomatch hy

end Invariant

end RtaiBarriers
