import Rtai.Services

/-! # sem.c: deleting a semaphore

    `rt_sem_delete` goes along the wait queue and makes every task ready that
    waits for nothing but the semaphore, and tells it so through `blocked_on`.
    The tasks stay linked in the queue of a semaphore that does not exist any
    more, so it matters that none of them comes back to it: a task that is
    told `RTP_OBJREM` returns at once, a task that is not told so unlinks
    itself, and a resume that writes `blocked_on` makes it believe that it has
    got the semaphore. -/

namespace RtaiSemDelete

open RtaiRings RtaiRuns RtaiKernel RtaiSchedCore RtaiPrioInher RtaiTaskApi
  RtaiSched RtaiSem RtaiSteps RtaiFrames RtaiControl RtaiSemEffects
  RtaiSemControl RtaiServices

variable {T S : Type} [decT : DecidableEq T] [decS : DecidableEq S] [finT : Fintype T]
  [finS : Fintype S]

/-! ## The service -/

/-- The loop of `rt_sem_delete` from node `n` on.  It ends at the head of the
    queue, or at a node that holds no task. -/
def deleteWaiters (s : S) : Nat → Kernel T S → Node T (Head T S) → Option (Kernel T S)
  | 0, _, _ => none
  | fuel + 1, k, n =>
    if n = .head (.sem s) then some k
    else
      match queueTask k n with
      | .null => some k
      | .higerr => none
      | .task u => do
          let k := remTimedTask k u
          let k ←
            if k.state u = {.ready} then some k
            else
              let k := { k with
                state := Function.update k.state u (k.state u \ {.semaphore, .delayed}) }
              if k.state u = {.ready} then
                enqReadyTask { k with
                  blockedOn := Function.update k.blockedOn u .objrem } u
              else some k
          deleteWaiters s fuel k (k.queue.next n)

/-- The owner of a deleted resource gives it up.  A registered suspension or
    deletion takes effect. -/
def deleteOwned (k : Kernel T S) (c : Option T) (s : S) (o : T) :
    Option (Kernel T S) := do
  let k ← dequeueResqelResetTaskPriority k s o
  if k.suspdepth o > 0 then
    -- not ready any more, so that it stays in the ready list
    let k := { k with
      state := Function.update k.state o (k.state o ∪ {.suspended}) }
    return remReadyTask k o
  else if k.suspdepth o = RT_RESEM_SUSPDEL then rtTaskDelete k c o
  else return k

/-- `rt_sem_delete`: the waiters, then the owner. -/
def rtSemDelete (k : Kernel T S) (c : Option T) (s : S) : Option (Outcome T S) :=
  if !k.semMagic s then done k .objinv
  else do
    let k := { k with semMagic := Function.update k.semMagic s false }
    let k ← deleteWaiters s (queueFuel T S) k (k.queue.next (.head (.sem s)))
    match k.owndby s with
    | some o =>
      if k.type s > 0 then do done (← deleteOwned k c s o) (.val 0)
      else done k (.val 0)
    | none => done k (.val 0)

/-! ## Who is told -/

/-- A task waits for the semaphore and for nothing else: neither suspended,
    nor ready because its time is over or it has been unblocked. -/
def OnlyWaits (k : Kernel T S) (u : T) : Prop :=
  k.state u ≠ {.ready} ∧ k.state u \ {.semaphore, .delayed} = {.ready}

/-- Nobody moves in a call, and whoever has been told that the object is gone
    goes on knowing it. -/
structure Tells (k k' : Kernel T S) : Prop where
  pc : k'.pc = k.pc
  told : ∀ u, k.blockedOn u = .objrem → k'.blockedOn u = .objrem

omit decT decS finT finS in
theorem Tells.refl (k : Kernel T S) : Tells k k := ⟨rfl, fun _ h => h⟩

omit decT decS finT finS in
theorem Tells.trans {k₁ k₂ k₃ : Kernel T S} (h : Tells k₁ k₂)
    (h' : Tells k₂ k₃) : Tells k₁ k₃ :=
  ⟨h'.pc.trans h.pc, fun u hu => h'.told u (h.told u hu)⟩

omit decT decS finT finS in
theorem Tells.still {k k' : Kernel T S} (h : Still k k') : Tells k k' := by
  obtain ⟨_, _, _, _, _, _, _, _, _, _, _, rfl, -⟩ := h
  exact ⟨rfl, fun _ h => h⟩

section Loops

variable {k k' : Kernel T S} {s : S} {o u : T}

omit decS finS in
theorem enqReadyTask_fields (h : enqReadyTask k u = some k') :
    k'.queue = k.queue ∧ k'.pc = k.pc ∧ k'.blockedOn = k.blockedOn ∧
      ∀ v, v ≠ u → k'.state v = k.state v := by
  unfold enqReadyTask at h
  split at h
  · obtain ⟨pos, -, h⟩ := Option.bind_eq_some_iff.mp h
    cases h
    exact ⟨rfl, rfl, rfl, fun _ _ => rfl⟩
  · cases h
    exact ⟨rfl, rfl, rfl, fun v hv => Function.update_of_ne hv ..⟩

omit decS finT finS in
theorem remTimedTask_eq (k : Kernel T S) (u : T) :
    ∃ tm, remTimedTask k u = { k with timed := tm } := by
  unfold remTimedTask
  split
  · exact ⟨_, rfl⟩
  · exact ⟨k.timed, rfl⟩

omit finS in
/-- One round of the loop. -/
theorem deleteWaiters_cons {fuel : Nat}
    (h : deleteWaiters s (fuel + 1) k (.elem u) = some k') :
    ∃ k₁, deleteWaiters s fuel k₁ (k.queue.next (.elem u)) = some k' ∧
      k₁.queue = k.queue ∧ k₁.pc = k.pc ∧
      (∀ v, v ≠ u → k₁.state v = k.state v ∧ k₁.blockedOn v = k.blockedOn v) ∧
      (k.blockedOn u = .objrem → k₁.blockedOn u = .objrem) ∧
      (OnlyWaits k u → k₁.blockedOn u = .objrem) := by
  unfold deleteWaiters at h
  rw [if_neg (elem_ne_head u (Head.sem s : Head T S))] at h
  obtain ⟨tm, htm⟩ := remTimedTask_eq k u
  simp only [queueTask, htm] at h
  split at h
  · next hready =>
      obtain ⟨k₁, hk₁, h⟩ := Option.bind_eq_some_iff.mp h
      cases hk₁
      exact ⟨_, h, rfl, rfl, fun _ _ => ⟨rfl, rfl⟩, fun h => h, fun hw => absurd hready hw.1⟩
  · rw [Function.update_self] at h
    split at h
    · next hrest =>
        obtain ⟨k₁, hk₁, h⟩ := Option.bind_eq_some_iff.mp h
        obtain ⟨hq, hpc, hb, hst⟩ := enqReadyTask_fields hk₁
        have htold : k₁.blockedOn u = .objrem := by
          rw [hb]
          exact Function.update_self ..
        rw [hq] at h
        refine ⟨k₁, h, hq, hpc, fun v hv => ⟨?_, ?_⟩, fun _ => htold, fun _ => htold⟩
        · rw [hst v hv]
          exact Function.update_of_ne hv ..
        · rw [hb]
          exact Function.update_of_ne hv ..
    · next hrest =>
        obtain ⟨k₁, hk₁, h⟩ := Option.bind_eq_some_iff.mp h
        cases hk₁
        refine ⟨_, h, rfl, rfl, fun v hv => ⟨?_, rfl⟩, fun h => h, fun hw => absurd hw.2 hrest⟩
        exact Function.update_of_ne hv ..

omit finS in
/-- **THE LOOP TELLS EVERY TASK** in the queue that only waits for the
    semaphore. -/
theorem deleteWaiters_tells {fuel : Nat} :
    ∀ {k k' : Kernel T S} {n : Node T (Head T S)} {ws : List T},
      n = firstOf ws (.head (.sem s)) →
      (∀ l₁ a l₂, ws = l₁ ++ a :: l₂ → k.queue.next (.elem a) = firstOf l₂ (.head (.sem s))) →
      ws.Nodup → deleteWaiters s fuel k n = some k' →
      Tells k k' ∧ k'.queue = k.queue ∧
        ∀ a ∈ ws, OnlyWaits k a → k'.blockedOn a = .objrem := by
  induction fuel with
  | zero => intro k k' n ws _ _ _ h; exact nomatch h
  | succ fuel ih =>
    rintro k k' n ws rfl hnext hnd h
    cases ws with
    | nil =>
      unfold deleteWaiters at h
      rw [firstOf_nil, if_pos rfl] at h
      cases h
      exact ⟨Tells.refl k, rfl, nofun⟩
    | cons a l =>
      obtain ⟨k₁, h, hq, hpc, hother, hkeep, htold⟩ :=
        deleteWaiters_cons h
      have hnda := List.nodup_cons.mp hnd
      have hstep : Tells k k₁ := by
        refine ⟨hpc, fun v hv => ?_⟩
        by_cases hva : v = a
        · subst hva
          exact hkeep hv
        · rw [(hother v hva).2]
          exact hv
      have hnext₁ : ∀ l₁ b l₂, l = l₁ ++ b :: l₂ →
          k₁.queue.next (.elem b) = firstOf l₂ (.head (.sem s)) := by
        intro l₁ b l₂ hl
        rw [hq]
        exact hnext (a :: l₁) b l₂ (by rw [hl]; rfl)
      obtain ⟨ht, hq', hall⟩ := ih (hnext [] a l rfl) hnext₁ hnda.2 h
      refine ⟨hstep.trans ht, hq'.trans hq, fun b hb hw => ?_⟩
      rcases List.mem_cons.mp hb with rfl | hb
      · exact ht.told b (htold hw)
      · -- the rounds before have not touched it
        have hba : b ≠ a := fun hc => hnda.1 (hc ▸ hb)
        refine hall b hb ?_
        unfold OnlyWaits at hw ⊢
        rwa [(hother b hba).1]

omit finS in
/-- The loops of `clr_rtext` tell as well. -/
theorem removeWaiters_tells {h₀ : Head T S} {mask : TaskState} {fuel : Nat} :
    ∀ {k k' : Kernel T S} {n : Node T (Head T S)},
      removeWaiters h₀ mask fuel k n = some k' → Tells k k' := by
  induction fuel with
  | zero => intro k k' n h; exact nomatch h
  | succ fuel ih =>
    intro k k' n h
    unfold removeWaiters at h
    split at h
    · cases h
      exact Tells.refl k
    · split at h
      · next u _ =>
          obtain ⟨tm, htm⟩ := remTimedTask_eq k u
          simp only [htm] at h
          -- in each case the task is told
          have htells : ∀ {k₁ : Kernel T S}, k₁.pc = k.pc →
              k₁.blockedOn = k.blockedOn → Tells k { k₁ with
                blockedOn := Function.update k₁.blockedOn u .objrem } := by
            intro k₁ hpc hb
            refine ⟨hpc, fun v hv => ?_⟩
            show Function.update k₁.blockedOn u .objrem v = .objrem
            by_cases hvu : v = u
            · subst hvu
              exact Function.update_self ..
            · rw [Function.update_of_ne hvu, hb]
              exact hv
          split at h
          · obtain ⟨k₁, hk₁, h⟩ := Option.bind_eq_some_iff.mp h
            cases hk₁
            exact (@htells { k with timed := tm } rfl rfl).trans (ih h)
          · split at h
            · obtain ⟨k₁, hk₁, h⟩ := Option.bind_eq_some_iff.mp h
              obtain ⟨-, hpc, hb, -⟩ := enqReadyTask_fields hk₁
              exact (htells hpc hb).trans (ih h)
            · obtain ⟨k₁, hk₁, h⟩ := Option.bind_eq_some_iff.mp h
              cases hk₁
              exact (@htells { k with
                timed := tm
                state := Function.update k.state u (k.state u \ mask) }
                rfl rfl).trans (ih h)
      · exact nomatch h

omit finT finS in
theorem leaveQueue_tells (h : leaveQueue k u = some k') : Tells k k' := by
  unfold leaveQueue at h
  split at h
  · cases h
    exact Tells.refl k
  · split at h
    · simp only at h
      split at h
      · split at h
        · cases h
          exact ⟨rfl, fun _ h => h⟩
        · exact nomatch h
      · cases h
        exact ⟨rfl, fun _ h => h⟩
    · split at h
      · exact nomatch h
      · cases h
        exact Tells.refl k

theorem rtTaskDelete_tells {c : Option T} (h : rtTaskDelete k c u = some k') :
    Tells k k' := by
  unfold rtTaskDelete at h
  split at h
  · cases h
    exact Tells.refl k
  · split at h
    · obtain ⟨k₁, hk₁, h⟩ := Option.bind_eq_some_iff.mp h
      obtain ⟨k₂, hk₂, h⟩ := Option.bind_eq_some_iff.mp h
      obtain ⟨k₃, hk₃, h⟩ := Option.bind_eq_some_iff.mp h
      cases h
      have h3 := (((Tells.still (Still.remTimedTask k u)).trans
        (leaveQueue_tells hk₁)).trans (removeWaiters_tells hk₂)).trans
        (removeWaiters_tells hk₃)
      have h4 := Tells.still (Still.remReadyTask { k₃ with
        magic := Function.update k₃.magic u false } u)
      exact ⟨h4.pc.trans h3.pc, fun v hv => h4.told v (h3.told v hv)⟩
    · cases h
      exact ⟨rfl, fun _ h => h⟩

theorem deleteOwned_tells {c : Option T} (h : deleteOwned k c s o = some k') :
    Tells k k' := by
  obtain ⟨k₁, hk₁, h⟩ := Option.bind_eq_some_iff.mp h
  have h1 : Tells k k₁ := by
    obtain ⟨p, -, hk₁⟩ := Option.bind_eq_some_iff.mp hk₁
    have hst := Tells.still (renqReadyTask_still hk₁)
    exact ⟨hst.pc, hst.told⟩
  split at h
  · cases h
    have h2 := Tells.still (Still.remReadyTask { k₁ with
      state := Function.update k₁.state o (k₁.state o ∪ {.suspended}) } o)
    exact h1.trans ⟨h2.pc, h2.told⟩
  · split at h
    · exact h1.trans (rtTaskDelete_tells h)
    · cases h
      exact h1

/-- **`rt_sem_delete` TELLS EVERY TASK** in the queue that only waits for the
    semaphore. -/
theorem rtSemDelete_tells {c : Option T} {ws : List T}
    (hring : Chain k.queue (.head (.sem s)) ws (.head (.sem s)))
    (h : rtSemDelete k c s = some (k', some (.val 0))) :
    k'.pc = k.pc ∧ ∀ u ∈ ws, OnlyWaits k u → k'.blockedOn u = .objrem := by
  have hnext : ∀ l₁ a l₂, ws = l₁ ++ a :: l₂ →
      k.queue.next (.elem a) = firstOf l₂ (.head (.sem s)) := by
    rintro l₁ a l₂ rfl
    exact ((chain_append l₁).mp hring).2.next_eq
  unfold rtSemDelete at h
  split at h
  · cases h
  · obtain ⟨k₁, hk₁, h⟩ := Option.bind_eq_some_iff.mp h
    obtain ⟨h1, -, hall⟩ :=
      deleteWaiters_tells (k := { k with
        semMagic := Function.update k.semMagic s false })
        hring.next_eq hnext hring.nodup hk₁
    -- giving up the resource takes nothing back
    have hend : Tells k₁ k' := by
      split at h
      · split at h
        · obtain ⟨k₂, hk₂, h⟩ := Option.bind_eq_some_iff.mp h
          cases h
          exact deleteOwned_tells hk₂
        · cases h
          exact Tells.refl _
      · cases h
        exact Tells.refl _
    exact ⟨hend.pc.trans h1.pc, fun u hu hw => hend.told u (hall u hu hw)⟩

end Loops

/-! ## What is still to come -/

/-- The kernel, with the tasks whose wait was pending when the semaphore was
    deleted and has not returned. -/
structure Bereft (T S : Type) where
  kernel : Kernel T S
  pending : Finset T

/-- One atomic section. -/
def later (x : Bereft T S) (a : Action T S) : Option (Bereft T S × Option (Ret T)) :=
  match exec x.kernel a with
  | none => none
  | some (k, o) =>
    some ({ kernel := k
            pending :=
              match a with
              | .cont c => if o = none then x.pending else x.pending.erase c
              | _ => x.pending }, o)

/-- The state behind the deletion of `s`, which has left the tasks of `ws`
    linked. -/
def bereft (k : Kernel T S) (s : S) (ws : List T) : Bereft T S where
  kernel := k
  pending := ws.toFinset.filter fun u => waitsOn (k.pc u) = some s

/-- Resumes, the scheduler, and the tasks that come back from a wait, a
    suspension or a delay. -/
def LaterAction (x : Bereft T S) : Action T S → Prop
  | .call _ (.resume _) => True
  | .call _ _ => False
  | .linux (.resume _) => True
  | .linux _ => False
  | .cont c => waitsOn (x.kernel.pc c) ≠ none ∨ delayed (x.kernel.pc c) = true
  | _ => True

/-- No resume makes a task ready whose wait was pending. -/
def SparesPending (x : Bereft T S) : Action T S → Prop
  | .call _ (.resume t) => spares t
  | .linux (.resume t) => spares t
  | _ => True
where
  spares (t : T) : Prop :=
    t ∈ x.pending → x.kernel.suspdepth t = 1 →
      x.kernel.state t \ {.suspended, .delayed} ≠ {.ready}

/-- **Deletion is reported**: a pending wait whose task executes returns with
    an error, and leaves the wait queues alone. -/
def Reported (x : Bereft T S) : Prop :=
  ∀ c ∈ x.pending, executes x.kernel c = true →
    ∃ k' v, exec x.kernel (.cont c) = some (k', some v) ∧
      (v = .objrem ∨ v = .timout ∨ v = .unblkd) ∧
      k'.queue = x.kernel.queue

/-- Whose wait was pending still stands in it, and has been told. -/
def Told (x : Bereft T S) : Prop :=
  ∀ u ∈ x.pending, waitsOn (x.kernel.pc u) ≠ none ∧ x.kernel.blockedOn u = .objrem

section Step

variable {x x' : Bereft T S} {a : Action T S} {o : Option (Ret T)}
  {k k' : Kernel T S} {c : T} {s : S}

/-- A task that was told returns with the error. -/
theorem told_returns (hpc : waitsOn (k.pc c) ≠ none) (hb : k.blockedOn c = .objrem) :
    contOp k c = some (k, some .objrem) := by
  unfold contOp
  cases hp : k.pc c with
  | semWait s =>
    simp only [rtSemWaitTail, hb]
    rfl
  | semWaitUntil s =>
    simp only [rtSemWaitUntilTail, hb]
    rfl
  | _ => rw [hp] at hpc; exact absurd rfl hpc

theorem reported_of_told (h : Told x) : Reported x := by
  intro c hc hex
  obtain ⟨hpc, hb⟩ := h c hc
  refine ⟨returned x.kernel c, .objrem, ?_, Or.inl rfl, rfl⟩
  simp only [exec, if_pos hex, told_returns hpc hb]
  rfl

/-- A waiter that leaves its queue changes nobody else's `blocked_on`. -/
theorem semWaitFailed_others (h : semWaitFailed k c s = some k') :
    k'.pc = k.pc ∧ ∀ u, u ≠ c → k'.blockedOn u = k.blockedOn u := by
  have hother : ∀ u, u ≠ c → Function.update k.blockedOn c .null u = k.blockedOn u :=
    fun u hu => Function.update_of_ne hu ..
  simp only [semWaitFailed] at h
  split at h
  · split at h
    · obtain ⟨p, -, h⟩ := Option.bind_eq_some_iff.mp h
      obtain ⟨_, _, _, _, _, _, _, _, _, _, _, rfl, -⟩ := renqReadyTask_still h
      exact ⟨rfl, hother⟩
    · cases h
      exact ⟨rfl, hother⟩
  · cases h
    exact ⟨rfl, hother⟩

/-- The end of a wait is nobody else's matter. -/
theorem contOp_others {r : Outcome T S} (hpc : waitsOn (k.pc c) ≠ none)
    (h : contOp k c = some r) :
    (∃ v, r.2 = some v) ∧ r.1.pc = k.pc ∧ ∀ u, u ≠ c → r.1.blockedOn u = k.blockedOn u := by
  have htake : ∀ s : S, (takeOwnership k c s).pc = k.pc ∧
      (takeOwnership k c s).blockedOn = k.blockedOn := by
    intro s
    obtain ⟨ow, rq, he⟩ := takeOwnership_eq k c s
    rw [he]
    exact ⟨rfl, rfl⟩
  obtain ⟨k', o⟩ := r
  unfold contOp at h
  cases hp : k.pc c with
  | semWait s =>
    simp only [hp, rtSemWaitTail] at h
    split at h
    · cases h
      exact ⟨⟨_, rfl⟩, (htake s).1, fun u _ => congrFun (htake s).2 u⟩
    · cases h
      exact ⟨⟨_, rfl⟩, rfl, fun _ _ => rfl⟩
    · obtain ⟨k₁, hk₁, h⟩ := Option.bind_eq_some_iff.mp h
      cases h
      exact ⟨⟨_, rfl⟩, semWaitFailed_others hk₁⟩
  | semWaitUntil s =>
    simp only [hp, rtSemWaitUntilTail] at h
    split at h
    · cases h
      exact ⟨⟨_, rfl⟩, (htake s).1, fun u _ => congrFun (htake s).2 u⟩
    · cases h
      exact ⟨⟨_, rfl⟩, rfl, fun _ _ => rfl⟩
    · obtain ⟨k₁, hk₁, h⟩ := Option.bind_eq_some_iff.mp h
      cases h
      exact ⟨⟨_, rfl⟩, semWaitFailed_others hk₁⟩
  | _ => rw [hp] at hpc; exact absurd rfl hpc

omit decS finT finS in
/-- A resume of another task, or one that makes nobody ready. -/
theorem Serves.told {t : T} (h : Serves k (.resume t) k')
    (hs : SparesPending.spares x t) (hk : x.kernel = k) {u : T}
    (hu : u ∈ x.pending) :
    k'.pc = k.pc ∧ (k.blockedOn u = .objrem → k'.blockedOn u = .objrem) := by
  cases h with
  | still hk => exact ⟨(Tells.still hk).pc, (Tells.still hk).told u⟩
  | owed _ _ _ hk' =>
    rw [hk']
    exact ⟨rfl, fun h => h⟩
  | resumed t' hop hd hst hk' =>
    cases hop
    have ht := Tells.still hk'
    refine ⟨ht.pc, fun hb => ht.told u ?_⟩
    show Function.update k.blockedOn t .null u = .objrem
    have hut : u ≠ t := by
      rintro rfl
      exact hs hu (hk ▸ hd) (hk ▸ hst)
    rw [Function.update_of_ne hut]
    exact hb
  | unblocked t' mask hop _ _ _ => exact nomatch hop

/-- **EVERY STEP LEAVES THE PENDING WAITS TOLD.** -/
theorem Told.step (h : Told x) (ha : LaterAction x a)
    (hs : SparesPending x a) (hx : later x a = some (x', o)) : Told x' := by
  unfold later at hx
  cases he : exec x.kernel a with
  | none => rw [he] at hx; exact nomatch hx
  | some r =>
    obtain ⟨k', o'⟩ := r
    rw [he] at hx
    cases hx
    -- it is enough that no pending task is touched
    have hkeep : ∀ {P : Finset T}, P ⊆ x.pending → (∀ u ∈ P, k'.pc u = x.kernel.pc u ∧
          (x.kernel.blockedOn u = .objrem → k'.blockedOn u = .objrem)) →
        Told { kernel := k', pending := P } := by
      intro P hP hall u hu
      obtain ⟨hpc, hb⟩ := h u (hP hu)
      obtain ⟨hpc', hb'⟩ := hall u hu
      exact ⟨hpc'.symm ▸ hpc, hb' hb⟩
    have hidle : ∀ {t : T}, Quiet (x.kernel.pc t) → t ∉ x.pending :=
      fun hq ht => (h _ ht).1 hq.1
    have hcont : ∀ {c : T}, (if o = none then x.pending
        else x.pending.erase c) ⊆ x.pending := by
      intro c
      split
      · exact subset_refl _
      · exact Finset.erase_subset ..
    have hdelays : delays x.kernel a = true → ∀ u ∈ x.pending, k'.pc u = x.kernel.pc u ∧
          (x.kernel.blockedOn u = .objrem → k'.blockedOn u = .objrem) := by
      intro hd u hu
      cases exec_delays hd he with
      | linux op ha' hsv =>
        subst ha'
        cases op with
        | resume t =>
          obtain ⟨hpc, hb⟩ := Serves.told hsv hs rfl hu
          exact ⟨congrFun hpc u, hb⟩
        | _ => exact ha.elim
      | call c op k₁ ha' hc hsv hk =>
        subst ha' hk
        cases op with
        | resume t =>
          obtain ⟨hpc, hb⟩ := Serves.told hsv hs rfl hu
          have huc : u ≠ c := by
            rintro rfl
            exact hidle (quiet_of_mayCall hc) hu
          exact ⟨(Function.update_of_ne huc ..).trans (congrFun hpc u), hb⟩
        | _ => exact ha.elim
      | blocks c op b p ha' hc _ _ hk =>
        have huc : u ≠ c := by
          rintro rfl
          exact hidle (quiet_of_mayCall hc) hu
        have ht := Tells.still hk
        refine ⟨(congrFun ht.pc u).trans (Function.update_of_ne huc ..), ?_⟩
        intro hb'
        exact ht.told u ((Function.update_of_ne huc ..).trans hb')
      | ends c ha' _ hp hk =>
        have huc : u ≠ c := by
          rintro rfl
          exact hidle (quiet_of_delayed hp) hu
        rw [hk]
        exact ⟨Function.update_of_ne huc .., fun h => h⟩
      | dispatch t _ _ hk =>
        rw [hk]
        exact ⟨rfl, fun h => h⟩
      | starts t _ _ hp hk =>
        have hut : u ≠ t := by
          rintro rfl
          exact hidle (hp ▸ ⟨rfl, rfl, rfl⟩) hu
        have ht := Tells.still hk
        exact ⟨(congrFun ht.pc u).trans (Function.update_of_ne hut ..), ht.told u⟩
      | still hk =>
        exact ⟨congrFun (Tells.still hk).pc u, (Tells.still hk).told u⟩
    cases a with
    | call c op =>
      cases op with
      | resume t => exact hkeep (subset_refl _) (hdelays rfl)
      | _ => exact ha.elim
    | linux op =>
      cases op with
      | resume t => exact hkeep (subset_refl _) (hdelays rfl)
      | _ => exact ha.elim
    | cont c =>
      rcases ha with hw | hd
      · -- the task itself is not pending any more
        obtain ⟨-, r, hr, hf⟩ := exec_cont he
        obtain ⟨⟨v, hv⟩, hpc, hb⟩ := contOp_others hw hr
        obtain ⟨k₁, w⟩ := r
        dsimp only at hv hpc hb
        subst hv
        cases hf
        refine hkeep hcont fun u hu => ?_
        have huc : u ≠ c := by
          rintro rfl
          exact absurd rfl (Finset.mem_erase.mp hu).1
        refine ⟨(Function.update_of_ne huc ..).trans (congrFun hpc u), ?_⟩
        exact fun h => (hb u huc).trans h
      · exact hkeep hcont fun u hu => hdelays hd u (hcont hu)
    | _ => exact hkeep (subset_refl _) (hdelays rfl)

end Step

/-- **THE DELETION OF A SEMAPHORE IS REPORTED TO EVERY WAITER** when it finds
    each of them waiting for the semaphore and for nothing else, and no resume
    makes one of them ready before it has returned. -/
theorem deletion_reported (k k₁ : Kernel T S) (c : Option T) (s : S)
    (ws : List T) (hring : Chain k.queue (.head (.sem s)) ws (.head (.sem s)))
    (hdel : rtSemDelete k c s = some (k₁, some (.val 0)))
    (honly : ∀ u ∈ ws, waitsOn (k.pc u) = some s → OnlyWaits k u)
    (x : Bereft T S)
    (h : Reach later (fun x a => LaterAction x a ∧ SparesPending x a)
      (bereft k₁ s ws) x) : Reported x := by
  obtain ⟨hpc, hall⟩ := rtSemDelete_tells hring hdel
  refine reported_of_told (h.invariant (I := Told) ?_ ?_)
  -- the waiters are told, one by one, before the deletion returns
  · intro u hu
    obtain ⟨hmem, hw⟩ := Finset.mem_filter.mp hu
    have hw' : waitsOn (k₁.pc u) = some s := hw
    have hne : waitsOn (k₁.pc u) ≠ none := by
      rw [hw']
      nofun
    refine ⟨hne, hall u (List.mem_toFinset.mp hmem) ?_⟩
    exact honly u (List.mem_toFinset.mp hmem) (hpc ▸ hw')
  · intro x a x' o h ⟨ha, hs⟩ hx
    exact h.step ha hs hx

instance (x : Bereft T S) (a : Action T S) : Decidable (LaterAction x a) := by
  induction a using RtaiSteps.Action.casesOn with
  | call c op =>
    induction op using Op.casesOn <;> unfold LaterAction <;> infer_instance
  | linux op =>
    induction op using Op.casesOn <;> unfold LaterAction <;> infer_instance
  | _ => unfold LaterAction; infer_instance

instance (x : Bereft T S) (t : T) : Decidable (SparesPending.spares x t) := by
  unfold SparesPending.spares
  infer_instance

instance (x : Bereft T S) (a : Action T S) : Decidable (SparesPending x a) := by
  induction a using RtaiSteps.Action.casesOn with
  | call c op =>
    induction op using Op.casesOn <;> unfold SparesPending <;> infer_instance
  | linux op =>
    induction op using Op.casesOn <;> unfold SparesPending <;> infer_instance
  | _ => unfold SparesPending; infer_instance

/-- Two hard tasks and a counting semaphore that nobody has signalled. -/
def twoWaiters : Config (Fin 2) (Fin 1) where
  hard := fun _ => true
  priority := fun t => t
  receiver := fun _ => none
  schedlat := fun _ => 0
  linuxSchedlat := 0
  sems := fun _ => { kind := .cntSem, value := 0, fifo := true }
  time := 0

/-- One task waits with a timeout, the other without. -/
def waitingRun : List (RtaiSteps.Action (Fin 2) (Fin 1)) :=
  [.linux (.resume 0), .dispatch 0, .call 0 (.semWait 0),
    .linux (.resume 1), .dispatch 1, .call 1 (.semWaitUntil 0 100)]

theorem deletion_reported_waiting : ∃ x : Bereft (Fin 2) (Fin 1), x.pending = {0, 1} ∧
      executes x.kernel 0 = true ∧ Reported x := by
  obtain ⟨k, hk, k₁, hdel, x, hplay, hring, hp, hex, h0, h1⟩ :
      ∃ k, play exec (fun _ _ => True) (boot twoWaiters) waitingRun = some k ∧
        ∃ k₁, rtSemDelete k none 0 = some (k₁, some (.val 0)) ∧
        ∃ x, play later (fun x a => LaterAction x a ∧ SparesPending x a)
          (bereft k₁ 0 [0, 1]) [.dispatch 0] = some x ∧
        Chain k.queue (.head (.sem 0)) [0, 1] (.head (.sem 0)) ∧
        x.pending = {0, 1} ∧ executes x.kernel 0 = true ∧
        k.state 0 = {.ready, .semaphore} ∧
        k.state 1 = {.ready, .semaphore, .delayed} :=
    ⟨_, rfl, _, rfl, _, rfl, ⟨rfl, rfl, rfl, rfl, rfl, rfl⟩, by decide,
      rfl, by decide, by decide⟩
  refine ⟨x, hp, hex, deletion_reported k k₁ none 0 [0, 1] hring hdel ?_ x
    (reach_of_play hplay)⟩
  intro u hu _
  rcases List.mem_pair.mp hu with rfl | rfl
  · exact ⟨by rw [h0]; decide, by rw [h0]; decide⟩
  · exact ⟨by rw [h1]; decide, by rw [h1]; decide⟩

/-- A waiter that is suspended when the semaphore is deleted, and then
    resumed. -/
def suspendedWaiterRun : List (RtaiSteps.Action (Fin 2) (Fin 1)) :=
  [.linux (.resume 0), .dispatch 0, .call 0 (.semWait 0), .linux (.suspend 0)]

/-- **A SUSPENDED WAITER IS NOT TOLD** and believes that it has got the deleted
    semaphore. -/
theorem suspended_waiter_succeeds :
    ∃ (k k₁ : Kernel (Fin 2) (Fin 1)) (x : Bereft (Fin 2) (Fin 1)),
      Reach exec (fun _ _ => True) (boot twoWaiters) k ∧
      Chain k.queue (.head (.sem 0)) [0] (.head (.sem 0)) ∧
      rtSemDelete k none 0 = some (k₁, some (.val 0)) ∧
      Reach later LaterAction (bereft k₁ 0 [0]) x ∧ ¬ Reported x := by
  obtain ⟨k, hk, k₁, hdel, x, hplay, hring, hp, hex, k₂, hret⟩ :
      ∃ k, play exec (fun _ _ => True) (boot twoWaiters) suspendedWaiterRun =
        some k ∧ ∃ k₁, rtSemDelete k none 0 = some (k₁, some (.val 0)) ∧
        ∃ x, play later LaterAction (bereft k₁ 0 [0])
          [.linux (.resume 0), .dispatch 0] = some x ∧
        Chain k.queue (.head (.sem 0)) [0] (.head (.sem 0)) ∧
        x.pending = {0} ∧ executes x.kernel 0 = true ∧
        ∃ k₂, exec x.kernel (.cont 0) = some (k₂, some (.val (-1))) :=
    ⟨_, rfl, _, rfl, _, rfl, ⟨rfl, rfl, rfl, rfl⟩, rfl, rfl, _, rfl⟩
  refine ⟨k, k₁, x, reach_of_play hk, hring, hdel, reach_of_play hplay, ?_⟩
  intro h
  obtain ⟨k₃, v, hret₃, hv, -⟩ := h 0 (hp ▸ Finset.mem_singleton_self 0) hex
  rw [hret] at hret₃
  cases hret₃
  rcases hv with hv | hv | hv <;> exact nomatch hv

end RtaiSemDelete
