import Rtai.Barriers
import Rtai.EdfOrder

/-! # Barriers release complete gangs

    A call on a barrier walks over the ready list and the wait queue.  In a
    system of hard tasks it comes back, since both are rings that end at their
    heads. -/

namespace RtaiGangs

open RtaiRings RtaiRuns RtaiKernel RtaiSchedCore RtaiPrioInher RtaiTaskApi
  RtaiSched RtaiSem RtaiSteps RtaiControl RtaiBroadcast RtaiNoToken
  RtaiReadyList RtaiEdfOrder RtaiBarriers

variable {T S : Type} [decT : DecidableEq T] [decS : DecidableEq S] [finT : Fintype T]
  [finS : Fintype S]

/-! ## Hard tasks -/

/-- What holds of hard tasks that are suspended and resumed, and wait at
    barriers: the ready list is in order, no task waits for a time, and a task
    with a suspension to be resumed is suspended. -/
structure HardInv (k : Kernel T S) : Prop where
  edf : EdfInv k
  policy : ∀ t, 0 ≤ k.policy t
  depth : ∀ t, 0 < k.suspdepth t → .suspended ∈ k.state t
  timeless : ∀ t, .delayed ∉ k.state t
  unowned : ∀ t, taskOwnsSems k t = false

section Services

variable {k k' : Kernel T S} {c t u : T} {s : S} {r : Outcome T S} {o : Option T}

omit finT finS in
/-- A task of fixed priority may be linked by priority. -/
theorem HardInv.fits (H : HardInv k) (t : T) (mask : TaskState) :
    FitsReady k t mask := by
  intro _ _ hneg
  have := H.policy t
  omega

omit finT finS in
/-- The ready list and the suspensions are all that differs. -/
theorem HardInv.same (H : HardInv k) (E : EdfInv k')
    (hpolicy : k'.policy = k.policy) (hresq : k'.resq = k.resq)
    (h : ∀ t, (0 < k'.suspdepth t → .suspended ∈ k'.state t) ∧
      .delayed ∉ k'.state t) : HardInv k' := by
  refine ⟨E, ?_, fun t => (h t).1, fun t => (h t).2, ?_⟩
  · rw [hpolicy]
    exact H.policy
  · intro t
    unfold taskOwnsSems
    rw [hresq]
    exact H.unowned t

omit finT finS in
/-- One task gets another state and another depth. -/
theorem HardInv.task (H : HardInv k) {d : Int} {w : TaskState}
    (hd : 0 < d → .suspended ∈ w) (hw : .delayed ∉ w) (u : T) :
    (0 < Function.update k.suspdepth t d u → .suspended ∈ Function.update k.state t w u) ∧
      .delayed ∉ Function.update k.state t w u := by
  by_cases hu : u = t
  · subst hu
    rw [Function.update_self, Function.update_self]
    exact ⟨hd, hw⟩
  · rw [Function.update_of_ne hu, Function.update_of_ne hu]
    exact ⟨H.depth u, H.timeless u⟩

omit decS finT finS in
theorem remReadyTask_fields (k : Kernel T S) (t : T) :
    ∃ ready, remReadyTask k t = { k with ready := ready } := by
  unfold remReadyTask
  split
  · exact ⟨_, rfl⟩
  · exact ⟨k.ready, rfl⟩

omit finT finS in
/-- Nobody is in the timed list. -/
theorem HardInv.remTimedTask (H : HardInv k) (t : T) : RtaiSchedCore.remTimedTask k t = k := by
  unfold RtaiSchedCore.remTimedTask
  exact if_neg (H.timeless t)

/-- **`rt_task_suspend`** -/
theorem rtTaskSuspend_hard (H : HardInv k) (ho : ∀ c, o = some c → k.state c = {.ready})
    (h : rtTaskSuspend k o t = some r) : HardInv r.1 := by
  have E := rtTaskSuspend_inv H.edf ho (fun _ _ => H.timeless t) h
  have hsusp : .delayed ∉ k.state t ∪ {.suspended} := by
    rw [Finset.mem_union, not_or]
    exact ⟨H.timeless t, by decide⟩
  have hin : .suspended ∈ k.state t ∪ {.suspended} :=
    Finset.mem_union_right _ (Finset.mem_singleton_self _)
  unfold rtTaskSuspend at h
  split at h
  · cases h
    exact H
  · split at h
    · split at h
      · have hhard := H.edf.hard t
        simp only [remReadyCurrent, hhard, if_true] at h
        cases h
        exact H.same E rfl rfl (H.task (fun _ => hin) hsusp)
      · have H₁ : ∀ ready : Links (Node T Unit), RtaiSchedCore.remTimedTask
            { k with
              suspdepth := Function.update k.suspdepth t 1
              ready := ready } t =
            { k with
              suspdepth := Function.update k.suspdepth t 1
              ready := ready } := fun ready => if_neg (H.timeless t)
        obtain ⟨ready, hready⟩ := remReadyTask_fields { k with
          suspdepth := Function.update k.suspdepth t 1 } t
        simp only [hready, H₁] at h
        cases h
        exact H.same E rfl rfl (H.task (fun _ => hin) hsusp)
    · next hcond =>
        cases h
        refine H.same E rfl rfl fun u => ?_
        have hself : Function.update k.state t (k.state t) = k.state :=
          Function.update_eq_self t k.state
        have htask := H.task (t := t) (d := incr (k.suspdepth t))
          (w := k.state t) (fun hd => ?_) (H.timeless t) u
        · rw [hself] at htask
          exact htask
        · have hne : k.suspdepth t ≠ 0 := by
            intro hz
            refine hcond ?_
            rw [H.unowned t, hz]
            rfl
          unfold incr at hd
          split at hd
          · omega
          · exact H.depth t (by omega)

/-- **A task loses bits of its state**, and is made ready if none is left. -/
theorem HardInv.clears (H : HardInv k) (hne : k.state t ≠ {.ready})
    {mask : TaskState} {d : Int}
    (hd : 0 < d → .suspended ∈ k.state t \ mask) {k₁ : Kernel T S}
    (hk₁ : Aside { k with
      state := Function.update k.state t (k.state t \ mask) } k₁)
    (hdepth : k₁.suspdepth = Function.update k.suspdepth t d)
    (hresq : k₁.resq = k.resq) :
    (k.state t \ mask ≠ {.ready} → HardInv k₁) ∧
      (k.state t \ mask = {.ready} → ∀ k', enqReadyTask k₁ t = some k' → HardInv k') := by
  obtain ⟨l, E⟩ := H.edf.edf
  have hst : k₁.state = Function.update k.state t (k.state t \ mask) := hk₁.state
  have hout : .delayed ∉ k.state t \ mask := fun hf =>
    H.timeless t (Finset.mem_sdiff.mp hf).1
  have hfields : ∀ u, (0 < k₁.suspdepth u → .suspended ∈ k₁.state u) ∧
      .delayed ∉ k₁.state u := by
    intro u
    rw [hdepth, hst]
    exact H.task hd hout u
  have htimed : TimedList k₁ := by
    have hT : TimedList { k with
        state := Function.update k.state t (k.state t \ mask) } :=
      H.edf.timed.setState (iff_of_false hout (H.timeless t))
    unfold TimedList
    rw [hk₁.timed, hk₁.state]
    exact hT
  have hrun : ∀ t, 0 ≤ k₁.running t := by
    rw [hk₁.running]
    exact H.edf.running
  have hpol : k₁.policy = k.policy := hk₁.policy
  constructor
  · intro hnot
    exact H.same ⟨⟨l, (E.setState hne hnot).same hk₁.toSameEdf⟩, htimed, hrun⟩
      hpol hresq hfields
  · intro hready k' hk'
    have hsame : SameEdf { k with state := Function.update k.state t {.ready} }
        k₁ := by
      have h := hk₁.toSameEdf
      refine ⟨h.ready, ?_, h.priority, h.isHard, h.policy, h.period, h.base⟩
      rw [← hready]
      exact h.state
    obtain ⟨ready, l', rfl, E'⟩ := E.enq hne (H.fits t mask hne hready) hsame hk'
    exact H.same ⟨⟨l', E'⟩, htimed, hrun⟩ hpol hresq hfields

/-- **`rt_task_resume`** -/
theorem rtTaskResume_hard (H : HardInv k) (hroom : -2 ^ 31 < k.suspdepth t)
    (h : rtTaskResume k t = some r) : HardInv r.1 := by
  have hdecr : decr (k.suspdepth t) = k.suspdepth t - 1 := decr_of_gt hroom
  unfold rtTaskResume at h
  split at h
  · cases h
    exact H
  · have hrem : RtaiSchedCore.remTimedTask { k with
        suspdepth := Function.update k.suspdepth t (decr (k.suspdepth t)) } t =
        { k with
          suspdepth := Function.update k.suspdepth t (decr (k.suspdepth t)) } :=
      if_neg (H.timeless t)
    dsimp only at h
    split at h
    · next hz =>
        rw [Function.update_self] at hz
        have hne : k.state t ≠ {.ready} := by
          intro heq
          have hin := H.depth t (by omega)
          rw [heq] at hin
          exact absurd hin (by decide)
        have hd : 0 < decr (k.suspdepth t) →
            .suspended ∈ k.state t \ {.suspended, .delayed} := fun hd =>
          absurd hd (by omega)
        rw [hrem] at h
        dsimp only at h
        split at h
        · next hready =>
            rw [Function.update_self] at hready
            obtain ⟨k₂, hk₂, h⟩ := Option.bind_eq_some_iff.mp h
            cases h
            refine (H.clears hne hd ?_ ?_ ?_).2 hready k₂ hk₂
            · exact ⟨⟨rfl, rfl, rfl, rfl, rfl, rfl, rfl⟩, rfl, rfl⟩
            · rfl
            · rfl
        · next hnot =>
            rw [Function.update_self] at hnot
            cases h
            refine (H.clears hne hd ?_ ?_ ?_).1 hnot
            · exact ⟨⟨rfl, rfl, rfl, rfl, rfl, rfl, rfl⟩, rfl, rfl⟩
            · rfl
            · rfl
    · cases h
      refine H.same (H.edf.aside
        ⟨⟨rfl, rfl, rfl, rfl, rfl, rfl, rfl⟩, rfl, rfl⟩) rfl rfl fun u => ?_
      have htask := H.task (t := t) (d := decr (k.suspdepth t))
        (w := k.state t) (fun hd => H.depth t (by omega)) (H.timeless t) u
      rw [Function.update_eq_self] at htask
      exact htask

/-- **`rt_task_masked_unblock`** -/
theorem rtTaskMaskedUnblock_hard {mask : TaskState} (H : HardInv k)
    (h : rtTaskMaskedUnblock k t mask = some r) : HardInv r.1 := by
  unfold rtTaskMaskedUnblock at h
  split at h
  · cases h
    exact H
  · split at h
    · next hst =>
        rw [H.remTimedTask t, ite_self] at h
        dsimp only at h
        -- the depth that is left
        generalize hk₀ : (if .suspended ∈ mask ∧ .suspended ∈ k.state t ∧
            k.suspdepth t > 0 then
              { k with suspdepth := Function.update k.suspdepth t 0 }
            else k) = k₀ at h
        have hd : ∃ d, k₀ = { k with
            suspdepth := Function.update k.suspdepth t d } ∧
            (0 < d → .suspended ∈ k.state t \ mask) := by
          rw [← hk₀]
          split
          · exact ⟨0, rfl, fun h => absurd h (lt_irrefl 0)⟩
          · next hno =>
              refine ⟨k.suspdepth t, by rw [Function.update_eq_self], ?_⟩
              intro hpos
              have hin := H.depth t hpos
              exact Finset.mem_sdiff.mpr ⟨hin, fun hm => hno ⟨hm, hin, hpos⟩⟩
        obtain ⟨d, rfl, hd⟩ := hd
        dsimp only at h
        split at h
        · next hready =>
            rw [Function.update_self] at hready
            obtain ⟨k₂, hk₂, h⟩ := Option.bind_eq_some_iff.mp h
            cases h
            refine (H.clears hst.2 hd ?_ ?_ ?_).2 hready k₂ hk₂
            · exact ⟨⟨rfl, rfl, rfl, rfl, rfl, rfl, rfl⟩, rfl, rfl⟩
            · rfl
            · rfl
        · next hnot =>
            rw [Function.update_self] at hnot
            cases h
            refine (H.clears hst.2 hd ?_ ?_ ?_).1 hnot
            · exact ⟨⟨rfl, rfl, rfl, rfl, rfl, rfl, rfl⟩, rfl, rfl⟩
            · rfl
            · rfl
    · cases h
      exact H

/-! ## Waiting and waking up -/

theorem enqueueBlocked_fields {h : Head T S} {q : Int}
    (he : enqueueBlocked k t h q = some k') :
    ∃ blocked queue, k' = { k with blockedOn := blocked, queue := queue } := by
  simp only [enqueueBlocked] at he
  split at he
  · obtain ⟨pos, -, he⟩ := Option.bind_eq_some_iff.mp he
    cases he
    exact ⟨_, _, rfl⟩
  · cases he
    exact ⟨_, _, rfl⟩

/-- **The walk along a wait queue ends.** -/
theorem enqueueBlocked_returns {L : Head T S → List T} (R : Rings k.queue L)
    (t : T) (h : Head T S) (q : Int) :
    ∃ k', enqueueBlocked k t h q = some k' := by
  simp only [enqueueBlocked]
  split
  · have hwalk : ∃ pos, queuePos { k with
        blockedOn := Function.update k.blockedOn t (.queue h) } h
          (k.priority t) = some pos := by
      unfold queuePos
      dsimp only
      rw [R.next_head h]
      have h0 : L h = [] ++ L h := rfl
      refine R.walk_ends (if_pos rfl) (fun a hnone => ?_) h0 ?_
      · have helem : queueStop { k with
            blockedOn := Function.update k.blockedOn t (.queue h) } h
            (k.priority t) (.elem a) = some (!(k.priority a ≤ k.priority t)) :=
          if_neg (elem_ne_head a h)
        exact nomatch helem.symm.trans hnone
      · have hle := (R.nodup h).length_le_card
        unfold queueFuel
        omega
    obtain ⟨pos, hpos⟩ := hwalk
    rw [hpos]
    exact ⟨_, rfl⟩
  · exact ⟨_, rfl⟩

/-- **`rt_sem_wait`** on a semaphore that counts its waiters -/
theorem rtSemWait_hard {L : Head T S → List T} (H : HardInv k)
    (N : NoToken k L s) (R : Rings k.queue L) (hm : k.semMagic s = true)
    (hc : k.state c = {.ready}) :
    ∃ r, rtSemWait k c s = some r ∧ HardInv r.1 := by
  have hcount := N.count
  have hle : k.count s ≤ 0 := by omega
  have htype : ¬ k.type s > 0 := by
    rw [N.type]
    exact lt_irrefl 0
  have hhard := H.edf.hard c
  have hpass : passToOwner k c s = some k := if_neg htype
  have hret : ∃ r, rtSemWait k c s = some r := by
    unfold rtSemWait
    rw [hm, if_neg (by decide), if_pos hle, if_neg htype]
    dsimp only
    rw [if_neg fun h => htype h.1, hpass]
    simp only [remReadyCurrent, hhard, if_true, Option.bind_eq_bind, Option.bind_some]
    obtain ⟨k₂, hk₂⟩ := enqueueBlocked_returns (k := { k with
      ready := k.ready.unlink (.elem c)
      count := Function.update k.count s (k.count s - 1)
      state := Function.update k.state c (k.state c ∪ {.semaphore}) }) R c
      (.sem s) (k.qtype s)
    rw [hk₂]
    exact ⟨_, rfl⟩
  obtain ⟨r, h⟩ := hret
  refine ⟨r, h, ?_⟩
  have E := rtSemWait_inv H.edf hc h
  unfold rtSemWait at h
  rw [hm, if_neg (by decide), if_pos hle, if_neg htype] at h
  dsimp only at h
  rw [if_neg fun h => htype h.1, hpass] at h
  simp only [remReadyCurrent, hhard, if_true, Option.bind_eq_bind, Option.bind_some] at h
  obtain ⟨k₂, hk₂, h⟩ := Option.bind_eq_some_iff.mp h
  cases h
  obtain ⟨blocked, queue, rfl⟩ := enqueueBlocked_fields hk₂
  refine H.same E rfl rfl fun u => ?_
  have hsem : .delayed ∉ k.state c ∪ {.semaphore} := by
    rw [Finset.mem_union, not_or]
    exact ⟨H.timeless c, by decide⟩
  have hin : 0 < k.suspdepth c → .suspended ∈ k.state c ∪ {.semaphore} :=
    fun hd => Finset.mem_union_left _ (H.depth c hd)
  have htask := H.task (t := c) (d := k.suspdepth c) hin hsem u
  rw [Function.update_eq_self] at htask
  exact htask

/-- **A waiter is woken up.** -/
theorem wakeWaiter_hard (H : HardInv k) (u : T) :
    ∃ k' ready, wakeWaiter k u = some (k', ready) ∧ HardInv k' ∧
      k'.queue = k.queue.unlink (.elem u) := by
  have hrem : RtaiSchedCore.remTimedTask (dequeueBlocked k u) u =
      dequeueBlocked k u := if_neg (H.timeless u)
  unfold wakeWaiter
  rw [hrem]
  dsimp only
  split
  · exact ⟨_, _, rfl, H.same (H.edf.aside
      ⟨⟨rfl, rfl, rfl, rfl, rfl, rfl, rfl⟩, rfl, rfl⟩) rfl rfl
      fun t => ⟨H.depth t, H.timeless t⟩, rfl⟩
  · next hne =>
      have hne' : k.state u ≠ {.ready} := hne
      have hd : 0 < k.suspdepth u →
          .suspended ∈ k.state u \ {.semaphore, .delayed} := fun hd =>
        Finset.mem_sdiff.mpr ⟨H.depth u hd, by decide⟩
      have haside : Aside { k with
          state := Function.update k.state u (k.state u \ {.semaphore, .delayed}) }
          { dequeueBlocked k u with
            state := Function.update k.state u (k.state u \ {.semaphore, .delayed}) } :=
        ⟨⟨rfl, rfl, rfl, rfl, rfl, rfl, rfl⟩, rfl, rfl⟩
      have hclears := H.clears hne' hd haside (Function.update_eq_self u k.suspdepth).symm rfl
      have hself : Function.update k.state u (k.state u \ {.semaphore, .delayed}) u =
            k.state u \ {.semaphore, .delayed} := Function.update_self ..
      split
      · next hready =>
          have hready' : k.state u \ {.semaphore, .delayed} = {.ready} :=
            hself.symm.trans hready
          obtain ⟨l, E⟩ := H.edf.edf
          obtain ⟨k₂, hk₂⟩ := enqReadyTask_returns (k := {
            dequeueBlocked k u with
              state := Function.update k.state u
                (k.state u \ {.semaphore, .delayed}) }) E.order.ring
            E.order.nodup.length_le_card rfl u (E.order.legal u).2
          refine ⟨k₂, true, ?_, hclears.2 hready' k₂ hk₂, ?_⟩
          · have hk₂' : enqReadyTask { dequeueBlocked k u with
                state := Function.update (dequeueBlocked k u).state u
                  ((dequeueBlocked k u).state u \ {.semaphore, .delayed}) } u =
                some k₂ := hk₂
            rw [hk₂']
            rfl
          · unfold enqReadyTask at hk₂
            split at hk₂
            · obtain ⟨pos, -, hk₂⟩ := Option.bind_eq_some_iff.mp hk₂
              cases hk₂
              rfl
            · cases hk₂
              rfl
      · next hnot =>
          exact ⟨_, false, rfl, hclears.1 fun heq => hnot (hself.trans heq),
            rfl⟩

/-- **The loop of a broadcast ends.** -/
theorem broadcastLoop_hard {fuel : Nat} :
    ∀ {k : Kernel T S} {L : Head T S → List T}, HardInv k → Rings k.queue L →
      (L (.sem s)).length < fuel →
      ∃ k', broadcastLoop s fuel k = some k' ∧ HardInv k' := by
  induction fuel with
  | zero => intro k L _ _ hlt; exact absurd hlt (Nat.not_lt_zero _)
  | succ fuel ih =>
    intro k L H R hlt
    unfold broadcastLoop
    rw [R.next_head]
    cases hl : L (.sem s) with
    | nil =>
      rw [firstOf_nil, if_pos rfl]
      exact ⟨k, rfl, H⟩
    | cons u l =>
      rw [firstOf_cons, if_neg (elem_ne_head u _)]
      dsimp only [queueTask]
      obtain ⟨k₁, ready, hw, H₁, hq⟩ := wakeWaiter_hard H u
      have hl' : L (.sem s) = [] ++ u :: l := hl
      have R₁ := R.unlink hl'
      have hshort : (Function.update L (.sem s) ([] ++ l) (.sem s)).length < fuel := by
        rw [Function.update_self, List.nil_append]
        rw [hl, List.length_cons] at hlt
        omega
      obtain ⟨k₂, hk₂, H₂⟩ := ih H₁ (hq ▸ R₁) hshort
      refine ⟨k₂, ?_, H₂⟩
      rw [hw]
      exact hk₂

/-- **`rt_sem_broadcast`** -/
theorem rtSemBroadcast_hard {L : Head T S → List T} (H : HardInv k)
    (R : Rings k.queue L) (hm : k.semMagic s = true) :
    ∃ r, rtSemBroadcast k s = some r ∧ HardInv r.1 := by
  have hfuel : (L (.sem s)).length < queueFuel T S := by
    have hle := (R.nodup (.sem s)).length_le_card
    unfold queueFuel
    omega
  obtain ⟨k₁, hk₁, H₁⟩ := broadcastLoop_hard H R hfuel
  unfold rtSemBroadcast
  rw [hm, if_neg (by decide), hk₁]
  refine ⟨_, rfl, H₁.same (H₁.edf.aside
    ⟨⟨rfl, rfl, rfl, rfl, rfl, rfl, rfl⟩, rfl, rfl⟩) rfl rfl fun t =>
    ⟨H₁.depth t, H₁.timeless t⟩⟩

theorem HardInv.finished {v : Option (Ret T)} (H : HardInv r.1)
    (h : finish c r = (k', v)) : HardInv k' := by
  obtain ⟨k, w⟩ := r
  cases w with
  | none =>
    cases h
    exact H
  | some w =>
    cases h
    exact H.same (H.edf.aside ⟨⟨rfl, rfl, rfl, rfl, rfl, rfl, rfl⟩, rfl, rfl⟩)
      rfl rfl fun t => ⟨H.depth t, H.timeless t⟩

/-- **A wait after its sleep**, on a semaphore without an owner -/
theorem rtSemWaitTail_hard (H : HardInv k) (ht : k.type s = 0) (hown : k.owndby s = none)
    (h : rtSemWaitTail k c s = some r ∨ rtSemWaitUntilTail k c s = some r) :
    HardInv r.1 := by
  have hno : takeOwnership k c s = k := by
    unfold takeOwnership
    rw [if_neg]
    rw [ht]
    exact lt_irrefl 0
  have hsame : ∀ v, done k v = some r → HardInv r.1 := by
    intro v hv
    cases hv
    exact H
  have hfailed : ∀ v, (do done (← semWaitFailed k c s) v) = some r → HardInv r.1 := by
    intro v hv
    obtain ⟨k₁, hk₁, hv⟩ := Option.bind_eq_some_iff.mp hv
    cases hv
    have hown' : (dequeueBlocked k c).owndby s = none := hown
    simp only [semWaitFailed] at hk₁
    rw [hown'] at hk₁
    cases hk₁
    exact H.same (H.edf.aside ⟨⟨rfl, rfl, rfl, rfl, rfl, rfl, rfl⟩, rfl, rfl⟩)
      rfl rfl fun t => ⟨H.depth t, H.timeless t⟩
  rcases h with h | h
  · unfold rtSemWaitTail at h
    rw [hno] at h
    split at h
    · exact hsame _ h
    · exact hsame _ h
    · exact hfailed _ h
  · unfold rtSemWaitUntilTail at h
    rw [hno] at h
    split at h
    · exact hsame _ h
    · exact hsame _ h
    · exact hfailed _ h

/-- **The timer** wakes up nobody. -/
theorem timer_hard {now : Int} (H : HardInv k) (h : timer k now = some k') :
    HardInv k' := by
  have H₁ : HardInv { k with timeH := now } :=
    H.same (H.edf.aside ⟨⟨rfl, rfl, rfl, rfl, rfl, rfl, rfl⟩, rfl, rfl⟩) rfl rfl
      fun t => ⟨H.depth t, H.timeless t⟩
  obtain ⟨l, R, hm⟩ := H.edf.timed
  have hl : l = [] := by
    refine List.eq_nil_iff_forall_not_mem.mpr fun t ht => ?_
    exact H.timeless t ((hm t).mp ht)
  have hnext := R.next_head ()
  rw [hl] at hnext
  unfold timer at h
  split at h
  · unfold wakeUpTimedTasks at h
    dsimp only at h
    split at h
    · obtain ⟨⟨k₁, n⟩, hloop, -⟩ := Option.bind_eq_some_iff.mp h
      rw [hnext] at hloop
      exact nomatch hloop
    · cases h
      exact H₁
  · exact nomatch h

end Services

/-! ## Runs -/

section Runs

variable {n : S → Int} {x x' : Gang T S} {L : Head T S → List T} {c : T}
  {s : S} {o : Option (Ret T)}

/-- A resume finds `suspdepth` above the lowest `int`. -/
def DepthsInRange (x : Gang T S) : BarrierAction T S → Prop
  | .kernel (.call _ (.resume t)) => -2 ^ 31 < x.barriers.kernel.suspdepth t
  | .kernel (.linux (.resume t)) => -2 ^ 31 < x.barriers.kernel.suspdepth t
  | _ => True

/-- **EVERY OTHER SECTION** of hard tasks -/
theorem kernel_hard {a : Action T S} {k : Kernel T S} (I : GangInv n x L)
    (H : HardInv x.barriers.kernel) (ha : GangAction x (.kernel a))
    (hroom : DepthsInRange x (.kernel a))
    (he : exec x.barriers.kernel a = some (k, o)) : HardInv k := by
  have hsoft : ∀ t, ¬ (!x.barriers.kernel.isHard t) = true := by
    intro t
    rw [H.edf.hard t]
    decide
  cases a with
  | call c op =>
    obtain ⟨hmay, r, hr, hfin⟩ := exec_call he
    have hc := H.edf.ready_of_mayCall hmay
    refine HardInv.finished ?_ hfin
    cases op with
    | suspend t =>
      refine rtTaskSuspend_hard H ?_ hr
      rintro d ⟨⟩
      exact hc
    | resume t => exact rtTaskResume_hard H hroom hr
    | unblock t mask => exact rtTaskMaskedUnblock_hard H hr
    | _ => exact ha.elim
  | linux op =>
    cases op with
    | suspend t => exact rtTaskSuspend_hard (o := none) H (by rintro _ ⟨⟩) he
    | resume t => exact rtTaskResume_hard H hroom he
    | unblock t mask => exact rtTaskMaskedUnblock_hard H he
    | _ => exact ha.elim
  | cont c =>
    obtain ⟨-, r, hr, hfin⟩ := exec_cont he
    refine HardInv.finished ?_ hfin
    have hsame : ∀ v, done x.barriers.kernel v = some r → HardInv r.1 := by
      intro v hv
      cases hv
      exact H
    have hwait : ∀ s, waitsOn (x.barriers.kernel.pc c) = some s →
        x.barriers.kernel.type s = 0 ∧ x.barriers.kernel.owndby s = none :=
      fun s hs => ⟨(I.used s (I.waited c s hs)).2.1.type, I.owner s⟩
    have hplace := I.places c
    unfold contOp at hr
    cases hp : x.barriers.kernel.pc c with
    | suspend =>
      simp only [hp, rtTaskSuspendTail] at hr
      split at hr
      · exact hsame _ hr
      · exact hsame _ hr
    | suspendUntil =>
      simp only [hp, rtTaskSuspendUntilTail] at hr
      split at hr
      · exact hsame _ hr
      · split at hr
        · exact hsame _ hr
        · exact hsame _ hr
    | sleep =>
      simp only [hp, delayTail] at hr
      split at hr
      · exact hsame _ hr
      · exact hsame _ hr
    | semWait s =>
      obtain ⟨ht, hown⟩ := hwait s (by rw [hp]; rfl)
      rw [hp] at hr
      exact rtSemWaitTail_hard H ht hown (Or.inl hr)
    | semWaitUntil s =>
      obtain ⟨ht, hown⟩ := hwait s (by rw [hp]; rfl)
      rw [hp] at hr
      exact rtSemWaitTail_hard H ht hown (Or.inr hr)
    | idle =>
      rw [hp] at hr
      cases hr
    | start =>
      rw [hp] at hr
      cases hr
    | _ =>
      -- no place in a call of these runs
      rw [hp] at hplace
      rcases hplace with h | h | h | ⟨_, h⟩ <;> cases h
  | wake now =>
    obtain ⟨k₁, hk₁, heq⟩ := Option.map_eq_some_iff.mp he
    cases heq
    exact timer_hard H hk₁
  | dispatch t =>
    obtain ⟨k₁, hk₁, heq⟩ := Option.map_eq_some_iff.mp he
    cases heq
    unfold RtaiSched.dispatch at hk₁
    split at hk₁
    · cases hk₁
      refine H.same ⟨H.edf.edf.imp fun l E => E.same
        ⟨rfl, rfl, rfl, rfl, rfl, rfl, rfl⟩, H.edf.timed, fun u => ?_⟩ rfl rfl
        fun t => ⟨H.depth t, H.timeless t⟩
      show 0 ≤ Function.update x.barriers.kernel.running t 1 u
      by_cases hu : u = t
      · subst hu
        rw [Function.update_self]
        decide
      · rw [Function.update_of_ne hu]
        exact H.edf.running u
    · cases hk₁
  | softEnter t =>
    obtain ⟨k₁, hk₁, -⟩ := Option.map_eq_some_iff.mp he
    unfold rtScheduleSoft at hk₁
    rw [if_neg fun h => hsoft t h.1] at hk₁
    cases hk₁
  | softEntered t =>
    obtain ⟨k₁, hk₁, -⟩ := Option.map_eq_some_iff.mp he
    unfold rtScheduleSoftEntered at hk₁
    rw [if_neg fun h => hsoft t h.1] at hk₁
    cases hk₁
  | softSchedule t =>
    obtain ⟨k₁, hk₁, -⟩ := Option.map_eq_some_iff.mp he
    unfold softSchedule at hk₁
    rw [if_neg fun h => hsoft t h.1] at hk₁
    cases hk₁
  | softWake t =>
    obtain ⟨k₁, hk₁, -⟩ := Option.map_eq_some_iff.mp he
    unfold softWake at hk₁
    rw [if_neg fun h => hsoft t h.1] at hk₁
    cases hk₁
  | softTail t =>
    obtain ⟨k₁, hk₁, -⟩ := Option.map_eq_some_iff.mp he
    unfold rtScheduleSoftTail at hk₁
    rw [if_neg fun h => hsoft t h.1] at hk₁
    cases hk₁

/-- **EVERY ARRIVAL COMES BACK** in a system of hard tasks. -/
theorem arrival_hard (I : GangInv n x L) (H : HardInv x.barriers.kernel)
    (hmay : mayCall x.barriers.kernel c = true) (s : S) :
    ∃ r, gangStep x (.arrive c s) = some r ∧ HardInv r.1.barriers.kernel := by
  obtain ⟨I₀, hz⟩ := I.setsUp s
  obtain ⟨count, type, hsame⟩ := setUp_same x.barriers s
  have H₀ : HardInv (setUp x.barriers s).kernel := by
    rw [hsame]
    exact H.same (H.edf.aside ⟨⟨rfl, rfl, rfl, rfl, rfl, rfl, rfl⟩, rfl, rfl⟩)
      rfl rfl fun t => ⟨H.depth t, H.timeless t⟩
  have hc : (setUp x.barriers s).kernel.state c = {.ready} := by
    rw [hsame]
    exact H.edf.ready_of_mayCall hmay
  have C₀ := I₀.control
  obtain ⟨-, N, -⟩ := I₀.used s hz
  have hm := C₀.semMagic s
  -- the call itself
  have hcall : ∃ r, rtSemWaitBarrier x.barriers c s = some r ∧ HardInv r.1.kernel := by
    unfold rtSemWaitBarrier
    rw [if_neg (by rw [I.control.semMagic]; exact nofun), if_neg (fun hne => hne (I.owner s))]
    dsimp only
    split
    · obtain ⟨r, hr, H₁⟩ := rtSemWait_hard H₀ N C₀.rings hm hc
      rw [hr]
      exact ⟨_, rfl, H₁⟩
    · obtain ⟨r, hr, H₁⟩ := rtSemBroadcast_hard (s := s) H₀ C₀.rings hm
      rw [hr]
      exact ⟨_, rfl, H₁⟩
  obtain ⟨r, hr, H₁⟩ := hcall
  have hstep : barrierStep x.barriers (.arrive c s) = some (leaves c r) := by
    simp only [barrierStep, hmay, if_true, hr]
    rfl
  refine ⟨_, by rw [gangStep, hstep]; rfl, ?_⟩
  exact HardInv.finished (c := c) (r := (r.1.kernel, r.2)) H₁ rfl

theorem hardInv_opened (cfg : Config T S) (n : S → Int) (hhard : ∀ t, cfg.hard t = true)
    (hprio : ∀ t, (cfg.priority t : Int) < RT_SCHED_LINUX_PRIORITY) :
    HardInv (opened cfg n).barriers.kernel where
  edf := (edfInv_boot cfg hhard hprio).aside ⟨⟨rfl, rfl, rfl, rfl, rfl, rfl, rfl⟩, rfl, rfl⟩
  policy := fun t => le_refl 0
  depth := by
    intro t _
    show .suspended ∈ (boot cfg).state t
    simp only [boot, hhard t, if_true]
    decide
  timeless := by
    intro t
    show .delayed ∉ (boot cfg).state t
    simp only [boot, hhard t, if_true]
    decide
  unowned := fun t => decide_eq_false (fun h => h rfl)

end Runs

/-- Fewer tasks than a gang wait, the count is minus their number from the first
    call on, an arrival returns 0 exactly when it completes a gang, and it
    releases those that wait and nobody else.  A call of a hard task among hard
    tasks comes back, as long as the depths of the suspensions stay `int`s. -/
structure GangsReleased (cfg : Config T S) (n : S → Int) (x : Gang T S) (s : S) :
    Prop where
  gathered : Gathered n x s
  answered : ∀ a x' o, GangAction x a → SparesWaiters x a →
    gangStep x a = some (x', o) → Answered n x a o x' s
  returns : (∀ t, cfg.hard t = true) →
    (∀ t, (cfg.priority t : Int) < RT_SCHED_LINUX_PRIORITY) →
    Reach gangStep (fun x a => GangAction x a ∧ SparesWaiters x a ∧ DepthsInRange x a)
      (opened cfg n) x →
    ∀ c, mayCall x.barriers.kernel c = true → ∃ r, gangStep x (.arrive c s) = some r

section Reached

variable {cfg : Config T S} {n : S → Int} {x : Gang T S}

/-- An arrival or another section. -/
theorem gangStep_kept {x' : Gang T S} {L : Head T S → List T}
    {a : BarrierAction T S} {o : Option (Ret T)} (I : GangInv n x L)
    (ha : GangAction x a) (hspare : SparesWaiters x a) (s : S)
    (he : gangStep x a = some (x', o)) :
    (∃ L', GangInv n x' L') ∧ Answered n x a o x' s := by
  cases a with
  | arrive c s₀ => exact ⟨(I.arrival he).1, (I.arrival he).2 s⟩
  | kernel a => exact I.otherStep ha hspare he

theorem gangInv_reached (s : S)
    (h : Reach gangStep (fun x a => GangAction x a ∧ SparesWaiters x a)
      (opened cfg n) x) : ∃ L, GangInv n x L := by
  refine h.invariant (I := fun x => ∃ L, GangInv n x L) ⟨_, gangInv_opened cfg n⟩ ?_
  rintro x a x' o ⟨L, I⟩ ⟨ha, hspare⟩ he
  exact (gangStep_kept I ha hspare s he).1

theorem hardInv_reached (s : S) (hhard : ∀ t, cfg.hard t = true)
    (hprio : ∀ t, (cfg.priority t : Int) < RT_SCHED_LINUX_PRIORITY)
    (h : Reach gangStep (fun x a => GangAction x a ∧ SparesWaiters x a ∧ DepthsInRange x a)
      (opened cfg n) x) : (∃ L, GangInv n x L) ∧ HardInv x.barriers.kernel := by
  refine h.invariant (I := fun x => (∃ L, GangInv n x L) ∧ HardInv x.barriers.kernel)
    ⟨⟨_, gangInv_opened cfg n⟩, hardInv_opened cfg n hhard hprio⟩ ?_
  rintro x a x' o ⟨⟨L, I⟩, H⟩ ⟨ha, hspare, hroom⟩ he
  refine ⟨(gangStep_kept I ha hspare s he).1, ?_⟩
  cases a with
  | arrive c s =>
    have hmay : mayCall x.barriers.kernel c = true := by
      by_contra hno
      simp only [gangStep, barrierStep, if_neg hno] at he
      cases he
    obtain ⟨r, hr, H'⟩ := arrival_hard I H hmay s
    rw [hr] at he
    cases he
    exact H'
  | kernel a =>
    obtain ⟨⟨y, v⟩, hy, he⟩ := Option.bind_eq_some_iff.mp he
    cases he
    obtain ⟨⟨k, w⟩, hk, hy⟩ := Option.bind_eq_some_iff.mp hy
    cases hy
    exact kernel_hard I H ha hroom hk

end Reached

/-- **BARRIERS RELEASE COMPLETE GANGS** in every state that is reached. -/
theorem gangs_released (cfg : Config T S) (n : S → Int) {x : Gang T S}
    (h : Reach gangStep (fun x a => GangAction x a ∧ SparesWaiters x a)
      (opened cfg n) x) (s : S) : GangsReleased cfg n x s := by
  obtain ⟨L, I⟩ := gangInv_reached s h
  refine ⟨I.gathered s, fun a x' o ha hspare he => (gangStep_kept I ha hspare s he).2, ?_⟩
  intro hhard hprio hroom c hmay
  obtain ⟨-, H⟩ := hardInv_reached s hhard hprio hroom
  obtain ⟨r, hr, -⟩ := arrival_hard I H hmay s
  exact ⟨r, hr⟩

instance (x : Gang T S) (op : Op T S) : Decidable (GangOp x op) := by
  induction op using Op.casesOn <;> unfold GangOp <;> infer_instance

instance (x : Gang T S) (a : BarrierAction T S) : Decidable (GangAction x a) := by
  induction a using BarrierAction.casesOn with
  | arrive c s => exact isTrue trivial
  | kernel a =>
    induction a using RtaiSteps.Action.casesOn <;> unfold GangAction <;>
      infer_instance

instance (x : Gang T S) (a : BarrierAction T S) : Decidable (SparesWaiters x a) := by
  induction a using BarrierAction.casesOn with
  | arrive c s => exact isTrue trivial
  | kernel a =>
    induction a using RtaiSteps.Action.casesOn with
    | call c op =>
      induction op using Op.casesOn <;> unfold SparesWaiters SparesOp <;>
        infer_instance
    | linux op =>
      induction op using Op.casesOn <;> unfold SparesWaiters SparesOp <;>
        infer_instance
    | _ => exact isTrue trivial

/-- A gang of two: one waits, the other is about to arrive. -/
theorem gangs_released_two : ∃ x : Gang Bool Unit, x.waiting () = {true} ∧
      mayCall x.barriers.kernel false = true ∧
      GangsReleased equals (fun _ => 2) x () := by
  obtain ⟨x, hx, h1, h2⟩ : ∃ x : Gang Bool Unit,
      play gangStep (fun x a => GangAction x a ∧ SparesWaiters x a) (opened equals fun _ => 2)
        [.kernel (.linux (.resume true)), .kernel (.dispatch true),
          .arrive true (), .kernel (.linux (.resume false)),
          .kernel (.dispatch false)] = some x ∧
      x.waiting () = {true} ∧ mayCall x.barriers.kernel false = true :=
    ⟨_, rfl, by decide, by decide⟩
  exact ⟨x, h1, h2, gangs_released equals (fun _ => 2) (reach_of_play hx) ()⟩

/-- What would hold in every state: the count is minus the number of tasks that
    wait. -/
def CountsWaiters (x : Gang T S) (s : S) : Prop :=
  x.barriers.kernel.count s = -((x.waiting s).card : Int)

/-- A task waits, is suspended, unblocked from its wait and resumed, and arrives
    again. -/
def arrivingTwice : List (BarrierAction Bool Unit) :=
  [.kernel (.linux (.resume true)), .kernel (.dispatch true), .arrive true (),
    .kernel (.linux (.suspend true)),
    .kernel (.linux (.unblock true {.semaphore})),
    .kernel (.linux (.resume true)), .kernel (.dispatch true),
    .kernel (.cont true), .arrive true ()]

/-- **BEFORE THE FIRST CALL** the count is the size of the gang, and **A RESUMED
    WAITER COUNTS TWICE**: it comes back from its call while it is linked in the
    queue. -/
theorem waiter_counted_twice : ¬ CountsWaiters (opened equals fun _ => 3) () ∧
      ∃ x : Gang Bool Unit, Reach gangStep GangAction (opened equals fun _ => 3) x ∧
        x.waiting () = {true} ∧ ¬ CountsWaiters x () := by
  constructor
  · unfold CountsWaiters
    decide
  · obtain ⟨x, hx, h1, h2⟩ : ∃ x : Gang Bool Unit,
        play gangStep GangAction (opened equals fun _ => 3) arrivingTwice = some x ∧
        x.waiting () = {true} ∧ x.barriers.kernel.count () = -2 :=
      ⟨_, rfl, by decide, by decide⟩
    refine ⟨x, reach_of_play hx, h1, ?_⟩
    unfold CountsWaiters
    rw [h1, h2]
    decide

end RtaiGangs
