import Rtai.Timed
import Rtai.SemSteps

/-! # Deadlines of timed waits

    A task that `rt_sem_wait_until` puts to sleep is linked in the timed list.
    The signal that grants it the semaphore takes it out, and a task of higher
    priority that robs it of the grant before it runs puts it back into the
    wait queue.  Whether the robbed task had a timeout is to be seen from its
    `running` field: the signal stores there -4 for a delayed waiter and 0 for
    another.  It does so behind the code that clears `RT_SCHED_DELAYED`, so
    it always stores 0 and the robbed task waits for ever. -/

namespace RtaiDeadlines

open RtaiRuns RtaiKernel RtaiSchedCore RtaiTaskApi RtaiSched RtaiSem
  RtaiSteps RtaiTimed

variable {T S : Type} [decT : DecidableEq T] [decS : DecidableEq S] [finT : Fintype T]
  [finS : Fintype S]

/-! ## What is to be kept -/

/-- The places of the semaphore services. -/
def waitPlace : Pc T S → Prop
  | .idle => True
  | .start => True
  | .semWait _ => True
  | .semWaitUntil _ => True
  | _ => False

/-- A task in `rt_sem_wait_until` that waits for a semaphore is delayed. -/
def waitRegime (T S : Type) : Regime T S where
  calm := {.delayed}
  ok := fun s => .semaphore ∈ s → .delayed ∈ s
  inside := fun p => ∃ s, p = .semWaitUntil s
  place := waitPlace
  delayed := Finset.mem_singleton_self _
  apart := by decide
  bits := by
    intro s s' h hs hf
    rw [← mem_of_pending h (by decide) (by decide)]
    exact hs ((mem_of_pending h (by decide) (by decide)).mpr hf)
  woken := fun s _ hf => absurd (by decide) (Finset.mem_sdiff.mp hf).2
  idle := by
    rintro ⟨s, hs⟩
    exact nomatch hs
  start := by
    rintro ⟨s, hs⟩
    exact nomatch hs
  places := ⟨trivial, trivial⟩

/-- The time of a timed wait. -/
def waitTime : Op T S → Option Int
  | .semWaitUntil _ time => some time
  | _ => none

/-- The owner that a wait robs. -/
def robs (k : Kernel T S) (c : T) : Op T S → Option T
  | .semWait s =>
    if k.semMagic s ∧ k.count s ≤ 0 ∧ k.type s > 0 then
      ubiMaiorVictim k c s
    else none
  | .semWaitIf s =>
    if k.semMagic s ∧ k.count s ≤ 0 ∧ k.type s > 0 then
      ubiMaiorVictim k c s
    else none
  | .semWaitUntil s time =>
    if k.semMagic s ∧ k.count s ≤ 0 ∧ k.type s > 0 ∧ time > k.timeH then
      ubiMaiorVictim k c s
    else none
  | _ => none

section Calls

variable {k k' : Kernel T S} {dl : T → Option Int} {c u v : T} {s : S} {o : Option (Ret T)}

/-- What a call of a task without a deadline leaves behind. -/
abbrev Settles (dl : T → Option Int) (k : Kernel T S) : Prop :=
  Settled (waitRegime T S) dl k

theorem not_delayed (h : Settles dl k) (hc : executes k c = true) : .delayed ∉ k.state c :=
  fun hf => Finset.disjoint_left.mp (h.executing nofun hc) hf (waitRegime T S).delayed

omit decT decS finT finS in
theorem ready_not_delayed (h : k.state c = {.ready}) : .delayed ∉ k.state c := by
  rw [h]
  decide

/-! ## Waiting -/

/-- A task waits for a semaphore again, where it was. -/
theorem waitsAgain_settled (h : Settles dl k) (hv : dl v ≠ none → .delayed ∈ k.state v) :
    Settles dl { k with
      state := Function.update k.state v (k.state v ∪ {.semaphore}) } := by
  refine h.setState v _ ?_ ?_ ?_
  · rw [Finset.mem_union]
    exact or_iff_left (by decide)
  · intro hs ha
    refine Finset.disjoint_union_left.mpr ⟨h.calm v nofun hs ha, ?_⟩
    show Disjoint _ ({.delayed} : TaskState)
    decide
  · intro d hd _ _
    exact Finset.mem_union_left _ (hv (by rw [hd]; nofun))

/-- **An owner is robbed**: it waits again, without a timeout unless it has
    kept one. -/
theorem ubiMaiorRob_settled (h : Settles dl k) (hrun : k.running v ≤ 0)
    (hv : dl v ≠ none → .delayed ∈ k.state v)
    (hr : ubiMaiorRob k c s v = some (k', o)) :
    Settles dl k' ∧ ∃ w, o = some w := by
  have hzero : k.running v = 0 := le_antisymm hrun (h.running v)
  unfold ubiMaiorRob at hr
  simp only [if_pos hzero] at hr
  obtain ⟨k₁, hk₁, hr⟩ := Option.bind_eq_some_iff.mp hr
  cases hk₁
  obtain ⟨k₂, hk₂, hr⟩ := Option.bind_eq_some_iff.mp hr
  cases hr
  have h1 : Settles dl (remReadyTask { k with
      count := Function.update k.count s (k.count s - 1) } v) :=
    h.steady ((Steady.lists k ..).trans (remReadyTask_steady _ v))
  have hst : (remReadyTask { k with
      count := Function.update k.count s (k.count s - 1) } v).state =
        k.state := by
    unfold remReadyTask
    split <;> rfl
  have h2 := waitsAgain_settled h1 (v := v) (by rw [hst]; exact hv)
  exact ⟨(h2.steady (enqueueBlocked_steady hk₂)).steady (Steady.lists _ ..), _, rfl⟩

theorem takeOwnership_steady (k : Kernel T S) (c : T) (s : S) :
    Steady k (takeOwnership k c s) := by
  unfold takeOwnership
  split
  · exact Steady.lists k ..
  · exact Steady.refl k

theorem takeToken_settled (h : Settles dl k) (hr : takeToken k c s = some (k', o)) :
    Settles dl k' ∧ ∃ w, o = some w := by
  cases hr
  exact ⟨h.steady ((Steady.lists k ..).trans (takeOwnership_steady _ c s)), _, rfl⟩

theorem nestedWait_settled (h : Settles dl k) (hr : nestedWait k s = some (k', o)) :
    Settles dl k' ∧ ∃ w, o = some w := by
  unfold nestedWait at hr
  split at hr
  · cases hr
    exact ⟨h.steady (Steady.lists k ..), _, rfl⟩
  · cases hr
    exact ⟨h, _, rfl⟩

theorem passToOwner_steady (h : passToOwner k c s = some k') :
    Steady k k' := by
  unfold passToOwner at h
  split at h
  · split at h
    · exact passPrio_steady h
    · exact passPrio_steady h
  · cases h
    exact Steady.refl k

theorem semWaitFailed_steady (h : semWaitFailed k c s = some k') :
    Steady k k' := by
  have h1 : Steady k { dequeueBlocked k c with
      count := Function.update (dequeueBlocked k c).count s
        (moreCount (dequeueBlocked k c) s) } := Steady.lists k ..
  unfold semWaitFailed at h
  simp only at h
  split at h
  · split at h
    · exact h1.trans (setTaskPrioFromResq_steady h)
    · cases h
      exact h1
  · cases h
    exact h1

/-- The end of a wait changes nothing that is timed. -/
theorem rtSemWaitUntilTail_steady (h : rtSemWaitUntilTail k c s = some (k', o)) :
    Steady k k' ∧ ∃ w, o = some w := by
  unfold rtSemWaitUntilTail at h
  split at h
  · cases h
    exact ⟨takeOwnership_steady k c s, _, rfl⟩
  · cases h
    exact ⟨Steady.refl k, _, rfl⟩
  · obtain ⟨k₁, hk₁, h⟩ := Option.bind_eq_some_iff.mp h
    cases h
    exact ⟨semWaitFailed_steady hk₁, _, rfl⟩

theorem rtSemWaitTail_steady (h : rtSemWaitTail k c s = some (k', o)) :
    Steady k k' ∧ ∃ w, o = some w := by
  unfold rtSemWaitTail at h
  split at h
  · cases h
    exact ⟨takeOwnership_steady k c s, _, rfl⟩
  · cases h
    exact ⟨Steady.refl k, _, rfl⟩
  · obtain ⟨k₁, hk₁, h⟩ := Option.bind_eq_some_iff.mp h
    cases h
    exact ⟨semWaitFailed_steady hk₁, _, rfl⟩

omit decT decS finT finS in
/-- The bits of a wait are still there behind the links in the queue. -/
theorem mem_state_of_steady (hk : Steady k k') {f : Flag}
    (h1 : f ≠ .ready) (h2 : f ≠ .sftrdy) (hf : f ∈ k.state c) :
    f ∈ k'.state c :=
  (mem_of_pending (hk.state c) h1 h2).mpr hf

/-- **The caller goes to sleep in the queue**, with the bits of its wait. -/
theorem wait_sleeps {k₁ k₂ : Kernel T S} {F : TaskState} {ct : S → Int} {q : Int}
    (h : Settles dl k) (hdl : dl c = none) (hc : .delayed ∉ k.state c)
    (hF : .semaphore ∈ F) (hk₁ : Steady k k₁)
    (hk₂ : enqueueBlocked (remReadyCurrent { k₁ with
      count := ct
      state := Function.update k₁.state c (k₁.state c ∪ F) } c) c (.sem s) q = some k₂) :
    Unlinked (waitRegime T S) dl (some c) c k₂ ∧ Asleep k₂ c ∧
      (.delayed ∈ k₂.state c ↔ .delayed ∈ F) ∧
      k₂.resumeTime = k.resumeTime := by
  have h1 : Settles dl { k₁ with count := ct } :=
    (h.steady hk₁).steady (Steady.lists k₁ ..)
  have hc₁ : .delayed ∉ k₁.state c := fun hf => hc
    ((mem_of_pending (hk₁.state c) (by decide) (by decide)).mp hf)
  have h2 := h1.takes c F hdl hc₁
  have hst : ∀ f, f ∈ Function.update k₁.state c (k₁.state c ∪ F) c ↔
      f ∈ k₁.state c ∨ f ∈ F := by
    intro f
    rw [Function.update_self, Finset.mem_union]
  have hcur := remReadyCurrent_steady { k₁ with
      count := ct
      state := Function.update k₁.state c (k₁.state c ∪ F) } c
  have henq := enqueueBlocked_steady hk₂
  have hsem := mem_state_of_steady hcur (by decide) (by decide)
    ((hst .semaphore).mpr (Or.inr hF))
  refine ⟨(h2.steady hcur).steady henq, ?_, ?_, ?_⟩
  · refine (asleep_remReadyCurrent _ c).steady henq ?_
    exact Finset.ne_empty_of_mem (mem_pending.mpr ⟨hsem, by decide, by decide⟩)
  · rw [mem_of_pending ((hcur.trans henq).state c) (by decide) (by decide)]
    exact (hst .delayed).trans (or_iff_right hc₁)
  · exact henq.resumeTime.trans (hcur.resumeTime.trans hk₁.resumeTime)

omit decT decS finT finS in
/-- Only an owner that seems not to have run is robbed. -/
theorem victim_running (h : ubiMaiorVictim k c s = some v) : k.running v ≤ 0 := by
  unfold ubiMaiorVictim at h
  split at h
  · split at h
    · next hcond =>
        cases h
        exact hcond.2
    · exact nomatch h
  · exact nomatch h

/-- A wait that is not robbing either nests, or sleeps, or fails. -/
theorem rtSemWait_settled (h : Settles dl k) (hdl : dl c = none) (hc : executes k c = true)
    (hrob : ∀ v, robs k c (.semWait s) = some v → dl v ≠ none → .delayed ∈ k.state v)
    (hr : rtSemWait k c s = some (k', o)) : Settles dl k' := by
  unfold rtSemWait at hr
  by_cases hm : k.semMagic s = true
  · rw [if_neg (by simp [hm])] at hr
    split at hr
    · next hle =>
        split at hr
        · next v hv =>
            obtain ⟨ht, hv⟩ : k.type s > 0 ∧ ubiMaiorVictim k c s = some v := by
              simpa using hv
            refine (ubiMaiorRob_settled h (victim_running hv) (hrob v ?_) hr).1
            exact (if_pos ⟨hm, hle, ht⟩).trans hv
        · split at hr
          · exact (nestedWait_settled h hr).1
          · obtain ⟨k₁, hk₁, hr⟩ := Option.bind_eq_some_iff.mp hr
            obtain ⟨k₂, hk₂, hr⟩ := Option.bind_eq_some_iff.mp hr
            cases hr
            obtain ⟨h2, hsl, hd, -⟩ := wait_sleeps h hdl (not_delayed h hc)
              (Finset.mem_singleton_self _) (passToOwner_steady hk₁) hk₂
            have h3 := h2.sleeps hsl (hd.not.mpr (by decide))
            exact Timed.moves h3 hdl trivial
    · exact (takeToken_settled h hr).1
  · rw [if_pos (by simp [hm])] at hr
    cases hr
    exact h

theorem rtSemWaitIf_settled (h : Settles dl k)
    (hrob : ∀ v, robs k c (.semWaitIf s) = some v → dl v ≠ none → .delayed ∈ k.state v)
    (hr : rtSemWaitIf k c s = some (k', o)) :
    Settles dl k' ∧ ∃ w, o = some w := by
  unfold rtSemWaitIf at hr
  by_cases hm : k.semMagic s = true
  · rw [if_neg (by simp [hm])] at hr
    split at hr
    · next hle =>
        split at hr
        · next v hv =>
            obtain ⟨ht, hv⟩ : k.type s > 0 ∧ ubiMaiorVictim k c s = some v := by
              simpa using hv
            refine ubiMaiorRob_settled h (victim_running hv) (hrob v ?_) hr
            exact (if_pos ⟨hm, hle, ht⟩).trans hv
        · split at hr
          · exact nestedWait_settled h hr
          · cases hr
            exact ⟨h, _, rfl⟩
    · exact takeToken_settled h hr
  · rw [if_pos (by simp [hm])] at hr
    cases hr
    exact ⟨h, _, rfl⟩

/-- **`rt_sem_wait_until`**: a caller that sleeps has got its deadline. -/
theorem rtSemWaitUntil_settled {time : Int} (h : Settles dl k)
    (hdl : dl c = none) (hc : executes k c = true)
    (hrob : ∀ v, robs k c (.semWaitUntil s time) = some v → dl v ≠ none → .delayed ∈ k.state v)
    (hr : rtSemWaitUntil k c s time = some (k', o)) :
    Settles dl k' ∧ (o = none → k'.resumeTime c = time ∧
      k'.pc c = .semWaitUntil s ∧ .delayed ∈ k'.state c) := by
  have hout : ∀ {k' : Kernel T S} {o : Option (Ret T)}, (Settles dl k' ∧ ∃ w, o = some w) →
      Settles dl k' ∧ (o = none → k'.resumeTime c = time ∧
        k'.pc c = .semWaitUntil s ∧ .delayed ∈ k'.state c) := by
    rintro k' o ⟨h', w, rfl⟩
    exact ⟨h', nofun⟩
  have hnd := not_delayed h hc
  unfold rtSemWaitUntil at hr
  by_cases hm : k.semMagic s = true
  · rw [if_neg (by simp [hm])] at hr
    split at hr
    · next hle =>
        simp only at hr
        have hb : Settles dl { k with
            blockedOn := Function.update k.blockedOn c (.queue (.sem s)) } :=
          h.steady (Steady.lists k ..)
        have h0 : Settles dl { k with
            blockedOn := Function.update k.blockedOn c (.queue (.sem s))
            resumeTime := Function.update k.resumeTime c time } :=
          Timed.setsTime hb time hdl
        split at hr
        · next htime =>
            split at hr
            · next v hv =>
                obtain ⟨ht, hv⟩ : k.type s > 0 ∧ ubiMaiorVictim k c s = some v := by
                  simpa [ubiMaiorVictim] using hv
                refine hout (ubiMaiorRob_settled h0 (victim_running hv) (hrob v ?_) hr)
                exact (if_pos ⟨hm, hle, ht, htime⟩).trans hv
            · split at hr
              · exact hout (nestedWait_settled h0 hr)
              · obtain ⟨k₁, hk₁, hr⟩ := Option.bind_eq_some_iff.mp hr
                obtain ⟨k₂, hk₂, hr⟩ := Option.bind_eq_some_iff.mp hr
                obtain ⟨k₃, hk₃, hr⟩ := Option.bind_eq_some_iff.mp hr
                cases hr
                obtain ⟨h2, hsl, hd, ht⟩ := wait_sleeps h0 hdl
                  hnd (by decide) (passToOwner_steady hk₁) hk₂
                have hdel := hd.mpr (by decide)
                have h3 := h2.sleepsTimed hsl hdel hk₃
                obtain ⟨pos, -, hk₃⟩ := Option.bind_eq_some_iff.mp hk₃
                cases hk₃
                refine ⟨Timed.moves h3 hdl trivial, fun _ => ⟨?_, ?_, hdel⟩⟩
                · show k₂.resumeTime c = time
                  rw [ht]
                  exact Function.update_self ..
                · exact Function.update_self ..
        · obtain ⟨hk, hw⟩ := rtSemWaitUntilTail_steady hr
          exact hout ⟨h0.steady ((Steady.lists _ ..).trans hk), hw⟩
    · exact hout (takeToken_settled h hr)
  · rw [if_pos (by simp [hm])] at hr
    cases hr
    exact ⟨h, nofun⟩

/-! ## Signalling -/

/-- The first waiter is released, and is not delayed when it is made ready. -/
theorem wakeWaiter_settled {b : Bool} (h : Settles dl k) (hw : wakeWaiter k u = some (k', b)) :
    Settles dl k' ∧ (b = true → .delayed ∉ k'.state u) := by
  have h1 := (h.steady (dequeueBlocked_steady k u)).unlinks u
  unfold wakeWaiter at hw
  simp only at hw
  split at hw
  · next hready =>
      cases hw
      exact ⟨h1.ready hready, nofun⟩
  · have h2 := h1.clears (m := {.semaphore, .delayed}) (by decide)
      fun d _ _ hf => absurd (by decide) (Finset.mem_sdiff.mp hf).2
    split at hw
    · next hready =>
        obtain ⟨k₁, hk₁, hw⟩ := Option.bind_eq_some_iff.mp hw
        cases hw
        have hk := enqReadyTask_steady hk₁ hready
        refine ⟨h2.steady hk, fun _ hf => ?_⟩
        have hf' := (mem_of_pending (hk.state u) (by decide) (by decide)).mp hf
        exact ready_not_delayed hready hf'
    · cases hw
      exact ⟨h2, nofun⟩

/-- The end of the signal of a resource. -/
theorem releaseResource_settled {who : Option T} (h : Settles dl k)
    (hr : releaseResource k c s who = some (k', o)) :
    Settles dl k' ∧ ∃ w, o = some w := by
  obtain ⟨k₁, hk₁, hr⟩ := Option.bind_eq_some_iff.mp hr
  have h1 := h.steady ((Steady.lists k ..).trans (dequeueResqel_steady hk₁))
  split at hr
  · cases hr
    have h2 := h1.setState c (k₁.state c ∪ {.suspended}) (by
        rw [Finset.mem_union]
        exact or_iff_left (by decide)) (by
        intro hs ha
        refine Finset.disjoint_union_left.mpr ⟨h1.calm c nofun hs ha, ?_⟩
        show Disjoint _ ({.delayed} : TaskState)
        decide) (by
        intro d _ hok hf
        refine Finset.mem_union_left _ (hok ?_)
        exact (Finset.mem_union.mp hf).resolve_right (by decide))
    exact ⟨h2.steady (remReadyCurrent_steady _ c), _, rfl⟩
  · split at hr
    · next hneg =>
        exact absurd (h1.deep c) (not_le.mpr hneg)
    · cases hr
      exact ⟨h1, _, rfl⟩

theorem rtSemSignal_settled {who : Option T} (h : Settles dl k)
    (hr : rtSemSignal k who s = some (k', o)) :
    Settles dl k' ∧ ∃ w, o = some w := by
  unfold rtSemSignal at hr
  split at hr
  · cases hr
    exact ⟨h, _, rfl⟩
  · split at hr
    · cases hr
      exact ⟨h, _, rfl⟩
    · split at hr
      · cases hr
        exact ⟨h.steady (Steady.lists k ..), _, rfl⟩
      · have h0 : Settles dl { k with
            count := Function.update k.count s (moreCount k s) } :=
          h.steady (Steady.lists k ..)
        simp only at hr
        split at hr
        · exact nomatch hr
        · split at hr
          · obtain ⟨c, -, hr⟩ := Option.bind_eq_some_iff.mp hr
            exact releaseResource_settled h0 hr
          · cases hr
            exact ⟨h0, _, rfl⟩
        · next u _ =>
            obtain ⟨⟨k₁, b⟩, hk₁, hr⟩ := Option.bind_eq_some_iff.mp hr
            obtain ⟨h1, hnd⟩ := wakeWaiter_settled h0 hk₁
            split at hr
            · obtain ⟨c, -, hr⟩ := Option.bind_eq_some_iff.mp hr
              refine releaseResource_settled ?_ hr
              split
              · next hb =>
                  -- the bit that the signal looks at is never there any more
                  rw [if_neg (hnd hb)]
                  exact Timed.setsRunning h1 u (le_refl 0)
              · exact h1
            · cases hr
              exact ⟨h1, _, rfl⟩

end Calls

/-! ## The runs -/

/-- The waits on semaphores and the signals; tasks are started with
    `rt_task_resume`. -/
def WaitOp (k : Kernel T S) : Op T S → Prop
  | .semWait _ => True
  | .semWaitIf _ => True
  | .semWaitUntil _ _ => True
  | .semSignal _ => True
  | .resume t => 0 < k.suspdepth t ∧ k.pc t = .idle
  | _ => False

/-- The steps of a task that waits. -/
def WaitAction (x : Deadlined T S) : Action T S → Prop
  | .call _ op => WaitOp x.kernel op
  | .linux op => WaitOp x.kernel op
  | _ => True

/-- An owner that is robbed while it stands in `rt_sem_wait_until` still has
    its timeout. -/
def RobsTimed (x : Deadlined T S) : Action T S → Prop
  | .call c op => ∀ v, robs x.kernel c op = some v →
      x.deadline v ≠ none → .delayed ∈ x.kernel.state v
  | _ => True

section Step

variable {x x' : Deadlined T S} {a : Action T S} {o : Option (Ret T)}

/-- **EVERY CALL KEEPS THE DEADLINES** of the others, and sets that of a task
    that goes to sleep in a timed wait. -/
theorem taskOp_settled {k : Kernel T S} {dl : T → Option Int} {c : T}
    {op : Op T S} {r : Outcome T S} (h : Settles dl k)
    (hop : WaitOp k op) (hdl : dl c = none) (hc : executes k c = true)
    (hrob : ∀ v, robs k c op = some v → dl v ≠ none → .delayed ∈ k.state v)
    (hr : taskOp k c op = some r) :
    Settles dl r.1 ∧ (r.2 = none → ∀ d, waitTime op = some d →
      r.1.resumeTime c = d ∧ (waitRegime T S).inside (r.1.pc c) ∧
        (waitRegime T S).ok (r.1.state c)) := by
  obtain ⟨k', o⟩ := r
  cases op with
  | semWait s => exact ⟨rtSemWait_settled h hdl hc hrob hr, fun _ _ => nofun⟩
  | semWaitIf s => exact ⟨(rtSemWaitIf_settled h hrob hr).1, fun _ _ => nofun⟩
  | semWaitUntil s time =>
    obtain ⟨h', hin⟩ := rtSemWaitUntil_settled h hdl hc hrob hr
    refine ⟨h', fun ho d hd => ?_⟩
    cases hd
    obtain ⟨h1, h2, h3⟩ := hin ho
    exact ⟨h1, ⟨s, h2⟩, fun _ => h3⟩
  | semSignal s => exact ⟨(rtSemSignal_settled h hr).1, fun _ _ => nofun⟩
  | resume t =>
    exact ⟨(rtTaskResume_settled h hop.1 hop.2 hr).1, fun _ _ => nofun⟩
  | _ => exact hop.elim

/-- What a task does when it comes back from its sleep. -/
theorem contOp_settled {k : Kernel T S} {dl : T → Option Int} {c : T}
    {r : Outcome T S} (h : Settles dl k) (hr : contOp k c = some r) :
    Settles dl r.1 ∧ ∃ w, r.2 = some w := by
  obtain ⟨k', o⟩ := r
  have hp : waitPlace (k.pc c) := h.places c
  unfold contOp at hr
  cases hpc : k.pc c with
  | semWait s =>
    rw [hpc] at hr
    obtain ⟨hk, hw⟩ := rtSemWaitTail_steady hr
    exact ⟨h.steady hk, hw⟩
  | semWaitUntil s =>
    rw [hpc] at hr
    obtain ⟨hk, hw⟩ := rtSemWaitUntilTail_steady hr
    exact ⟨h.steady hk, hw⟩
  | idle => rw [hpc] at hr; exact nomatch hr
  | start => rw [hpc] at hr; exact nomatch hr
  | _ => rw [hpc] at hp; exact hp.elim

/-- A call from outside any task. -/
theorem linuxOp_settled {k : Kernel T S} {dl : T → Option Int} {op : Op T S}
    {r : Outcome T S} (h : Settles dl k) (hop : WaitOp k op)
    (hr : linuxOp k op = some r) : Settles dl r.1 := by
  obtain ⟨k', o⟩ := r
  cases op with
  | semSignal s => exact (rtSemSignal_settled h hr).1
  | resume t => exact (rtTaskResume_settled h hop.1 hop.2 hr).1
  | semWait s => exact nomatch hr
  | semWaitIf s => exact nomatch hr
  | semWaitUntil s time => exact nomatch hr
  | _ => exact hop.elim

/-- **One step keeps the timed list and the deadlines.** -/
theorem waitAction_settled (h : Settles x.deadline x.kernel) (ha : WaitAction x a)
    (hrob : RobsTimed x a) (hx : keepTime waitTime x a = some (x', o)) :
    Settles x'.deadline x'.kernel := by
  refine RtaiTimed.Settled.step h ?_ ?_ ?_ hx
  · rintro c op r rfl hex hdl hr
    exact taskOp_settled h ha hdl hex hrob hr
  · rintro c dl r rfl - h hex hr
    obtain ⟨h', w, hw⟩ := contOp_settled h hr
    refine ⟨h', fun hnone => ?_⟩
    rw [hw] at hnone
    exact nomatch hnone
  · rintro op r rfl hr
    exact linuxOp_settled h ha hr

end Step

/-- **A TIMED WAITER KEEPS ITS DEADLINE** in every run in which no wait robs
    an owner of what it has been granted in a timed wait: whoever waits for a
    semaphore inside `rt_sem_wait_until` is delayed and linked in the timed
    list with the time it has passed. -/
theorem waiters_keep_deadlines (cfg : Config T S) (x : Deadlined T S)
    (h : Reach (keepTime waitTime) (fun x a => WaitAction x a ∧ RobsTimed x a)
      (untimed cfg) x) : DeadlinesKept {.semaphore} x := by
  have hinv : Settles x.deadline x.kernel := by
    refine h.invariant (I := fun x => Settles x.deadline x.kernel)
      (settled_boot (waitRegime T S) cfg) ?_
    intro x a x' o h ⟨ha, hrob⟩ hx
    exact waitAction_settled h ha hrob hx
  -- the regime allows the bit of the wait only to who is delayed
  refine deadlinesKept_of_settled hinv fun s hok hb => hok ?_
  by_contra hs
  exact hb (Finset.disjoint_singleton_right.mpr hs)

instance (k : Kernel T S) (op : Op T S) : Decidable (WaitOp k op) := by
  induction op using Op.casesOn <;> unfold WaitOp <;> infer_instance

instance (x : Deadlined T S) (a : Action T S) : Decidable (WaitAction x a) := by
  induction a using RtaiSteps.Action.casesOn <;> unfold WaitAction <;>
    infer_instance

instance (x : Deadlined T S) (a : Action T S) : Decidable (RobsTimed x a) := by
  induction a using RtaiSteps.Action.casesOn <;> unfold RobsTimed <;>
    infer_instance

/-- Three hard tasks, the first with the highest priority, and a resource. -/
def threeTasks : Config (Fin 3) (Fin 1) where
  hard := fun _ => true
  priority := fun t => t
  receiver := fun _ => none
  schedlat := fun _ => 0
  linuxSchedlat := 0
  sems := fun _ => { kind := .resSem 1, value := 1, fifo := false }
  time := 0

/-- The third task has the resource, and the second waits for it with a
    timeout. -/
def timedWaiterRun : List (RtaiSteps.Action (Fin 3) (Fin 1)) :=
  [.linux (.resume 2), .dispatch 2, .call 2 (.semWait 0),
    .linux (.resume 1), .dispatch 1, .call 1 (.semWaitUntil 0 100)]

theorem waiters_keep_deadlines_blocked :
    ∃ x : Deadlined (Fin 3) (Fin 1), x.deadline 1 = some 100 ∧
      .semaphore ∈ x.kernel.state 1 ∧ DeadlinesKept {.semaphore} x := by
  obtain ⟨x, hplay, hd, hs⟩ : ∃ x, play (keepTime waitTime)
      (fun x a => WaitAction x a ∧ RobsTimed x a) (untimed threeTasks)
      timedWaiterRun = some x ∧ x.deadline 1 = some 100 ∧
      x.kernel.state 1 = {.ready, .semaphore, .delayed} :=
    ⟨_, rfl, rfl, by decide⟩
  exact ⟨x, hd, by rw [hs]; decide, waiters_keep_deadlines threeTasks x (reach_of_play hplay)⟩

/-- The third task signals, and before the second runs the first waits. -/
def robbedWaiterRun : List (RtaiSteps.Action (Fin 3) (Fin 1)) :=
  timedWaiterRun ++ [RtaiSteps.Action.call 2 (.semSignal 0),
    .linux (.resume 0), .dispatch 0, .call 0 (.semWait 0)]

/-- **A ROBBED WAITER HAS LOST ITS DEADLINE.** -/
theorem robbed_waiter_untimed : ∃ x : Deadlined (Fin 3) (Fin 1),
      Reach (keepTime waitTime) WaitAction (untimed threeTasks) x ∧
      ¬ DeadlinesKept {.semaphore} x := by
  obtain ⟨x, hplay, hd, hs⟩ : ∃ x, play (keepTime waitTime) WaitAction
      (untimed threeTasks) robbedWaiterRun = some x ∧
      x.deadline 1 = some 100 ∧
      x.kernel.state 1 = {.ready, .semaphore} :=
    ⟨_, rfl, rfl, by decide⟩
  refine ⟨x, reach_of_play hplay, fun h => ?_⟩
  have hdel := (h 1 100 hd (by rw [hs]; decide)).1
  rw [hs] at hdel
  exact absurd hdel (by decide)

end RtaiDeadlines
