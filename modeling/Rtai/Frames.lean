import Rtai.Steps

/-! # What scheduling leaves alone

    `Still k k'` says that only the scheduling data differ: the ready and
    timed lists, the times, the Linux side of soft tasks, the suspension
    depths and the states, and that no bit of a state has been set that tells
    of a wait for a semaphore or a message.  Linking and unlinking a task in
    the ready and timed lists is `Still`, and so is waking up the timed tasks:
    for the wait queues, the semaphores and the messages nothing happens but
    that some tasks lose bits of their state. -/

namespace RtaiFrames

open RtaiRings RtaiKernel RtaiSchedCore

variable {T S : Type}

/-- The bits of a wait for a semaphore or a message. -/
def blocking : TaskState := {.semaphore, .send, .receive, .rpc, .ret}

/-- Linux runs the thread of a soft task, or is going to. -/
def Awake (k : Kernel T S) (u : T) : Prop :=
  k.linux u ≠ .asleep ∨ k.wakeup u = true

/-- Only scheduling data change, no blocking bit is set, a thread with a
    blocking bit is not woken up, and no suspension depth becomes negative. -/
def Still (k k' : Kernel T S) : Prop :=
  ∃ rd tm st wk ln sd th rt pt pd rf,
    k' = { k with
      ready := rd
      timed := tm
      state := st
      wakeup := wk
      linux := ln
      suspdepth := sd
      timeH := th
      resumeTime := rt
      periodicResumeTime := pt
      period := pd
      resyncFrame := rf } ∧
    (∀ u f, f ∈ blocking → f ∈ st u → f ∈ k.state u) ∧
    (∀ u, (ln u ≠ .asleep ∨ wk u = true) → Awake k u ∨ Disjoint (st u) blocking) ∧
    ∀ u, 0 ≤ k.suspdepth u → 0 ≤ sd u

theorem Still.refl (k : Kernel T S) : Still k k :=
  ⟨k.ready, k.timed, k.state, k.wakeup, k.linux, k.suspdepth, k.timeH,
    k.resumeTime, k.periodicResumeTime, k.period, k.resyncFrame, rfl,
    fun _ _ _ h => h, fun _ h => Or.inl h, fun _ h => h⟩

/-- The ready list is no blocking matter. -/
theorem Still.ready (k : Kernel T S) (l : Links (Node T Unit)) :
    Still k { k with ready := l } :=
  ⟨l, k.timed, k.state, k.wakeup, k.linux, k.suspdepth, k.timeH,
    k.resumeTime, k.periodicResumeTime, k.period, k.resyncFrame, rfl,
    fun _ _ _ h => h, fun _ h => Or.inl h, fun _ h => h⟩

/-- Nor is the timed list. -/
theorem Still.timed (k : Kernel T S) (l : Links (Node T Unit)) :
    Still k { k with timed := l } :=
  ⟨k.ready, l, k.state, k.wakeup, k.linux, k.suspdepth, k.timeH,
    k.resumeTime, k.periodicResumeTime, k.period, k.resyncFrame, rfl,
    fun _ _ _ h => h, fun _ h => Or.inl h, fun _ h => h⟩

/-- Nor are the suspension depths. -/
theorem Still.suspdepth (k : Kernel T S) (sd : T → Int)
    (h : ∀ u, 0 ≤ k.suspdepth u → 0 ≤ sd u) :
    Still k { k with suspdepth := sd } :=
  ⟨k.ready, k.timed, k.state, k.wakeup, k.linux, sd, k.timeH,
    k.resumeTime, k.periodicResumeTime, k.period, k.resyncFrame, rfl,
    fun _ _ _ h => h, fun _ h => Or.inl h, h⟩

/-- Nor are the times. -/
theorem Still.times (k : Kernel T S) (th : Int) (rt pt pd : T → Int) (rf : T → Bool) :
    Still k { k with
      timeH := th
      resumeTime := rt
      periodicResumeTime := pt
      period := pd
      resyncFrame := rf } :=
  ⟨k.ready, k.timed, k.state, k.wakeup, k.linux, k.suspdepth, th, rt, pt, pd,
    rf, rfl, fun _ _ _ h => h, fun _ h => Or.inl h, fun _ h => h⟩

/-- States may change as long as no blocking bit is set. -/
theorem Still.state (k : Kernel T S) (st : T → TaskState)
    (h : ∀ u f, f ∈ blocking → f ∈ st u → f ∈ k.state u) :
    Still k { k with state := st } :=
  ⟨k.ready, k.timed, st, k.wakeup, k.linux, k.suspdepth, k.timeH,
    k.resumeTime, k.periodicResumeTime, k.period, k.resyncFrame, rfl, h,
    fun _ h => Or.inl h, fun _ h => h⟩

theorem Still.trans {k₁ k₂ k₃ : Kernel T S} (h₁ : Still k₁ k₂)
    (h₂ : Still k₂ k₃) : Still k₁ k₃ := by
  obtain ⟨_, _, _, _, _, _, _, _, _, _, _, rfl, hst, hwk, hsd⟩ := h₁
  obtain ⟨_, _, _, _, _, _, _, _, _, _, _, rfl, hst', hwk', hsd'⟩ := h₂
  refine ⟨_, _, _, _, _, _, _, _, _, _, _, rfl, ?_, ?_, fun u h => hsd' u (hsd u h)⟩
  · exact fun u f hf h => hst u f hf (hst' u f hf h)
  · intro u hu
    rcases hwk' u hu with h | h
    · rcases hwk u h with h | h
      · exact Or.inl h
      · refine Or.inr (Finset.disjoint_left.mpr fun f hf hb => ?_)
        exact Finset.disjoint_left.mp h (hst' u f hb hf) hb
    · exact Or.inr h

/-- No task has more resumptions than suspensions. -/
def Deep (k : Kernel T S) : Prop :=
  ∀ t, 0 ≤ k.suspdepth t

theorem Still.deep {k k' : Kernel T S} (h : Still k k') (hd : Deep k) :
    Deep k' := by
  obtain ⟨_, _, _, _, _, _, _, _, _, _, _, rfl, -, -, hsd⟩ := h
  exact fun t => hsd t (hd t)

variable [DecidableEq T]

/-- A depth that is set is not negative. -/
theorem Still.setDepth (k : Kernel T S) (t : T) {d : Int} (hd : 0 ≤ k.suspdepth t → 0 ≤ d) :
    Still k { k with suspdepth := Function.update k.suspdepth t d } := by
  refine Still.suspdepth k _ fun u hu => ?_
  by_cases h : u = t
  · subst h
    rw [Function.update_self]
    exact hd hu
  · rw [Function.update_of_ne h]
    exact hu

/-- Losing bits. -/
theorem Still.clear (k : Kernel T S) (t : T) (m : TaskState) :
    Still k { k with
      state := Function.update k.state t (k.state t \ m) } := by
  refine Still.state k _ fun u f _ hf => ?_
  by_cases hu : u = t
  · subst hu
    rw [Function.update_self] at hf
    exact (Finset.mem_sdiff.mp hf).1
  · rw [Function.update_of_ne hu] at hf
    exact hf

/-- Setting bits that are not blocking. -/
theorem Still.set (k : Kernel T S) (t : T) {m : TaskState} (hm : Disjoint m blocking) :
    Still k { k with
      state := Function.update k.state t (k.state t ∪ m) } := by
  refine Still.state k _ fun u f hb hf => ?_
  by_cases hu : u = t
  · subst hu
    rw [Function.update_self, Finset.mem_union] at hf
    rcases hf with hf | hf
    · exact hf
    · exact absurd hb (Finset.disjoint_left.mp hm hf)
  · rw [Function.update_of_ne hu] at hf
    exact hf

theorem Still.remTimedTask (k : Kernel T S) (t : T) : Still k (remTimedTask k t) := by
  unfold RtaiSchedCore.remTimedTask
  split
  · exact Still.timed k _
  · exact Still.refl k

theorem Still.remReadyTask (k : Kernel T S) (t : T) : Still k (remReadyTask k t) := by
  unfold RtaiSchedCore.remReadyTask
  split
  · exact Still.ready k _
  · exact Still.refl k

/-- The current task leaves the ready list, and Linux stops its thread. -/
theorem Still.remReadyCurrent (k : Kernel T S) (t : T) : Still k (remReadyCurrent k t) := by
  unfold RtaiSchedCore.remReadyCurrent
  split
  · exact Still.ready k _
  · refine ⟨_, k.timed, k.state, _, _, k.suspdepth, k.timeH, k.resumeTime,
      k.periodicResumeTime, k.period, k.resyncFrame, rfl,
      fun _ _ _ h => h, ?_, fun _ h => h⟩
    intro u hu
    by_cases hut : u = t
    · subst hut
      rw [Function.update_self, Function.update_self] at hu
      rcases hu with hu | hu
      · exact absurd rfl hu
      · exact nomatch hu
    · rw [Function.update_of_ne hut, Function.update_of_ne hut] at hu
      exact Or.inl hu

/-- A task that blocks is not awake. -/
theorem remReadyCurrent_asleep (k : Kernel T S) {t : T}
    (ht : k.isHard t = false) : ¬ Awake (remReadyCurrent k t) t := by
  unfold RtaiSchedCore.remReadyCurrent Awake
  rw [if_neg (by rw [ht]; exact Bool.false_ne_true)]
  dsimp only
  rw [Function.update_self, Function.update_self]
  rintro (h | h)
  · exact h rfl
  · exact nomatch h

variable [Fintype T]

/-- A task that is ready is linked in the ready list, or its Linux thread is
    woken up. -/
theorem enqReadyTask_still {k k' : Kernel T S} {t : T}
    (h : enqReadyTask k t = some k') (hready : k.state t = {.ready}) :
    Still k k' := by
  unfold enqReadyTask at h
  by_cases hh : k.isHard t = true
  · rw [if_pos hh] at h
    obtain ⟨pos, -, h⟩ := Option.bind_eq_some_iff.mp h
    cases h
    exact Still.ready k _
  · rw [if_neg hh] at h
    cases h
    have hset : Still k { k with
        state := Function.update k.state t (k.state t ∪ {.sftrdy}) } :=
      Still.set k t (by decide)
    refine hset.trans ⟨k.ready, k.timed, _, _, k.linux, k.suspdepth, k.timeH,
      k.resumeTime, k.periodicResumeTime, k.period, k.resyncFrame, rfl,
      fun _ _ _ h => h, ?_, fun _ h => h⟩
    intro u hu
    by_cases hut : u = t
    · subst hut
      rw [Function.update_self, hready]
      exact Or.inr (by decide)
    · rw [Function.update_of_ne hut] at hu
      exact Or.inl hu

/-- Nothing but a link in the ready list, or `RT_SCHED_SFTRDY`. -/
theorem enqReadyTask_keeps {k k' : Kernel T S} {t : T} (h : enqReadyTask k t = some k') :
    k'.suspdepth = k.suspdepth ∧ ∀ u f, f ≠ .sftrdy → f ∈ k'.state u → f ∈ k.state u := by
  unfold enqReadyTask at h
  by_cases hh : k.isHard t = true
  · rw [if_pos hh] at h
    obtain ⟨pos, -, h⟩ := Option.bind_eq_some_iff.mp h
    cases h
    exact ⟨rfl, fun _ _ _ h => h⟩
  · rw [if_neg hh] at h
    cases h
    refine ⟨rfl, fun u f hne hf => ?_⟩
    by_cases hu : u = t
    · subst hu
      dsimp only at hf
      rw [Function.update_self, Finset.mem_union, Finset.mem_singleton] at hf
      exact hf.resolve_right hne
    · dsimp only at hf
      rw [Function.update_of_ne hu] at hf
      exact hf

theorem renqReadyTask_suspdepth {k k' : Kernel T S} {t : T} {p : Int}
    (h : renqReadyTask k t p = some k') : k'.suspdepth = k.suspdepth := by
  unfold renqReadyTask at h
  by_cases hp : k.priority t = p
  · rw [if_pos hp] at h
    cases h
    rfl
  · rw [if_neg hp] at h
    dsimp only at h
    split at h
    · exact (enqReadyTask_keeps h).1
    · cases h
      rfl

theorem enqReadyEdfTask_still {k k' : Kernel T S} {t : T}
    (h : enqReadyEdfTask k t = some k') : Still k k' := by
  obtain ⟨pos, -, h⟩ := Option.bind_eq_some_iff.mp h
  cases h
  exact Still.ready k _

theorem enqTimedTask_still {k k' : Kernel T S} {t : T}
    (h : enqTimedTask k t = some k') : Still k k' := by
  obtain ⟨pos, -, h⟩ := Option.bind_eq_some_iff.mp h
  cases h
  exact Still.timed k _

/-- A new priority, and the place in the ready list that goes with it. -/
theorem renqReadyTask_still {k k' : Kernel T S} {t : T} {p : Int}
    (h : renqReadyTask k t p = some k') :
    Still { k with priority := Function.update k.priority t p } k' := by
  unfold renqReadyTask at h
  by_cases hp : k.priority t = p
  · rw [if_pos hp] at h
    cases h
    rw [← hp, Function.update_eq_self]
    exact Still.refl k
  · rw [if_neg hp] at h
    simp only at h
    split at h
    · next hready =>
        exact (Still.ready _ _).trans (enqReadyTask_still h hready)
    · cases h
      exact Still.refl _

/-- The timer only takes bits away from the tasks it wakes up. -/
theorem wakeUpTask_still {k k' : Kernel T S} {t : T}
    (h : wakeUpTask k t = some k') : Still k k' := by
  unfold wakeUpTask at h
  generalize hk₁ : (if .suspended ∈ k.state t ∧ k.suspdepth t > 0 then
      { k with suspdepth := Function.update k.suspdepth t 0 } else k) = k₁ at h
  have h1 : Still k k₁ := by
    rw [← hk₁]
    split
    · exact Still.setDepth k t fun _ => le_refl 0
    · exact Still.refl k
  have h2 := h1.trans (Still.clear k₁ t timedMask)
  simp only at h
  split at h
  · next hready =>
      split at h
      · exact h2.trans (enqReadyEdfTask_still h)
      · exact h2.trans (enqReadyTask_still h hready)
  · cases h
    exact h2

theorem wakeUpLoop_still {fuel : Nat} : ∀ {k k' : Kernel T S} {n n' : Node T Unit},
      wakeUpLoop fuel k n = some (k', n') → Still k k' := by
  induction fuel with
  | zero => intro k k' n n' h; exact nomatch h
  | succ fuel ih =>
    intro k k' n n' h
    cases n with
    | head _ => exact nomatch h
    | elem t =>
      obtain ⟨k₁, hw, h⟩ := Option.bind_eq_some_iff.mp h
      simp only at h
      split at h
      · exact (wakeUpTask_still hw).trans (ih h)
      · cases h
        exact wakeUpTask_still hw

/-- **THE TIMER IS STILL**: waking up the timed tasks touches no wait queue, no
    semaphore and no message. -/
theorem wakeUpTimedTasks_still {k k' : Kernel T S}
    (h : wakeUpTimedTasks k = some k') : Still k k' := by
  unfold wakeUpTimedTasks at h
  dsimp only at h
  split at h
  · obtain ⟨⟨k₁, n⟩, hl, h⟩ := Option.bind_eq_some_iff.mp h
    cases h
    exact (wakeUpLoop_still hl).trans (Still.timed _ _)
  · cases h
    exact Still.refl k

end RtaiFrames
