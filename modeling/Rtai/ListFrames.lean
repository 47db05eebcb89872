import Rtai.Frames

/-! # What linking and unlinking leaves alone

    `Relinked k k'` says that the lists, the priorities and the Linux side of
    soft tasks are all that differ, that no bit of a state but
    `RT_SCHED_SFTRDY` does, and that only a ready task is woken up.  Linking
    and unlinking a task, in whichever list, is `Relinked`, and so is the walk
    that passes a priority on. -/

namespace RtaiListFrames

open RtaiRings RtaiKernel RtaiSchedCore RtaiPrioInher RtaiFrames

variable {T S : Type}

/-- Only lists and priorities have changed. -/
def Relinked (k k' : Kernel T S) : Prop :=
  ∃ rd tm qu bo pr wk ln st,
    k' = { k with
      ready := rd
      timed := tm
      queue := qu
      blockedOn := bo
      priority := pr
      wakeup := wk
      linux := ln
      state := st } ∧
    (∀ u f, f ≠ .sftrdy → (f ∈ st u ↔ f ∈ k.state u)) ∧
    ∀ u, (ln u ≠ .asleep ∨ wk u = true) → Awake k u ∨ k.state u ⊆ {.ready, .sftrdy}

theorem Relinked.refl (k : Kernel T S) : Relinked k k :=
  ⟨_, _, _, _, _, _, _, _, rfl, fun _ _ _ => Iff.rfl, fun _ h => Or.inl h⟩

theorem Relinked.trans {k₁ k₂ k₃ : Kernel T S} (h : Relinked k₁ k₂)
    (h' : Relinked k₂ k₃) : Relinked k₁ k₃ := by
  obtain ⟨_, _, _, _, _, _, _, _, rfl, hst, haw⟩ := h
  obtain ⟨_, _, _, _, _, _, _, _, rfl, hst', haw'⟩ := h'
  refine ⟨_, _, _, _, _, _, _, _, rfl, fun u f hf =>
    (hst' u f hf).trans (hst u f hf), ?_⟩
  intro u hu
  obtain hu | hsub := haw' u hu
  · exact haw u hu
  · refine Or.inr fun f hf => ?_
    by_cases hsft : f = .sftrdy
    · rw [hsft]
      decide
    · exact hsub ((hst u f hsft).mpr hf)

/-- The lists and the priorities. -/
theorem Relinked.lists (k : Kernel T S) (rd tm : Links (Node T Unit))
    (qu : Links (Node T (Head T S))) (bo : T → BlockedOn T S) (pr : T → Int) :
    Relinked k { k with
      ready := rd
      timed := tm
      queue := qu
      blockedOn := bo
      priority := pr } :=
  ⟨_, _, _, _, _, _, _, _, rfl, fun _ _ _ => Iff.rfl, fun _ h => Or.inl h⟩

section Primitives

variable [decT : DecidableEq T] [decS : DecidableEq S] [finT : Fintype T] [finS : Fintype S]
  {k k' : Kernel T S} {t : T}

omit decS finT finS in
theorem remReadyCurrent_relinked (k : Kernel T S) (t : T) :
    Relinked k (remReadyCurrent k t) := by
  simp only [remReadyCurrent]
  split
  · exact Relinked.lists k ..
  · refine ⟨_, _, _, _, _, _, _, _, rfl, fun _ _ _ => Iff.rfl, ?_⟩
    intro u hu
    by_cases hut : u = t
    · rw [hut, Function.update_self, Function.update_self] at hu
      exact hu.elim (fun h => absurd rfl h) nofun
    · rw [Function.update_of_ne hut, Function.update_of_ne hut] at hu
      exact Or.inl hu

omit decS finT finS in
theorem remTimedTask_relinked (k : Kernel T S) (t : T) : Relinked k (remTimedTask k t) := by
  simp only [remTimedTask]
  split
  · exact Relinked.lists k ..
  · exact Relinked.refl k

omit decS finS in
theorem enqTimedTask_relinked (h : enqTimedTask k t = some k') :
    Relinked k k' := by
  obtain ⟨pos, -, h⟩ := Option.bind_eq_some_iff.mp h
  cases h
  exact Relinked.lists k ..

omit finT finS in
theorem dequeueBlocked_relinked (k : Kernel T S) (t : T) : Relinked k (dequeueBlocked k t) :=
  Relinked.lists k ..

omit decS finS in
/-- A task that is ready is linked, or woken up. -/
theorem enqReadyTask_relinked (h : enqReadyTask k t = some k')
    (hready : k.state t = {.ready}) : Relinked k k' := by
  simp only [enqReadyTask] at h
  split at h
  · obtain ⟨pos, -, h⟩ := Option.bind_eq_some_iff.mp h
    cases h
    exact Relinked.lists k ..
  · cases h
    refine ⟨_, _, _, _, _, _, _, _, rfl, ?_, ?_⟩
    · intro u f hf
      by_cases hu : u = t
      · rw [hu, Function.update_self, Finset.mem_union, Finset.mem_singleton]
        exact or_iff_left hf
      · rw [Function.update_of_ne hu]
    · intro u hu
      by_cases hut : u = t
      · rw [hut, hready]
        exact Or.inr (by decide)
      · rw [Function.update_of_ne hut] at hu
        exact Or.inl hu

omit decS finS in
theorem renqReadyTask_relinked {p : Int} (h : renqReadyTask k t p = some k') :
    Relinked k k' := by
  simp only [renqReadyTask] at h
  split at h
  · cases h
    exact Relinked.refl k
  · split at h
    · next hready =>
      exact (Relinked.lists k ..).trans (enqReadyTask_relinked h hready)
    · cases h
      exact Relinked.lists k ..

theorem setTaskPrioFromResq_relinked (h : setTaskPrioFromResq k t = some k') :
    Relinked k k' := by
  obtain ⟨p, -, h⟩ := Option.bind_eq_some_iff.mp h
  exact renqReadyTask_relinked h

theorem enqueueBlocked_relinked {h₀ : Head T S} {q : Int}
    (h : enqueueBlocked k t h₀ q = some k') : Relinked k k' := by
  simp only [enqueueBlocked] at h
  split at h
  · obtain ⟨pos, -, h⟩ := Option.bind_eq_some_iff.mp h
    cases h
    exact Relinked.lists k ..
  · cases h
    exact Relinked.lists k ..

/-- One round of the inheritance walk. -/
theorem givePriority_relinked {p : Int} {next : TaskPtr T}
    (h : givePriority k t p = some (k', next)) : Relinked k k' := by
  unfold givePriority at h
  simp only at h
  split at h
  · next hready =>
    split at h
    · obtain ⟨k₁, he, h⟩ := Option.bind_eq_some_iff.mp h
      cases h
      exact (Relinked.lists k ..).trans (enqReadyTask_relinked he hready)
    · cases h
      exact Relinked.lists k ..
  · obtain ⟨b, -, h⟩ := Option.bind_eq_some_iff.mp h
    split at h
    · split at h
      · split at h
        · obtain ⟨n, -, h⟩ := Option.bind_eq_some_iff.mp h
          cases h
          exact Relinked.lists k ..
        · obtain ⟨k₁, hr, h⟩ := Option.bind_eq_some_iff.mp h
          obtain ⟨pos, -, hr⟩ := Option.bind_eq_some_iff.mp hr
          cases hr
          split at h
          · obtain ⟨n, -, h⟩ := Option.bind_eq_some_iff.mp h
            cases h
            exact Relinked.lists k ..
          · cases h
            exact Relinked.lists k ..
      · exact nomatch h
    · cases h
      exact Relinked.lists k ..

/-- **THE INHERITANCE WALK** relinks tasks and nothing else. -/
theorem passLoop_relinked {p : Int} {fuel : Nat} : ∀ {k k' : Kernel T S} {dest : TaskPtr T},
      passLoop fuel k dest p = some k' → Relinked k k' := by
  induction fuel with
  | zero =>
    intro k k' dest h
    cases dest with
    | null =>
      cases h
      exact Relinked.refl k
    | higerr => exact nomatch h
    | task t => exact nomatch h
  | succ fuel ih =>
    intro k k' dest h
    cases dest with
    | null =>
      cases h
      exact Relinked.refl k
    | higerr => exact nomatch h
    | task t =>
      simp only [passLoop] at h
      split at h
      · obtain ⟨⟨k₁, next⟩, hg, h⟩ := Option.bind_eq_some_iff.mp h
        exact (givePriority_relinked hg).trans (ih h)
      · cases h
        exact Relinked.refl k

end Primitives

end RtaiListFrames
