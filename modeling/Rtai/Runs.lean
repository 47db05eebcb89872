import Mathlib

/-! # Guarded runs of a partial step function

    A system is a partial function `step : St → Act → Option (St × Out)`: an
    action taken in a state leads to at most one state and emits an output.
    `Reach step P s s'` says that `s'` is reached from `s` by actions that all
    satisfy `P` in the state in which they are taken.  The guard `P` names the
    operations that a run uses and the conditions under which it uses them. -/

namespace RtaiRuns

variable {St Act Out : Type}

/-- One guarded step. -/
def Step (step : St → Act → Option (St × Out)) (P : St → Act → Prop) (s s' : St) : Prop :=
  ∃ a o, P s a ∧ step s a = some (s', o)

/-- Reached by guarded steps. -/
def Reach (step : St → Act → Option (St × Out)) (P : St → Act → Prop) : St → St → Prop :=
  Relation.ReflTransGen (Step step P)

section Rules

variable {step : St → Act → Option (St × Out)} {P Q : St → Act → Prop}

theorem Reach.refl (s : St) : Reach step P s s :=
  Relation.ReflTransGen.refl

theorem Reach.tail {s s' s'' : St} (h : Reach step P s s') {a : Act} {o : Out}
    (hP : P s' a) (hs : step s' a = some (s'', o)) : Reach step P s s'' :=
  Relation.ReflTransGen.tail h ⟨a, o, hP, hs⟩

/-- **The invariant rule**: what holds initially and is kept by every guarded
    step holds in every state reached. -/
theorem Reach.invariant {I : St → Prop} {s s' : St} (h : Reach step P s s') (h0 : I s)
    (hstep : ∀ t a t' o, I t → P t a → step t a = some (t', o) → I t') :
    I s' := by
  induction h with
  | refl => exact h0
  | tail _ hs ih =>
    obtain ⟨a, o, hP, he⟩ := hs
    exact hstep _ a _ o ih hP he

/-- Weakening the guard. -/
theorem Reach.mono {s s' : St} (h : Reach step P s s')
    (hPQ : ∀ t a, P t a → Q t a) : Reach step Q s s' := by
  induction h with
  | refl => exact Reach.refl _
  | tail _ hs ih =>
    obtain ⟨a, o, hP, he⟩ := hs
    exact ih.tail (hPQ _ a hP) he

/-- An invariant may be used to discharge the guard of later steps. -/
theorem Reach.strengthen {I : St → Prop} {s s' : St} (h : Reach step P s s') (h0 : I s)
    (hstep : ∀ t a t' o, I t → P t a → step t a = some (t', o) → I t')
    (hPQ : ∀ t a, I t → P t a → Q t a) : Reach step Q s s' := by
  suffices hboth : I s' ∧ Reach step Q s s' from hboth.2
  induction h with
  | refl => exact ⟨h0, Reach.refl _⟩
  | tail _ hs ih =>
    obtain ⟨a, o, hP, he⟩ := hs
    exact ⟨hstep _ a _ o ih.1 hP he, ih.2.tail (hPQ _ a ih.1 hP) he⟩

/-- **The exact guard**: where every step keeps `Good` if and only if it meets
    the guard, the good states of the runs are those that guarded runs
    reach. -/
theorem Reach.good_iff {I Good : St → Prop} {s s' : St}
    (h : Reach step P s s') (h0 : I s) (hg : Good s)
    (hI : ∀ t a t' o, I t → P t a → step t a = some (t', o) → I t')
    (hstep : ∀ t a t' o, I t → P t a → step t a = some (t', o) → (Good t' ↔ Good t ∧ Q t a)) :
    Good s' ↔ Reach step (fun t a => P t a ∧ Q t a) s s' := by
  constructor
  · intro hs'
    have hinv : I s' ∧ (Good s' → Reach step (fun t a => P t a ∧ Q t a) s s') := by
      clear hs'
      induction h with
      | refl => exact ⟨h0, fun _ => Reach.refl s⟩
      | tail _ hs ih =>
        obtain ⟨a, o, hP, he⟩ := hs
        refine ⟨hI _ a _ o ih.1 hP he, fun hgood => ?_⟩
        obtain ⟨hg', hQ⟩ := (hstep _ a _ o ih.1 hP he).mp hgood
        exact (ih.2 hg').tail ⟨hP, hQ⟩ he
    exact hinv.2 hs'
  · intro hr
    have hinv := hr.invariant (I := fun t => I t ∧ Good t) ⟨h0, hg⟩ ?_
    · exact hinv.2
    · intro t a t' o ht hPQ he
      exact ⟨hI t a t' o ht.1 hPQ.1 he, (hstep t a t' o ht.1 hPQ.1 he).mpr ⟨ht.2, hPQ.2⟩⟩

end Rules

/-! The tasks and semaphores of a run that is played are numbered from 0. -/

instance neZeroOne : NeZero 1 := ⟨one_ne_zero⟩

instance neZeroTwo : NeZero 2 := ⟨two_ne_zero⟩

instance neZeroThree : NeZero 3 := ⟨three_ne_zero⟩

/-- Take the actions of a list in turn, as long as each satisfies the guard. -/
def play (step : St → Act → Option (St × Out)) (P : St → Act → Prop)
    [∀ s a, Decidable (P s a)] : St → List Act → Option St
  | s, [] => some s
  | s, a :: as =>
    if P s a then
      match step s a with
      | none => none
      | some (s', _) => play step P s' as
    else none

/-- A run that can be played is a run. -/
theorem reach_of_play {step : St → Act → Option (St × Out)}
    {P : St → Act → Prop} [∀ s a, Decidable (P s a)] {s' : St} :
    ∀ {as : List Act} {s : St}, play step P s as = some s' →
      Reach step P s s' := by
  intro as
  induction as with
  | nil =>
    intro s h
    rw [← Option.some.inj h]
    exact Reach.refl s
  | cons a as ih =>
    intro s h
    unfold play at h
    by_cases hP : P s a
    · rw [if_pos hP] at h
      cases hs : step s a with
      | none => rw [hs] at h; exact nomatch h
      | some r =>
        obtain ⟨t, o⟩ := r
        rw [hs] at h
        exact Relation.ReflTransGen.head ⟨a, o, hP, hs⟩ (ih h)
    · rw [if_neg hP] at h
      exact nomatch h

end RtaiRuns
