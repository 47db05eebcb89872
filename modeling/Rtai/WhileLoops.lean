import Mathlib

/-! # Loops with a test

    A loop runs its body, which may fail, as long as its test holds, at most
    `fuel` times.  Whether there is fuel enough is proved with a measure. -/

namespace RtaiWhileLoops

variable {S S' : Type} {test : S → Bool} {body : S → Option S}

/-- `while (test) body`; `none` if the body fails or there is no more fuel. -/
def whileLoop (test : S → Bool) (body : S → Option S) : Nat → S → Option S
  | 0, _ => none
  | fuel + 1, s =>
    if test s then
      match body s with
      | none => none
      | some s' => whileLoop test body fuel s'
    else some s

theorem whileLoop_of_false {s : S} (h : test s = false) (fuel : Nat) :
    whileLoop test body (fuel + 1) s = some s := by
  unfold whileLoop
  rw [h]
  rfl

theorem whileLoop_of_true {s s' : S} (h : test s = true) (hb : body s = some s') (fuel : Nat) :
    whileLoop test body (fuel + 1) s = whileLoop test body fuel s' := by
  rw [whileLoop, if_pos h, hb]

/-- **THE RULE OF TOTAL CORRECTNESS**: the body keeps the invariant and makes
    the measure smaller. -/
theorem whileLoop_total {I : S → Prop} {measure : S → Nat} (hstep : ∀ s, I s → test s = true →
      ∃ s', body s = some s' ∧ I s' ∧ measure s' < measure s)
    {s : S} (hs : I s) {fuel : Nat} (hfuel : measure s < fuel) :
    ∃ r, whileLoop test body fuel s = some r ∧ I r ∧ test r = false := by
  induction fuel generalizing s with
  | zero => exact absurd hfuel (Nat.not_lt_zero _)
  | succ fuel ih =>
    cases ht : test s with
    | false => exact ⟨s, whileLoop_of_false ht fuel, hs, ht⟩
    | true =>
      obtain ⟨s', hb, hs', hlt⟩ := hstep s hs ht
      rw [whileLoop_of_true ht hb]
      exact ih hs' (by omega)

/-- **THE RULE OF PARTIAL CORRECTNESS**. -/
theorem whileLoop_inv {I : S → Prop}
    (hstep : ∀ s s', I s → test s = true → body s = some s' → I s') {fuel : Nat}
    {s r : S} (hs : I s) (h : whileLoop test body fuel s = some r) :
    I r ∧ test r = false := by
  induction fuel generalizing s with
  | zero => exact nomatch h
  | succ fuel ih =>
    cases ht : test s with
    | false =>
      rw [whileLoop_of_false ht] at h
      obtain rfl := Option.some.inj h
      exact ⟨hs, ht⟩
    | true =>
      cases hb : body s with
      | none =>
        rw [whileLoop, if_pos ht, hb] at h
        exact nomatch h
      | some s' =>
        rw [whileLoop_of_true ht hb] at h
        exact ih (hstep s s' hs ht hb) h

/-- **A LOOP WHOSE TEST HOLDS FOR EVER** does not end. -/
theorem whileLoop_diverges {I : S → Prop} (hstep : ∀ s s', I s → body s = some s' → I s')
    (htest : ∀ s, I s → test s = true) {s : S} (hs : I s) (fuel : Nat) :
    whileLoop test body fuel s = none := by
  cases hrun : whileLoop test body fuel s with
  | none => rfl
  | some r =>
    obtain ⟨hr, hend⟩ := whileLoop_inv (fun s s' hs _ => hstep s s' hs) hs hrun
    exact nomatch (htest r hr).symm.trans hend

/-- More fuel, for a body that has more, changes nothing. -/
theorem whileLoop_mono {body' : S → Option S}
    (hbody : ∀ s s', body s = some s' → body' s = some s') {s r : S}
    {fuel more : Nat} (hle : fuel ≤ more)
    (h : whileLoop test body fuel s = some r) :
    whileLoop test body' more s = some r := by
  induction fuel generalizing s more with
  | zero => exact nomatch h
  | succ fuel ih =>
    obtain ⟨more, rfl⟩ : ∃ m, more = m + 1 :=
      Nat.exists_eq_succ_of_ne_zero (by omega)
    unfold whileLoop at h ⊢
    cases ht : test s with
    | false =>
      rw [ht] at h
      exact h
    | true =>
      rw [ht, if_pos rfl] at h
      rw [if_pos rfl]
      cases hb : body s with
      | none =>
        rw [hb] at h
        exact nomatch h
      | some s' =>
        rw [hb] at h
        rw [hbody s s' hb]
        exact ih (by omega) h

/-- **ONE LOOP IS ANOTHER**, seen through a map of the states, as long as an
    invariant holds. -/
theorem whileLoop_map {test' : S' → Bool} {body' : S' → Option S'} {f : S → S'}
    {I : S → Prop} (htest : ∀ s, I s → test' (f s) = test s)
    (hbody : ∀ s, I s → body' (f s) = (body s).map f)
    (hI : ∀ s s', I s → body s = some s' → I s') (fuel : Nat) {s : S} (h : I s) :
    whileLoop test' body' fuel (f s) = (whileLoop test body fuel s).map f := by
  induction fuel generalizing s with
  | zero => rfl
  | succ fuel ih =>
    unfold whileLoop
    rw [htest s h]
    cases test s with
    | false => rfl
    | true =>
      rw [if_pos rfl, if_pos rfl, hbody s h]
      cases hb : body s with
      | none => rfl
      | some s' => exact ih (hI s s' h hb)

end RtaiWhileLoops
