import Mathlib

/-! # Searches for a minimum

    Two loops look for a least key in a list.  One compares every element with
    the best one so far and finds what `List.argmin` does.  The other ends at
    the first element that does not improve the best key so far, and so it
    finds the least key only of some lists: those in which the elements that
    improve come first. -/

namespace RtaiMinima

variable {α β : Type} [LinearOrder β]

/-! ## Comparing every element -/

section Argmin

variable {f : α → β} {p : α → Bool}

/-- `argmin` is a loop that starts from the first element. -/
theorem argmin_cons_foldl (f : α → β) (l : List α) : ∀ a, (a :: l).argmin f =
      some (l.foldl (fun b c => if f c < f b then c else b) a) := by
  have hseed : ∀ (l : List α) (a : α), l.foldl (List.argAux fun b c => f b < f c) (some a) =
        some (l.foldl (fun b c => if f c < f b then c else b) a) := by
    intro l
    induction l with
    | nil => exact fun _ => rfl
    | cons c l ih =>
      intro a
      have hstep : List.argAux (fun b c => f b < f c) (some a) c =
          some (if f c < f a then c else a) := by
        by_cases hc : f c < f a
        · simp only [List.argAux, if_pos hc]
        · simp only [List.argAux, if_neg hc]
      rw [List.foldl_cons, hstep, ih]
      rfl
  exact hseed l

/-- **THE LOOP FINDS THE FIRST LEAST ONE** of the start and of the elements
    that it considers. -/
theorem foldl_mem_argmin (f : α → β) (p : α → Bool) (a : α) (l : List α) :
    l.foldl (fun b c => if p c ∧ f c < f b then c else b) a ∈ (a :: l.filter p).argmin f := by
  rw [argmin_cons_foldl, List.foldl_filter, Option.mem_some_iff]
  congr 1
  funext b c
  by_cases hp : p c
  · simp only [hp, true_and, if_true]
  · simp only [hp, false_and, if_false, Bool.false_eq_true]

/-- A first element that is not least may be left out. -/
theorem argmin_cons_of_lt {a : α} {l : List α} (h : ∃ c ∈ l, f c < f a) :
    (a :: l).argmin f = l.argmin f := by
  obtain ⟨c, hc, hlt⟩ := h
  rw [List.argmin_cons]
  cases hl : l.argmin f with
  | none => exact absurd (List.argmin_eq_none.mp hl) (List.ne_nil_of_mem hc)
  | some d => exact if_pos ((List.le_of_mem_argmin hc hl).trans_lt hlt)

/-- Among equal ones the first is taken. -/
theorem argmin_cons_of_le {a : α} {l : List α} (h : ∀ c ∈ l, f a ≤ f c) :
    (a :: l).argmin f = some a := by
  rw [List.argmin_cons]
  cases hl : l.argmin f with
  | none => rfl
  | some d => exact if_neg (not_lt.mpr (h d (List.argmin_mem hl)))

end Argmin

/-! ## Ending at the first one that does not improve -/

variable {key : α → Option β} {b p : β} {x y : α} {l before : List α}

/-- The loop.  An element without a key ends it as well. -/
def descend (key : α → Option β) : β → List α → β
  | b, [] => b
  | b, x :: l =>
    match key x with
    | none => b
    | some p => if p < b then descend key p l else b

/-- The key of `x` is below `b` and below all the keys before. -/
def Improves (key : α → Option β) (b : β) (before : List α) (x : α) : Prop :=
  ∃ p, key x = some p ∧ p < b ∧ ∀ y ∈ before, ∀ q, key y = some q → p < q

/-- No element that improves stands behind one that does not. -/
def ImproversFirst (key : α → Option β) (b : β) (l : List α) : Prop :=
  ∀ l₁ x l₂ y l₃, l = l₁ ++ x :: l₂ ++ y :: l₃ →
    Improves key b (l₁ ++ x :: l₂) y → Improves key b l₁ x

/-- The keys of a list. -/
def keys (key : α → Option β) (l : List α) : Set β :=
  {p | ∃ x ∈ l, key x = some p}

theorem descend_cons_of_lt (hx : key x = some p) (hp : p < b) :
    descend key b (x :: l) = descend key p l := by
  rw [descend, hx]
  exact if_pos hp

theorem improves_nil : Improves key b [] x ↔ ∃ p, key x = some p ∧ p < b :=
  ⟨fun ⟨p, hx, hp, _⟩ => ⟨p, hx, hp⟩, fun ⟨p, hx, hp⟩ => ⟨p, hx, hp, nofun⟩⟩

theorem descend_cons_of_not (hx : ¬ Improves key b [] x) : descend key b (x :: l) = b := by
  rw [descend]
  cases hk : key x with
  | none => rfl
  | some p => exact if_neg fun hp => hx (improves_nil.mpr ⟨p, hk, hp⟩)

/-- Behind an element that improves, its key is the one to be improved. -/
theorem improves_cons (hx : key x = some p) (hp : p < b) :
    Improves key b (x :: before) y ↔ Improves key p before y := by
  constructor
  · rintro ⟨q, hy, -, hq⟩
    exact ⟨q, hy, hq x (List.mem_cons_self ..) p hx,
      fun z hz => hq z (List.mem_cons_of_mem _ hz)⟩
  · rintro ⟨q, hy, hqp, hq⟩
    refine ⟨q, hy, hqp.trans hp, fun z hz r hr => ?_⟩
    rcases List.mem_cons.mp hz with rfl | hz
    · rw [hx] at hr
      exact hqp.trans_eq (Option.some.inj hr)
    · exact hq z hz r hr

theorem improversFirst_cons_of_lt (hx : key x = some p) (hp : p < b) :
    ImproversFirst key b (x :: l) ↔ ImproversFirst key p l := by
  constructor
  · intro h l₁ y l₂ z l₃ hl hz
    subst hl
    have hz' : Improves key b (x :: l₁ ++ y :: l₂) z := (improves_cons hx hp).mpr hz
    exact (improves_cons hx hp).mp (h (x :: l₁) y l₂ z l₃ rfl hz')
  · intro h l₁ y l₂ z l₃ hl hz
    cases l₁ with
    | nil =>
      obtain ⟨rfl, -⟩ := List.cons.inj hl
      exact improves_nil.mpr ⟨p, hx, hp⟩
    | cons w l₁ =>
      obtain ⟨rfl, hrest⟩ := List.cons.inj hl
      exact (improves_cons hx hp).mpr (h l₁ y l₂ z l₃ hrest ((improves_cons hx hp).mp hz))

/-- The first element with a key below `b` improves. -/
theorem exists_improves : ∀ {l : List α}, (∃ x ∈ l, ∃ p, key x = some p ∧ p < b) →
      ∃ l₁ x l₂, l = l₁ ++ x :: l₂ ∧ Improves key b l₁ x ∧
        ∀ y ∈ l₁, ∀ q, key y = some q → b ≤ q := by
  intro l
  induction l with
  | nil => exact fun ⟨_, hx, _⟩ => nomatch hx
  | cons z l ih =>
    intro h
    by_cases hz : ∃ p, key z = some p ∧ p < b
    · exact ⟨[], z, l, rfl, improves_nil.mpr hz, nofun⟩
    · have hrest : ∃ x ∈ l, ∃ p, key x = some p ∧ p < b := by
        obtain ⟨x, hx, hp⟩ := h
        rcases List.mem_cons.mp hx with rfl | hx
        · exact absurd hp hz
        · exact ⟨x, hx, hp⟩
      obtain ⟨l₁, x, l₂, rfl, ⟨p, hx, hp, hfirst⟩, hrest⟩ := ih hrest
      have habove : ∀ y ∈ z :: l₁, ∀ q, key y = some q → b ≤ q := by
        intro y hy q hq
        rcases List.mem_cons.mp hy with rfl | hy
        · exact not_lt.mp fun hlt => hz ⟨q, hq, hlt⟩
        · exact hrest y hy q hq
      exact ⟨z :: l₁, x, l₂, rfl,
        ⟨p, hx, hp, fun y hy q hq => hp.trans_le (habove y hy q hq)⟩, habove⟩

/-- Behind an element that does not improve, none may. -/
theorem improversFirst_cons_of_not (hx : ¬ Improves key b [] x) :
    ImproversFirst key b (x :: l) ↔ ∀ y ∈ l, ∀ q, key y = some q → b ≤ q := by
  constructor
  · intro h y hy q hq
    by_contra hlt
    obtain ⟨l₁, z, l₂, rfl, ⟨p, hz, hp, -⟩, habove⟩ :=
      exists_improves (b := b) ⟨y, hy, q, hq, not_le.mp hlt⟩
    refine hx (h [] x l₁ z l₂ rfl ⟨p, hz, hp, fun w hw r hr => ?_⟩)
    rcases List.mem_cons.mp hw with rfl | hw
    · exact hp.trans_le (not_lt.mp fun hlt => hx (improves_nil.mpr ⟨r, hr, hlt⟩))
    · exact hp.trans_le (habove w hw r hr)
  · intro h l₁ y l₂ z l₃ hl hz
    have hmem : z ∈ l := by
      cases l₁ with
      | nil =>
        obtain ⟨-, rfl⟩ := List.cons.inj hl
        exact List.mem_append_right _ (List.mem_cons_self ..)
      | cons w l₁ =>
        obtain ⟨-, rfl⟩ := List.cons.inj hl
        exact List.mem_append_right _ (List.mem_cons_self ..)
    obtain ⟨q, hq, hlt, -⟩ := hz
    exact absurd hlt (not_lt.mpr (h z hmem q hq))

omit [LinearOrder β] in
theorem keys_cons_some (hx : key x = some p) : keys key (x :: l) = insert p (keys key l) := by
  ext q
  constructor
  · rintro ⟨y, hy, hq⟩
    rcases List.mem_cons.mp hy with rfl | hy
    · exact Or.inl (Option.some.inj (hq.symm.trans hx))
    · exact Or.inr ⟨y, hy, hq⟩
  · rintro (rfl | ⟨y, hy, hq⟩)
    · exact ⟨x, List.mem_cons_self .., hx⟩
    · exact ⟨y, List.mem_cons_of_mem _ hy, hq⟩

/-- A bound above one of the keys does not count. -/
theorem isLeast_insert_of_lt {s : Set β} (hp : p ∈ s) (hlt : p < b) {r : β} :
    IsLeast (insert b s) r ↔ IsLeast s r := by
  constructor
  · rintro ⟨hr | hr, hle⟩
    · exact absurd (hle (Set.mem_insert_of_mem b hp)) (not_le.mpr (hr ▸ hlt))
    · exact ⟨hr, fun q hq => hle (Set.mem_insert_of_mem b hq)⟩
  · rintro ⟨hr, hle⟩
    refine ⟨Set.mem_insert_of_mem b hr, ?_⟩
    rintro q (rfl | hq)
    · exact (hle hp).trans hlt.le
    · exact hle hq

theorem isLeast_insert_iff {s : Set β} : IsLeast (insert b s) b ↔ ∀ q ∈ s, b ≤ q :=
  ⟨fun h _ hq => h.2 (Set.mem_insert_of_mem b hq), fun h =>
    ⟨Set.mem_insert b s, fun _ hq => hq.elim (fun hb => hb.ge) (h _)⟩⟩

/-- **THE LOOP FINDS THE LEAST KEY** if and only if the elements that improve
    come first. -/
theorem descend_isLeast_iff (key : α → Option β) (l : List α) :
    ∀ b, IsLeast (insert b (keys key l)) (descend key b l) ↔
      ImproversFirst key b l := by
  induction l with
  | nil =>
    intro b
    refine iff_of_true (isLeast_insert_iff.mpr fun _ ⟨_, hx, _⟩ => nomatch hx) ?_
    intro l₁ x l₂ y l₃ hl
    exact absurd (congrArg List.length hl) (by simp)
  | cons x l ih =>
    intro b
    by_cases hx : Improves key b [] x
    · obtain ⟨p, hk, hp⟩ := improves_nil.mp hx
      rw [descend_cons_of_lt hk hp, keys_cons_some hk,
        isLeast_insert_of_lt (Set.mem_insert p _) hp, ih,
        improversFirst_cons_of_lt hk hp]
    · rw [descend_cons_of_not hx, isLeast_insert_iff, improversFirst_cons_of_not hx]
      constructor
      · exact fun h y hy q hq => h q ⟨y, List.mem_cons_of_mem _ hy, hq⟩
      · rintro h q ⟨y, hy, hq⟩
        rcases List.mem_cons.mp hy with rfl | hy
        · exact not_lt.mp fun hlt => hx (improves_nil.mpr ⟨q, hq, hlt⟩)
        · exact h y hy q hq

end RtaiMinima
