import Mathlib

/-! # Chains

    A list in memory: from a head, each element leads to the next one, up to
    an end.  A walk stops at `null`. -/

namespace RtaiChains

variable {A : Type} {null t u h x : A} {next next' : A → A} {l l' : List A}

/-- From a head through a list to `t`. -/
def Chain (null : A) (next : A → A) (t : A) : A → List A → Prop
  | h, [] => h = t
  | h, x :: l => h = x ∧ x ≠ null ∧ Chain null next t (next x) l

/-- What a walk from a head comes to. -/
inductive OnList (null : A) (next : A → A) : A → A → Prop
  | head {h : A} : h ≠ null → OnList null next h h
  | tail {h x : A} : h ≠ null → OnList null next (next h) x → OnList null next h x

theorem chain_append : Chain null next t h (l ++ l') ↔
    ∃ u, Chain null next u h l ∧ Chain null next t u l' := by
  induction l generalizing h with
  | nil =>
    constructor
    · intro hl
      exact ⟨h, rfl, hl⟩
    · rintro ⟨u, rfl, hl⟩
      exact hl
  | cons x l ih =>
    constructor
    · rintro ⟨hx, hne, hl⟩
      obtain ⟨u, hl, hl'⟩ := ih.mp hl
      exact ⟨u, ⟨hx, hne, hl⟩, hl'⟩
    · rintro ⟨u, ⟨hx, hne, hl⟩, hl'⟩
      exact ⟨hx, hne, ih.mpr ⟨u, hl, hl'⟩⟩

/-- One more at the end. -/
theorem chain_snoc : Chain null next t h (l ++ [x]) ↔
    Chain null next x h l ∧ x ≠ null ∧ next x = t := by
  rw [chain_append]
  constructor
  · rintro ⟨u, hl, rfl, hne, ht⟩
    exact ⟨hl, hne, ht⟩
  · rintro ⟨hl, hne, ht⟩
    exact ⟨x, hl, rfl, hne, ht⟩

/-- Links elsewhere do not matter. -/
theorem chain_congr (hl : Chain null next t h l)
    (hn : ∀ x ∈ l, next' x = next x) : Chain null next' t h l := by
  induction l generalizing h with
  | nil => exact hl
  | cons x l ih =>
    obtain ⟨hx, hne, hl⟩ := hl
    have hsame := hn x (List.mem_cons_self ..)
    refine ⟨hx, hne, ih ?_ fun y hy => hn y (List.mem_cons_of_mem x hy)⟩
    rw [hsame]
    exact hl

theorem chain_ne_null (hl : Chain null next t h l) (hx : x ∈ l) : x ≠ null := by
  induction l generalizing h with
  | nil => exact nomatch hx
  | cons y l ih =>
    obtain ⟨-, hne, hl⟩ := hl
    cases hx with
    | head => exact hne
    | tail _ hx => exact ih hl hx

/-- An empty chain, and one that is not. -/
theorem chain_of_null (hl : Chain null next null null l) : l = [] := by
  cases l with
  | nil => rfl
  | cons x l => exact absurd hl.1.symm hl.2.1

theorem chain_cons_of_ne (hl : Chain null next null h l) (hne : h ≠ null) :
    ∃ l', l = h :: l' ∧ Chain null next null (next h) l' := by
  cases l with
  | nil => exact absurd hl hne
  | cons x l =>
    obtain ⟨rfl, -, hl⟩ := hl
    exact ⟨l, rfl, hl⟩

/-- **A walk** comes to the elements of the chain. -/
theorem onList_iff (hl : Chain null next null h l) : OnList null next h x ↔ x ∈ l := by
  induction l generalizing h with
  | nil =>
    have hnull : h = null := hl
    subst hnull
    constructor
    · intro hx
      cases hx with
      | head hne => exact absurd rfl hne
      | tail hne _ => exact absurd rfl hne
    · exact nofun
  | cons y l ih =>
    obtain ⟨rfl, hne, hl⟩ := hl
    constructor
    · intro hx
      cases hx with
      | head _ => exact List.mem_cons_self ..
      | tail _ hx => exact List.mem_cons_of_mem _ ((ih hl).mp hx)
    · intro hx
      cases hx with
      | head => exact OnList.head hne
      | tail _ hx => exact OnList.tail hne ((ih hl).mpr hx)

variable [DecidableEq A]

/-- The last element gets another successor. -/
theorem chain_redirect (hl : Chain null next t h (l ++ [x])) (hx : x ∉ l) :
    Chain null (Function.update next x u) u h (l ++ [x]) := by
  obtain ⟨hl, hne, -⟩ := chain_snoc.mp hl
  refine chain_snoc.mpr ⟨chain_congr hl fun y hy => ?_, hne, Function.update_self ..⟩
  have hyx : y ≠ x := ne_of_mem_of_not_mem hy hx
  exact Function.update_of_ne hyx ..

/-- Links of other elements. -/
theorem chain_update (hl : Chain null next t h l) (hx : x ∉ l) :
    Chain null (Function.update next x u) t h l :=
  chain_congr hl fun _ hy =>
    Function.update_of_ne (ne_of_mem_of_not_mem hy hx) ..

/-- A new first element. -/
theorem chain_push (hl : Chain null next null h l) (hne : x ≠ null) (hx : x ∉ l) :
    Chain null (Function.update next x h) null x (x :: l) := by
  refine ⟨rfl, hne, ?_⟩
  rw [Function.update_self]
  exact chain_update hl hx

end RtaiChains
