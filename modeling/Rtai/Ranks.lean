import Mathlib

/-! # Ranks in a list

    The rank of an element is the number of elements with a smaller key. -/

namespace RtaiRanks

variable {α β : Type} [LinearOrder β] {f : α → β} {l : List α} {a b : α}

/-- How many come before. -/
def rank (f : α → β) (l : List α) (a : α) : Nat :=
  l.countP fun x => f x < f a

theorem rank_le (h : f a ≤ f b) : rank f l a ≤ rank f l b := by
  refine List.countP_mono_left fun x _ hx => ?_
  exact decide_eq_true ((of_decide_eq_true hx).trans_le h)

theorem rank_lt (ha : a ∈ l) (h : f a < f b) : rank f l a < rank f l b := by
  obtain ⟨l₁, l₂, rfl⟩ := List.append_of_mem ha
  have h1 : rank f l₁ a ≤ rank f l₁ b := rank_le h.le
  have h2 : rank f l₂ a ≤ rank f l₂ b := rank_le h.le
  unfold rank at h1 h2 ⊢
  rw [List.countP_append, List.countP_append, List.countP_cons, List.countP_cons,
    decide_eq_false (lt_irrefl (f a)), decide_eq_true h, if_neg Bool.false_ne_true,
    if_pos rfl]
  omega

theorem rank_lt_iff (ha : a ∈ l) : rank f l a < rank f l b ↔ f a < f b := by
  constructor
  · intro h
    by_contra hle
    exact absurd (rank_le (not_lt.mp hle)) (Nat.not_le.mpr h)
  · exact rank_lt ha

theorem rank_le_iff (hb : b ∈ l) : rank f l a ≤ rank f l b ↔ f a ≤ f b :=
  Nat.not_lt.symm.trans ((not_congr (rank_lt_iff hb)).trans not_lt)

theorem rank_lt_length (ha : a ∈ l) : rank f l a < l.length := by
  obtain ⟨l₁, l₂, rfl⟩ := List.append_of_mem ha
  have h1 : rank f l₁ a ≤ l₁.length := List.countP_le_length
  have h2 : rank f l₂ a ≤ l₂.length := List.countP_le_length
  unfold rank at h1 h2 ⊢
  rw [List.countP_append, List.countP_cons, decide_eq_false (lt_irrefl (f a)),
    if_neg Bool.false_ne_true, List.length_append, List.length_cons]
  omega

/-- **EVERY RANK IS TAKEN**, when no two elements have the same key. -/
theorem exists_rank (hl : l.Nodup) (hf : ∀ a ∈ l, ∀ b ∈ l, f a = f b → a = b)
    {i : Nat} (hi : i < l.length) : ∃ a ∈ l, rank f l a = i := by
  have hnodup : (l.map (rank f l)).Nodup := by
    refine hl.map_on fun a ha b hb heq => hf a ha b hb ?_
    exact le_antisymm ((rank_le_iff hb).mp (Nat.le_of_eq heq))
      ((rank_le_iff ha).mp (Nat.le_of_eq heq.symm))
  have hsub : l.map (rank f l) ⊆ List.range l.length := by
    intro i hi
    obtain ⟨a, ha, rfl⟩ := List.mem_map.mp hi
    exact List.mem_range.mpr (rank_lt_length ha)
  have hperm := (hnodup.subperm hsub).perm_of_length_le (by
    rw [List.length_map, List.length_range])
  exact List.mem_map.mp (hperm.mem_iff.mpr (List.mem_range.mpr hi))

end RtaiRanks
