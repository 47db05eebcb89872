import Mathlib

/-! # Sums over parties

    Finitely many parties, each in a place of its own that counts for something:
    what the sum is after one of them has moved, and who can have a share in a
    sum that is at most 1. -/

namespace RtaiTallies

variable {T P : Type} [finT : Fintype T] [decT : DecidableEq T]

/-- Only the share of the party that moves changes. -/
theorem sum_moved (g : P → Nat) (f : T → P) (t : T) (p : P) :
    (∑ u, g (Function.update f t p u)) + g (f t) = (∑ u, g (f u)) + g p := by
  have hupdate : ∀ u, g (Function.update f t p u) =
      Function.update (fun u => g (f u)) t (g p) u := by
    intro u
    exact Function.apply_update (fun _ => g) f t p u
  simp only [hupdate]
  rw [Finset.sum_update_of_mem (Finset.mem_univ t),
    ← Finset.add_sum_erase Finset.univ (fun u => g (f u)) (Finset.mem_univ t),
    Finset.sdiff_singleton_eq_erase]
  omega

theorem sum_update (f : T → Nat) (t : T) (n : Nat) :
    (∑ u, Function.update f t n u) + f t = (∑ u, f u) + n :=
  sum_moved id f t n

omit decT in
theorem share_le (f : T → Nat) (t : T) : f t ≤ ∑ u, f u :=
  Finset.single_le_sum (fun _ _ => Nat.zero_le _) (Finset.mem_univ t)

/-- Two parties have no more than all of them. -/
theorem shares_le (f : T → Nat) {t u : T} (h : u ≠ t) : f t + f u ≤ ∑ v, f v := by
  have hsum := Finset.add_sum_erase Finset.univ f (Finset.mem_univ t)
  have hle : f u ≤ ∑ v ∈ Finset.univ.erase t, f v :=
    Finset.single_le_sum (fun _ _ => Nat.zero_le _)
      (Finset.mem_erase.mpr ⟨h, Finset.mem_univ u⟩)
  omega

/-- Who has something is the only one that has. -/
theorem only_one {f : T → Nat} (hsum : ∑ v, f v ≤ 1) {t u : T} (ht : 0 < f t)
    (hu : 0 < f u) : u = t := by
  by_contra hne
  have hle := shares_le f hne
  omega

omit decT in
theorem sum_pos {f : T → Nat} : 0 < ∑ u, f u ↔ ∃ u, 0 < f u := by
  constructor
  · intro h
    obtain ⟨u, -, hu⟩ := Finset.exists_ne_zero_of_sum_ne_zero (Nat.pos_iff_ne_zero.mp h)
    exact ⟨u, Nat.pos_iff_ne_zero.mpr hu⟩
  · rintro ⟨u, hu⟩
    exact lt_of_lt_of_le hu (share_le f u)

end RtaiTallies
