import Mathlib

/-! # Open addressing with linear probing

    A column of a table has the seats `1, ..., n`; each holds a key, 0 when it
    has nothing behind it, or 1 when a key has been taken away and a search has
    to go on.  A key is looked for from its home on, round the table.

    `Column` is what keeps the searches right: nothing between a key and its
    home is 0.  A key is put on the first seat without a key, and a key that is
    taken away leaves 0 when the next seat holds 0, else 1. -/

namespace RtaiProbing

/-! ## Seats -/

/-- The seat after `k`. -/
def next (n k : Nat) : Nat := if k + 1 > n then 1 else k + 1

/-- Where the search for `v` begins. -/
def home (n v : Nat) : Nat := v % n + 1

/-- The seat `m` steps from `i`. -/
def seat (n i m : Nat) : Nat := (i - 1 + m) % n + 1

/-- The seats of the table. -/
def Seat (n k : Nat) : Prop := 1 ≤ k ∧ k ≤ n

section Seats

variable {n i k m : Nat}

theorem seat_home (hn : 0 < n) (v : Nat) : Seat n (home n v) := by
  have := Nat.mod_lt v hn
  unfold Seat home
  omega

theorem seat_seat (hn : 0 < n) (i m : Nat) : Seat n (seat n i m) := by
  have := Nat.mod_lt (i - 1 + m) hn
  unfold Seat seat
  omega

theorem seat_zero (h : Seat n i) : seat n i 0 = i := by
  obtain ⟨h1, h2⟩ := h
  unfold seat
  rw [Nat.add_zero, Nat.mod_eq_of_lt (by omega)]
  omega

/-- One step further. -/
theorem seat_succ (hn : 0 < n) (i m : Nat) : seat n i (m + 1) = next n (seat n i m) := by
  have hlt := Nat.mod_lt (i - 1 + m) hn
  unfold seat next
  rw [← Nat.add_assoc, Nat.add_mod (i - 1 + m) 1 n]
  by_cases hlast : (i - 1 + m) % n + 1 = n
  · rw [if_pos (by omega)]
    by_cases h1 : n = 1
    · subst h1
      rw [Nat.mod_one]
    · rw [Nat.mod_eq_of_lt (show 1 < n by omega), hlast, Nat.mod_self]
  · rw [if_neg (by omega), Nat.mod_eq_of_lt (show 1 < n by omega), Nat.mod_eq_of_lt (by omega)]

/-- A search comes back after `n` steps and not before. -/
theorem seat_eq_self (h : Seat n i) (hm : 0 < m) (hmn : m ≤ n) : seat n i m = i ↔ m = n := by
  obtain ⟨h1, h2⟩ := h
  unfold seat
  constructor
  · intro heq
    by_contra hne
    by_cases hlt : i - 1 + m < n
    · rw [Nat.mod_eq_of_lt hlt] at heq
      omega
    · rw [Nat.mod_eq_sub_mod (by omega), Nat.mod_eq_of_lt (by omega)] at heq
      omega
  · rintro rfl
    rw [Nat.add_mod_right, Nat.mod_eq_of_lt (by omega)]
    omega

/-- Fewer than `n` steps lead to different seats. -/
theorem seat_injective {m' : Nat} (h : Seat n i) (hm : m < n) (hm' : m' < n)
    (heq : seat n i m = seat n i m') : m = m' := by
  obtain ⟨h1, h2⟩ := h
  unfold seat at heq
  have hmod : (i - 1 + m) % n = (i - 1 + m') % n := by omega
  have hcong : Nat.ModEq n (i - 1 + m) (i - 1 + m') := hmod
  exact Nat.ModEq.eq_of_lt_of_lt (Nat.ModEq.add_left_cancel' _ hcong) hm hm'

/-- Every seat is reached, in fewer than `n` steps. -/
theorem exists_seat (hi : Seat n i) (hk : Seat n k) : ∃ m, m < n ∧ seat n i m = k := by
  obtain ⟨h1, h2⟩ := hi
  obtain ⟨h3, h4⟩ := hk
  unfold seat
  by_cases hle : i ≤ k
  · refine ⟨k - i, by omega, ?_⟩
    rw [Nat.mod_eq_of_lt (by omega)]
    omega
  · refine ⟨n - i + k, by omega, ?_⟩
    have hsum : i - 1 + (n - i + k) = k - 1 + n := by omega
    rw [hsum, Nat.add_mod_right, Nat.mod_eq_of_lt (by omega)]
    omega

end Seats

/-! ## The search -/

/-- `while (busy(k)) { if (++k > n) k = 1; if (k == i) return; }` -/
def probe (n i : Nat) (busy : Nat → Bool) : Nat → Nat → Option Nat
  | 0, _ => none
  | fuel + 1, k =>
    if busy k then
      if next n k = i then none else probe n i busy fuel (next n k)
    else some k

/-- The search for a key stops at the first seat that is not busy. -/
def search (n v : Nat) (busy : Nat → Bool) : Option Nat :=
  probe n (home n v) busy n (home n v)

section Search

variable {n v : Nat} {busy : Nat → Bool}

theorem probe_spec {i : Nat} (hi : Seat n i) : ∀ fuel m, m + fuel = n → 0 < fuel →
      (∀ j, j < m → busy (seat n i j) = true) →
      (∃ d, d < n ∧ probe n i busy fuel (seat n i m) = some (seat n i d) ∧
        busy (seat n i d) = false ∧
        ∀ j, j < d → busy (seat n i j) = true) ∨
      (probe n i busy fuel (seat n i m) = none ∧ ∀ j, j < n → busy (seat n i j) = true) := by
  have hn : 0 < n := by
    obtain ⟨h1, h2⟩ := hi
    omega
  intro fuel
  -- the search has gone `m` steps, and `fuel` are left
  induction fuel with
  | zero => intro m _ h0; exact absurd h0 (lt_irrefl 0)
  | succ fuel ih =>
    intro m hm _ hbusy
    simp only [probe]
    cases hb : busy (seat n i m) with
    | false =>
      left
      exact ⟨m, by omega, rfl, hb, hbusy⟩
    | true =>
      have hbusy' : ∀ j, j < m + 1 → busy (seat n i j) = true := by
        intro j hj
        by_cases hjm : j = m
        · rw [hjm]
          exact hb
        · exact hbusy j (by omega)
      rw [if_pos rfl, ← seat_succ hn]
      by_cases hback : seat n i (m + 1) = i
      · have hall : m + 1 = n :=
          (seat_eq_self hi (Nat.succ_pos m) (by omega)).mp hback
        rw [if_pos hback]
        right
        exact ⟨rfl, fun j hj => hbusy' j (by omega)⟩
      · have hne : m + 1 ≠ n := fun h =>
          hback ((seat_eq_self hi (Nat.succ_pos m) (by omega)).mpr h)
        rw [if_neg hback]
        exact ih (m + 1) (by omega) (by omega) hbusy'

/-- **Where a search ends**: at the first seat that is not busy, or nowhere
    when all are. -/
theorem search_spec (hn : 0 < n) (v : Nat) (busy : Nat → Bool) :
    (∃ d, d < n ∧ search n v busy = some (seat n (home n v) d) ∧
      busy (seat n (home n v) d) = false ∧
      ∀ j, j < d → busy (seat n (home n v) j) = true) ∨
    (search n v busy = none ∧ ∀ k, Seat n k → busy k = true) := by
  have hi := seat_home hn v
  have h := @probe_spec n busy _ hi n 0 (Nat.zero_add n) hn
    (fun j hj => absurd hj (Nat.not_lt_zero j))
  rw [seat_zero hi] at h
  rcases h with h | ⟨h, hall⟩
  · exact Or.inl h
  · right
    refine ⟨h, ?_⟩
    intro k hk
    obtain ⟨m, hm, rfl⟩ := exists_seat hi hk
    exact hall m hm

end Search

/-! ## Columns -/

/-- **A COLUMN WHOSE SEARCHES ARE RIGHT**: nothing between a key and its home
    is 0, and no key has two seats. -/
structure Column (n : Nat) (f : Nat → Nat) : Prop where
  reached : ∀ v m, 1 < v → m < n → f (seat n (home n v) m) = v →
    ∀ j, j < m → f (seat n (home n v) j) ≠ 0
  once : ∀ k k', Seat n k → Seat n k' → 1 < f k → f k = f k' → k = k'

/-- The search for a key that is to be found. -/
def lookup (n v : Nat) (f : Nat → Nat) : Option Nat :=
  search n v fun k => decide (f k ≠ 0 ∧ f k ≠ v)

/-- The search for a seat that a key may be put on. -/
def vacancy (n v : Nat) (f : Nat → Nat) : Option Nat :=
  search n v fun k => decide (1 < f k ∧ f k ≠ v)

/-- What a seat holds when its key has been taken away. -/
def vacated (n : Nat) (f : Nat → Nat) (k : Nat) : Nat :=
  if f (next n k) = 0 then 0 else 1

theorem vacated_le (n : Nat) (f : Nat → Nat) (k : Nat) : vacated n f k ≤ 1 := by
  unfold vacated
  split <;> omega

theorem column_empty (n : Nat) : Column n fun _ => 0 where
  reached := by
    intro v m hv _ hf
    omega
  once := by
    intro k k' _ _ h
    exact absurd h (Nat.not_lt_zero 1)

section Column

variable {n v k : Nat} {f : Nat → Nat}

/-- **A key that has a seat is found.** -/
theorem Column.finds (C : Column n f) (hn : 0 < n) (hv : 1 < v)
    (hk : Seat n k) (hf : f k = v) : lookup n v f = some k := by
  obtain ⟨m, hm, rfl⟩ := exists_seat (seat_home hn v) hk
  have hbefore := C.reached v m hv hm hf
  rcases search_spec hn v (fun k => decide (f k ≠ 0 ∧ f k ≠ v)) with
    ⟨d, hd, hs, hstop, hgo⟩ | ⟨-, hall⟩
  · rw [decide_eq_false_iff_not] at hstop
    -- the search stops neither before the key nor behind it
    have hdm : ¬ d < m := by
      intro hlt
      have hne := hbefore d hlt
      have hfd : f (seat n (home n v) d) = v := by
        by_contra h
        exact hstop ⟨hne, h⟩
      have hseat := C.once _ _ (seat_seat hn (home n v) d) hk
        (by rw [hfd]; exact hv) (hfd.trans hf.symm)
      exact absurd (seat_injective (seat_home hn v) hd hm hseat) (by omega)
    have hmd : ¬ m < d := by
      intro hlt
      have hgo := of_decide_eq_true (hgo m hlt)
      exact hgo.2 hf
    have heq : d = m := by omega
    rw [lookup, hs, heq]
  · exact absurd hf (of_decide_eq_true (hall _ hk)).2

/-- **A key that has no seat is not found**: the search ends on a seat that
    has nothing behind it, or nowhere when there is none. -/
theorem lookup_misses (hn : 0 < n) (hno : ∀ k, Seat n k → f k ≠ v) :
    (∃ k, Seat n k ∧ lookup n v f = some k ∧ f k = 0) ∨
      (lookup n v f = none ∧ ∀ k, Seat n k → f k ≠ 0) := by
  rcases search_spec hn v (fun k => decide (f k ≠ 0 ∧ f k ≠ v)) with
    ⟨d, hd, hs, hstop, hgo⟩ | ⟨hs, hall⟩
  · rw [decide_eq_false_iff_not] at hstop
    have hk := seat_seat hn (home n v) d
    left
    refine ⟨_, hk, hs, ?_⟩
    by_contra h
    exact hstop ⟨h, hno _ hk⟩
  · right
    exact ⟨hs, fun k hk => (of_decide_eq_true (hall k hk)).1⟩

/-- Where the search for a seat ends: on one that has the key or that a key
    may be put on, or nowhere. -/
theorem vacancy_cases (hn : 0 < n) (v : Nat) (f : Nat → Nat) :
    (∃ k, Seat n k ∧ vacancy n v f = some k ∧ (f k = v ∨ f k ≤ 1)) ∨
      (vacancy n v f = none ∧ ∀ k, Seat n k → 1 < f k) := by
  rcases search_spec hn v (fun k => decide (1 < f k ∧ f k ≠ v)) with
    ⟨d, hd, hs, hstop, -⟩ | ⟨hs, hall⟩
  · rw [decide_eq_false_iff_not] at hstop
    left
    refine ⟨_, seat_seat hn (home n v) d, hs, ?_⟩
    by_cases h1 : 1 < f (seat n (home n v) d)
    · left
      by_contra hne
      exact hstop ⟨h1, hne⟩
    · exact Or.inr (not_lt.mp h1)
  · right
    exact ⟨hs, fun k hk => (of_decide_eq_true (hall k hk)).1⟩

/-- **A new key is put on the first seat without a key.** -/
theorem Column.places (C : Column n f) (hn : 0 < n) (hv : 1 < v)
    (hno : ∀ k, Seat n k → f k ≠ v) :
    (∃ k, Seat n k ∧ vacancy n v f = some k ∧ f k ≤ 1 ∧ Column n (Function.update f k v)) ∨
      (vacancy n v f = none ∧ ∀ k, Seat n k → 1 < f k) := by
  rcases search_spec hn v (fun k => decide (1 < f k ∧ f k ≠ v)) with
    ⟨d, hd, hs, hstop, hgo⟩ | ⟨hs, hall⟩
  · rw [decide_eq_false_iff_not] at hstop
    have hk := seat_seat hn (home n v) d
    have hle : f (seat n (home n v) d) ≤ 1 := by
      by_contra h
      exact hstop ⟨by omega, hno _ hk⟩
    left
    refine ⟨_, hk, hs, hle, ?_, ?_⟩
    · intro w m hw hm hf j hj
      by_cases hjk : seat n (home n w) j = seat n (home n v) d
      · rw [hjk, Function.update_self]
        omega
      rw [Function.update_of_ne hjk]
      by_cases hmk : seat n (home n w) m = seat n (home n v) d
      · -- the new key itself: all the seats before it are taken
        rw [hmk, Function.update_self] at hf
        subst hf
        have hdm := seat_injective (seat_home hn v) hm hd hmk
        have := (of_decide_eq_true (hgo j (by omega))).1
        omega
      · rw [Function.update_of_ne hmk] at hf
        exact C.reached w m hw hm hf j hj
    · intro a b ha hb h1 heq
      by_cases hak : a = seat n (home n v) d
      · by_cases hbk : b = seat n (home n v) d
        · rw [hak, hbk]
        · rw [hak, Function.update_self, Function.update_of_ne hbk] at heq
          exact absurd heq.symm (hno b hb)
      · rw [Function.update_of_ne hak] at h1 heq
        by_cases hbk : b = seat n (home n v) d
        · rw [hbk, Function.update_self] at heq
          exact absurd heq (hno a ha)
        · rw [Function.update_of_ne hbk] at heq
          exact C.once a b ha hb h1 heq
  · right
    exact ⟨hs, fun k hk => (of_decide_eq_true (hall k hk)).1⟩

/-- **A key may be taken away.** -/
theorem Column.erases (C : Column n f) (hn : 0 < n) (hk : Seat n k)
    (hf : 1 < f k) : Column n (Function.update f k (vacated n f k)) where
  reached := by
    intro v m hv hm hfm j hj
    have hle := vacated_le n f k
    have hmk : seat n (home n v) m ≠ k := by
      rintro rfl
      rw [Function.update_self] at hfm
      omega
    rw [Function.update_of_ne hmk] at hfm
    have hbefore := C.reached v m hv hm hfm
    by_cases hjk : seat n (home n v) j = k
    · -- the seat after an empty one is not before a key
      subst hjk
      rw [Function.update_self]
      unfold vacated
      rw [← seat_succ hn]
      by_cases hjm : j + 1 = m
      · rw [hjm, hfm, if_neg (by omega)]
        exact Nat.one_ne_zero
      · rw [if_neg (hbefore (j + 1) (by omega))]
        exact Nat.one_ne_zero
    · rw [Function.update_of_ne hjk]
      exact hbefore j hj
  once := by
    intro a b ha hb h1 heq
    have hle := vacated_le n f k
    have hak : a ≠ k := by
      rintro rfl
      rw [Function.update_self] at h1
      omega
    rw [Function.update_of_ne hak] at h1 heq
    have hbk : b ≠ k := by
      rintro rfl
      rw [Function.update_self] at heq
      omega
    rw [Function.update_of_ne hbk] at heq
    exact C.once a b ha hb h1 heq

end Column

/-! ## How many keys there are -/

/-- The seats that hold a key. -/
def taken (n : Nat) (f : Nat → Nat) : Finset Nat :=
  (Finset.Icc 1 n).filter fun k => 1 < f k

section Taken

variable {n k : Nat} {f : Nat → Nat}

theorem mem_taken : k ∈ taken n f ↔ Seat n k ∧ 1 < f k := by
  unfold taken
  rw [Finset.mem_filter, Finset.mem_Icc]
  rfl

/-- There are at most as many keys as seats, and as many only when there is no
    seat without one. -/
theorem card_taken_le : (taken n f).card ≤ n := by
  have h := Finset.card_filter_le (Finset.Icc 1 n) fun k => 1 < f k
  rw [Nat.card_Icc] at h
  exact h

theorem card_taken_eq : (taken n f).card = n ↔ ∀ k, Seat n k → 1 < f k := by
  have hcard : (Finset.Icc 1 n).card = n := by
    rw [Nat.card_Icc]
    rfl
  constructor
  · intro h k hk
    have hsub : taken n f ⊆ Finset.Icc 1 n := Finset.filter_subset ..
    have heq := Finset.eq_of_subset_of_card_le hsub (by omega)
    exact (mem_taken.mp (heq ▸ Finset.mem_Icc.mpr hk)).2
  · intro h
    have heq : taken n f = Finset.Icc 1 n :=
      Finset.filter_true_of_mem fun k hk => h k (Finset.mem_Icc.mp hk)
    rw [heq, hcard]

end Taken

end RtaiProbing
