import Mathlib

/-! # Rings with free-running counters

    A buffer of `size` cells and two counters that run modulo `modulus`, a
    multiple of `size`; a counter stands for the cell it is congruent to.
    Posting looks at neither the other counter nor the cell it overwrites.

    A ring that records what has been posted and what has been taken is exact
    as long as the two differ by what is in the ring.  A post keeps it exact if
    and only if it `Fits`. -/

namespace RtaiCounterRing

/-- The cells and the counters. -/
structure CounterRing (size modulus : Nat) (α : Type) where
  cell : Nat → Option α
  inn : Nat
  out : Nat
  inn_lt : inn < modulus
  out_lt : out < modulus

variable {size modulus : Nat} {α : Type}

namespace CounterRing

/-- The number of posts not yet taken, as the counters tell it. -/
def held (r : CounterRing size modulus α) : Nat :=
  (r.inn + modulus - r.out) % modulus

/-- What is in the ring, the next to be taken first. -/
def contents (r : CounterRing size modulus α) : List (Option α) :=
  (List.range r.held).map fun i => r.cell ((r.out + i) % size)

/-- An element at the write index. -/
def post (r : CounterRing size modulus α) (a : α) : CounterRing size modulus α where
  cell := Function.update r.cell (r.inn % size) (some a)
  inn := (r.inn + 1) % modulus
  out := r.out
  inn_lt := Nat.mod_lt _ (Nat.zero_lt_of_lt r.inn_lt)
  out_lt := r.out_lt

/-- The next entry is taken, unless the counters agree. -/
def takeOne (r : CounterRing size modulus α) :
    Option (Option α × CounterRing size modulus α) :=
  if r.out = r.inn then none
  else some (r.cell (r.out % size),
    { r with
      out := (r.out + 1) % modulus
      out_lt := Nat.mod_lt _ (Nat.zero_lt_of_lt r.out_lt) })

/-- A post that overwrites no entry still to be taken, except by the same, and
    does not make the ring look empty. -/
def Fits (r : CounterRing size modulus α) (a : α) : Prop :=
  r.held + 1 < modulus ∧ (r.held < size ∨ r.cell (r.inn % size) = some a)

end CounterRing

section Counters

variable {r : CounterRing size modulus α} {a : α}

theorem held_lt (r : CounterRing size modulus α) : r.held < modulus :=
  Nat.mod_lt _ (Nat.zero_lt_of_lt r.inn_lt)

/-- The counter of posts is `held` ahead of the other one. -/
theorem out_add_held (r : CounterRing size modulus α) :
    (r.out + r.held) % modulus = r.inn := by
  have h1 := r.inn_lt
  have h2 := r.out_lt
  have hsum : r.out + (r.inn + modulus - r.out) = r.inn + modulus := by omega
  rw [CounterRing.held, Nat.add_mod_mod, hsum, Nat.add_mod_right, Nat.mod_eq_of_lt h1]

theorem held_eq_zero : r.held = 0 ↔ r.out = r.inn := by
  constructor
  · intro h
    have := out_add_held r
    rw [h, Nat.add_zero, Nat.mod_eq_of_lt r.out_lt] at this
    exact this
  · intro h
    have h1 := r.inn_lt
    have hsum : r.inn + modulus - r.out = modulus := by omega
    rw [CounterRing.held, hsum, Nat.mod_self]

/-- `held` is the only distance below `modulus`. -/
theorem held_unique {n : Nat} (hn : n < modulus)
    (h : (r.out + n) % modulus = r.inn) : n = r.held := by
  have heq : (r.out + n) % modulus = (r.out + r.held) % modulus :=
    h.trans (out_add_held r).symm
  have hmod : n ≡ r.held [MOD modulus] := Nat.ModEq.add_left_cancel' r.out heq
  exact Nat.ModEq.eq_of_lt_of_lt hmod hn (held_lt r)

theorem held_post (h : r.held + 1 < modulus) : (r.post a).held = r.held + 1 := by
  refine (held_unique h ?_).symm
  show (r.out + (r.held + 1)) % modulus = (r.inn + 1) % modulus
  rw [← Nat.add_assoc, ← Nat.mod_add_mod, out_add_held]

/-- One post too many, and the ring looks empty. -/
theorem held_post_full (h : r.held + 1 = modulus) : (r.post a).held = 0 := by
  refine (held_unique (by omega) ?_).symm
  show (r.out + 0) % modulus = (r.inn + 1) % modulus
  have hround : r.out + r.held + 1 = r.out + modulus := by omega
  calc (r.out + 0) % modulus = (r.out + modulus) % modulus := by
        rw [Nat.add_zero, Nat.add_mod_right]
    _ = (r.out + r.held + 1) % modulus := by rw [hround]
    _ = (r.inn + 1) % modulus := by rw [← Nat.mod_add_mod, out_add_held]

/-- The cell of the next post. -/
theorem cell_of_inn (hd : size ∣ modulus) (r : CounterRing size modulus α) :
    (r.out + r.held) % size = r.inn % size := by
  rw [← out_add_held r, Nat.mod_mod_of_dvd _ hd]

/-- Is the cell of the next post one that is still to be taken? -/
theorem pending_cell_iff (hd : size ∣ modulus) (hs : 0 < size) :
    (∃ i, i < r.held ∧ (r.out + i) % size = r.inn % size) ↔ size ≤ r.held := by
  constructor
  · rintro ⟨i, hi, h⟩
    by_contra hlt
    rw [← cell_of_inn hd r] at h
    have hmod : i ≡ r.held [MOD size] := Nat.ModEq.add_left_cancel' r.out h
    have := Nat.ModEq.eq_of_lt_of_lt hmod (by omega) (by omega)
    omega
  · intro h
    refine ⟨r.held - size, by omega, ?_⟩
    rw [← cell_of_inn hd r]
    have hsum : r.out + r.held = r.out + (r.held - size) + size := by omega
    rw [hsum, Nat.add_mod_right]

theorem contents_post (hd : size ∣ modulus) (h : r.held + 1 < modulus) : (r.post a).contents =
      (List.range r.held).map (fun i => (r.post a).cell ((r.out + i) % size)) ++ [some a] := by
  have hlast : (r.post a).cell ((r.out + r.held) % size) = some a := by
    rw [cell_of_inn hd]
    exact Function.update_self ..
  rw [CounterRing.contents, held_post h, List.range_succ, List.map_append, List.map_singleton]
  exact congrArg (fun x => _ ++ [x]) hlast

/-- What was in the ring is still there. -/
theorem contents_kept_iff (hd : size ∣ modulus) (hs : 0 < size) :
    (List.range r.held).map (fun i => (r.post a).cell ((r.out + i) % size)) = r.contents ↔
      (r.held < size ∨ r.cell (r.inn % size) = some a) := by
  have hcell : ∀ n, (r.post a).cell n =
      if n = r.inn % size then some a else r.cell n := by
    intro n
    show Function.update r.cell (r.inn % size) (some a) n = _
    rw [Function.update_apply]
  rw [CounterRing.contents, List.map_inj_left]
  constructor
  · intro h
    by_cases hlt : r.held < size
    · exact .inl hlt
    · obtain ⟨i, hi, hin⟩ := (pending_cell_iff hd hs).mpr (not_lt.mp hlt)
      have := h i (List.mem_range.mpr hi)
      rw [hcell, if_pos hin, hin] at this
      exact .inr this.symm
  · rintro (hlt | hsame) i hi
    · have hne : (r.out + i) % size ≠ r.inn % size := fun hin =>
        (not_le.mpr hlt) ((pending_cell_iff hd hs).mp ⟨i, List.mem_range.mp hi, hin⟩)
      rw [hcell, if_neg hne]
    · rw [hcell]
      split
      next hin => rw [hin, hsame]
      next => rfl

theorem contents_takeOne (hd : size ∣ modulus) {r' : CounterRing size modulus α}
    {x : Option α} (h : r.takeOne = some (x, r')) :
    r.contents = x :: r'.contents := by
  simp only [CounterRing.takeOne] at h
  split at h
  next => exact nomatch h
  next hne =>
    obtain ⟨rfl, rfl⟩ := Prod.mk.inj (Option.some.inj h)
    have hpos : 0 < r.held := Nat.pos_of_ne_zero fun h0 => hne (held_eq_zero.mp h0)
    obtain ⟨n, hn⟩ : ∃ n, r.held = n + 1 := ⟨r.held - 1, by omega⟩
    have hlt := held_lt r
    have hheld : n = @CounterRing.held size modulus α
        { r with
          out := (r.out + 1) % modulus
          out_lt := Nat.mod_lt _ (Nat.zero_lt_of_lt r.out_lt) } := by
      refine held_unique (by omega) ?_
      show ((r.out + 1) % modulus + n) % modulus = r.inn
      rw [Nat.mod_add_mod, Nat.add_assoc, Nat.add_comm 1 n, ← hn, out_add_held]
    rw [CounterRing.contents, hn, List.range_succ_eq_map, List.map_cons,
      List.map_map, CounterRing.contents, ← hheld, Nat.add_zero]
    refine congrArg (List.cons _) (List.map_congr_left fun i _ => ?_)
    show r.cell ((r.out + (i + 1)) % size) = r.cell (((r.out + 1) % modulus + i) % size)
    rw [Nat.add_mod ((r.out + 1) % modulus), Nat.mod_mod_of_dvd _ hd,
      ← Nat.add_mod, Nat.add_assoc, Nat.add_comm 1 i]

theorem length_contents (r : CounterRing size modulus α) : r.contents.length = r.held := by
  rw [CounterRing.contents, List.length_map, List.length_range]

end Counters

/-! ## Posts and takings -/

/-- A ring with the record of what has been posted and what taken. -/
structure Traced (size modulus : Nat) (α : Type) where
  ring : CounterRing size modulus α
  posted : List α
  taken : List (Option α)

namespace Traced

/-- A post, noted. -/
def post (t : Traced size modulus α) (a : α) : Traced size modulus α :=
  { t with ring := t.ring.post a, posted := t.posted ++ [a] }

/-- A removal, noted. -/
def takeOne (t : Traced size modulus α) : Option (Option α × Traced size modulus α) :=
  t.ring.takeOne.map fun r =>
    (r.1, { t with ring := r.2, taken := t.taken ++ [r.1] })

/-- What has been taken and what is in the ring is what has been posted, in
    this order. -/
def Exact (t : Traced size modulus α) : Prop :=
  t.taken ++ t.ring.contents = t.posted.map some

theorem Exact.length {t : Traced size modulus α} (h : t.Exact) :
    t.taken.length + t.ring.held = t.posted.length := by
  have := congrArg List.length h
  rw [List.length_append, length_contents, List.length_map] at this
  exact this

/-- **A post keeps a ring exact if and only if it fits.** -/
theorem Exact.post_iff {t : Traced size modulus α} (h : t.Exact)
    (hd : size ∣ modulus) (hs : 0 < size) (a : α) :
    (t.post a).Exact ↔ t.ring.Fits a := by
  by_cases hlt : t.ring.held + 1 < modulus
  · have hposted : (t.posted ++ [a]).map some = (t.taken ++ t.ring.contents) ++ [some a] := by
      rw [List.map_append, ← (show _ = _ from h)]
      rfl
    show t.taken ++ (t.ring.post a).contents = (t.posted ++ [a]).map some ↔ _
    rw [hposted, contents_post hd hlt, ← List.append_assoc,
      List.append_left_inj, List.append_right_inj, contents_kept_iff hd hs]
    exact ⟨fun hc => ⟨hlt, hc⟩, fun hf => hf.2⟩
  · refine ⟨fun hex => ?_, fun hf => (hlt hf.1).elim⟩
    have hfull : t.ring.held + 1 = modulus := by
      have := held_lt t.ring
      omega
    have h1 := h.length
    have h2 := hex.length
    have h3 : (t.post a).ring.held = 0 := held_post_full hfull
    have h4 : (t.post a).posted.length = t.posted.length + 1 :=
      List.length_append
    have h5 : (t.post a).taken = t.taken := rfl
    rw [h3, h4, h5] at h2
    omega

/-- Taking keeps a ring exact. -/
theorem Exact.takeOne {t t' : Traced size modulus α} {x : Option α}
    (h : t.Exact) (hd : size ∣ modulus) (ht : t.takeOne = some (x, t')) :
    t'.Exact := by
  obtain ⟨⟨y, r⟩, hr, heq⟩ := Option.map_eq_some_iff.mp ht
  cases heq
  show (t.taken ++ [y]) ++ r.contents = t.posted.map some
  rw [List.append_assoc, List.singleton_append, ← contents_takeOne hd hr]
  exact h

/-- The posts of a list, one after the other. -/
def postAll (t : Traced size modulus α) (as : List α) : Traced size modulus α :=
  as.foldl post t

/-- Where the counters run modulo the number of cells, posts keep a ring exact
    if and only if there remains an empty cell. -/
theorem Exact.postAll_iff {size : Nat} {t : Traced size size α} (h : t.Exact)
    (hs : 0 < size) (as : List α) :
    (t.postAll as).Exact ↔ t.ring.held + as.length < size := by
  have hlen : ∀ (as : List α) (t : Traced size size α), (t.postAll as).taken = t.taken ∧
        (t.postAll as).posted.length = t.posted.length + as.length := by
    intro as
    induction as with
    | nil => exact fun _ => ⟨rfl, rfl⟩
    | cons a as ih =>
      intro t
      obtain ⟨h1, h2⟩ := ih (t.post a)
      refine ⟨h1, h2.trans ?_⟩
      show (t.posted ++ [a]).length + as.length = _
      simp only [List.length_append, List.length_cons, List.length_nil]
      omega
  constructor
  · intro hex
    have h1 := hex.length
    have h2 := h.length
    rw [(hlen as t).1, (hlen as t).2] at h1
    have := held_lt (t.postAll as).ring
    omega
  · clear hlen
    induction as generalizing t with
    | nil => exact fun _ => h
    | cons a as ih =>
      intro hroom
      have hroom : t.ring.held + (as.length + 1) < size := hroom
      have hfit : t.ring.Fits a := ⟨by omega, .inl (by omega)⟩
      refine ih ((h.post_iff (Nat.dvd_refl _) hs a).mpr hfit) ?_
      show (t.ring.post a).held + as.length < size
      rw [held_post hfit.1]
      omega

/-- An empty ring. -/
def empty (cell : Nat → Option α) (n : Nat) (hn : n < modulus) :
    Traced size modulus α where
  ring := ⟨cell, n, n, hn, hn⟩
  posted := []
  taken := []

theorem exact_empty (cell : Nat → Option α) (n : Nat) (hn : n < modulus) :
    (@empty size modulus α cell n hn).Exact := by
  have h0 : (@empty size modulus α cell n hn).ring.held = 0 :=
    held_eq_zero.mpr rfl
  show [] ++ CounterRing.contents _ = []
  rw [CounterRing.contents, h0]
  rfl

end Traced

end RtaiCounterRing
