import Mathlib

/-! # A stream laid round a ring of cells

    The elements of a stream have positions 0, 1, 2, … without end, and
    position `i` is kept in cell `i % N` of `N` cells.  A stretch of the stream
    is copied between the cells and a flat buffer in pieces, none of which goes
    past the last cell. -/

namespace RtaiStreamCells

variable {α : Type}

/-- A piece of a copy: `len` elements from cell `ring` on and from position
    `flat` of the flat buffer on. -/
structure Memcpy where
  ring : Int
  flat : Int
  len : Int
  deriving DecidableEq

/-- A cell of the piece. -/
def Memcpy.Covers (m : Memcpy) (a : Int) : Prop :=
  m.ring ≤ a ∧ a < m.ring + m.len

/-- The cells after a copy into the ring. -/
def Memcpy.toRing (m : Memcpy) (src cells : Int → α) : Int → α :=
  fun a =>
    if m.ring ≤ a ∧ a < m.ring + m.len then src (m.flat + (a - m.ring))
    else cells a

/-- The flat buffer after a copy from the ring. -/
def Memcpy.fromRing (m : Memcpy) (cells dst : Int → α) : Int → α :=
  fun k =>
    if m.flat ≤ k ∧ k < m.flat + m.len then cells (m.ring + (k - m.flat))
    else dst k

/-- The pieces copy the positions from `p + d` to `p + n`, in order. -/
def Tiles (N p n : Int) : Int → List Memcpy → Prop
  | d, [] => d = n
  | d, m :: ms =>
    m.flat = d ∧ m.ring = (p + d) % N ∧ 0 ≤ m.len ∧ m.ring + m.len ≤ N ∧
      Tiles N p n (d + m.len) ms

/-- The cells hold the stream `s` from position `a` to `b`. -/
def Laid (N : Int) (cells s : Int → α) (a b : Int) : Prop :=
  ∀ i, a ≤ i → i < b → cells (i % N) = s i

section Positions

variable {N i j a b : Int}

/-- Going on without passing the last cell. -/
theorem emod_add_of_le (hN : 0 < N) (hj : 0 ≤ j) (h : i % N + j < N) :
    (i + j) % N = i % N + j := by
  rw [← Int.emod_add_emod]
  have := Int.emod_nonneg i hN.ne'
  exact Int.emod_eq_of_lt (by omega) h

/-- Going on past the last cell. -/
theorem emod_add_of_ge (hN : 0 < N) (hj : j ≤ N) (h : N ≤ i % N + j) :
    (i + j) % N = i % N + j - N := by
  rw [← Int.emod_add_emod, ← Int.sub_emod_right]
  have := Int.emod_lt_of_pos i hN
  exact Int.emod_eq_of_lt (by omega) (by omega)

/-- Positions that are less than `N` apart have cells of their own. -/
theorem emod_ne (hij : i < j) (hji : j < i + N) : i % N ≠ j % N := by
  intro h
  have hN : 0 < N := by omega
  have hd : (j - i) % N = 0 := Int.emod_eq_emod_iff_emod_sub_eq_zero.mp h.symm
  rw [Int.emod_eq_of_lt (by omega) (by omega)] at hd
  omega

/-- How far it is from one cell to another, going up. -/
theorem gap_up (hN : 0 < N) (hab : a ≤ b) (hba : b < a + N) :
    (if b % N - a % N ≥ 0 then b % N - a % N else N + (b % N - a % N)) = b - a := by
  obtain ⟨k, rfl⟩ : ∃ k, b = a + k := ⟨b - a, by omega⟩
  have := Int.emod_nonneg a hN.ne'
  have := Int.emod_lt_of_pos a hN
  by_cases hk : a % N + k < N
  · rw [emod_add_of_le hN (by omega) hk, if_pos (by omega)]
    omega
  · rw [emod_add_of_ge hN (by omega) (by omega), if_neg (by omega)]
    omega

/-- How far it is back, over the cells that are left. -/
theorem gap_down (hN : 0 < N) (hab : a ≤ b) (hba : b < a + N) :
    (if a % N - b % N ≤ 0 then N + (a % N - b % N) else a % N - b % N) = N - (b - a) := by
  have h := gap_up hN hab hba
  split at h
  · rw [if_pos (by omega)]
    omega
  · rw [if_neg (by omega)]
    omega

end Positions

section Copying

variable {N p q n n' d d' : Int} {m : Memcpy} {ms : List Memcpy}

theorem Tiles.le (h : Tiles N p n d ms) : d ≤ n := by
  induction ms generalizing d with
  | nil => exact le_of_eq h
  | cons m ms ih =>
    have := ih h.2.2.2.2
    have := h.2.2.1
    omega

/-- Where a piece lies. -/
theorem Tiles.mem (h : Tiles N p n d ms) (hm : m ∈ ms) :
    d ≤ m.flat ∧ m.ring = (p + m.flat) % N ∧ 0 ≤ m.len ∧
      m.ring + m.len ≤ N ∧ m.flat + m.len ≤ n := by
  induction ms generalizing d with
  | nil => exact nomatch hm
  | cons m' ms ih =>
    obtain ⟨hf, hr, hl, hN, hrest⟩ := h
    rcases List.mem_cons.mp hm with rfl | hm
    · have := hrest.le
      exact ⟨by omega, by rw [hf]; exact hr, hl, hN, by omega⟩
    · obtain ⟨h1, h2⟩ := ih hrest hm
      exact ⟨by omega, h2⟩

/-- Copying in one piece. -/
theorem tiles_one (hn : 0 ≤ n) (h : p % N + n ≤ N) : Tiles N p n 0 [⟨p % N, 0, n⟩] := by
  refine ⟨rfl, ?_, hn, h, ?_⟩
  · rw [Int.add_zero]
  · show 0 + n = n
    omega

/-- Copying in two pieces, the second from cell 0 on. -/
theorem tiles_two (hN : 0 < N) (h : N - p % N ≤ n) (hn : n ≤ N) : Tiles N p n 0
      [⟨p % N, 0, N - p % N⟩, ⟨0, N - p % N, n - (N - p % N)⟩] := by
  have h0 := Int.emod_nonneg p hN.ne'
  have h1 := Int.emod_lt_of_pos p hN
  refine ⟨rfl, ?_, ?_, ?_, ?_, ?_, ?_, ?_, ?_⟩
  · rw [Int.add_zero]
  · show 0 ≤ N - p % N
    omega
  · show p % N + (N - p % N) ≤ N
    omega
  · show N - p % N = 0 + (N - p % N)
    omega
  · show 0 = (p + (0 + (N - p % N))) % N
    rw [emod_add_of_ge hN (by omega) (by omega)]
    omega
  · show 0 ≤ n - (N - p % N)
    omega
  · show 0 + (n - (N - p % N)) ≤ N
    omega
  · show 0 + (N - p % N) + (n - (N - p % N)) = n
    omega

/-- The cells of a piece, by their positions. -/
theorem cell_of_position (hN : 0 < N) (hr : m.ring = (p + m.flat) % N)
    (hlast : m.ring + m.len ≤ N) {i : Int} (h0 : p + m.flat ≤ i)
    (h1 : i < p + m.flat + m.len) :
    i % N = m.ring + (i - (p + m.flat)) := by
  obtain ⟨k, rfl⟩ : ∃ k, i = p + m.flat + k := ⟨i - (p + m.flat), by omega⟩
  rw [emod_add_of_le hN (by omega) (by omega), hr]
  omega

/-- A cell of a piece is that of some position. -/
theorem Memcpy.Covers.position (hN : 0 < N) (hr : m.ring = (p + m.flat) % N)
    (hlast : m.ring + m.len ≤ N) {a : Int} (ha : m.Covers a) :
    ∃ i, p + m.flat ≤ i ∧ i < p + m.flat + m.len ∧ i % N = a := by
  obtain ⟨h0, h1⟩ := ha
  refine ⟨p + m.flat + (a - m.ring), by omega, by omega, ?_⟩
  rw [cell_of_position hN hr hlast (by omega) (by omega)]
  omega

/-- **A COPY LEAVES THE OTHER POSITIONS**, as far as one round goes back. -/
theorem Tiles.toRing_other (hN : 0 < N) (h : Tiles N p n d ms) (hm : m ∈ ms)
    (src cells : Int → α) {i : Int} (h0 : p + n - N ≤ i) (h1 : i < p + d) :
    m.toRing src cells (i % N) = cells (i % N) := by
  obtain ⟨hd, hr, hl, hlast, hle⟩ := h.mem hm
  refine if_neg fun hc => ?_
  obtain ⟨j, hj0, hj1, hj⟩ := Memcpy.Covers.position (p := p) hN hr hlast hc
  exact emod_ne (by omega) (by omega) hj.symm

/-- **A COPY WRITES ITS POSITIONS**. -/
theorem Tiles.toRing_own (hN : 0 < N) (h : Tiles N p n d (m :: ms))
    (src cells : Int → α) {i : Int} (h0 : p + d ≤ i) (h1 : i < p + d + m.len) :
    m.toRing src cells (i % N) = src (i - p) := by
  obtain ⟨hf, hr, hl, hlast, -⟩ := h
  have hi : i % N = m.ring + (i - (p + m.flat)) :=
    cell_of_position hN (by rw [hf]; exact hr) hlast (by omega) (by omega)
  refine (if_pos ⟨by omega, by omega⟩).trans ?_
  congr 1
  omega

/-- **A COPY READS ITS POSITIONS**. -/
theorem Tiles.fromRing_own (hN : 0 < N) (h : Tiles N p n d (m :: ms))
    (cells dst : Int → α) {k : Int} (h0 : d ≤ k) (h1 : k < d + m.len) :
    m.fromRing cells dst k = cells ((p + k) % N) := by
  obtain ⟨hf, hr, hl, hlast, -⟩ := h
  have hi : (p + k) % N = m.ring + (p + k - (p + m.flat)) :=
    cell_of_position hN (by rw [hf]; exact hr) hlast (by omega) (by omega)
  refine (if_pos ⟨by omega, by omega⟩).trans ?_
  rw [hi]
  congr 1
  omega

theorem Tiles.fromRing_other (h : Tiles N p n d (m :: ms))
    (cells dst : Int → α) {k : Int} (hk : k < d ∨ n ≤ k) :
    m.fromRing cells dst k = dst k := by
  have hle := h.2.2.2.2.le
  have hf := h.1
  exact if_neg fun hc => by omega

/-- **TWO COPIES MEET IN NO CELL** if all the positions of both lie within one
    round. -/
theorem Tiles.apart (hN : 0 < N) {ms' : List Memcpy} {m' : Memcpy}
    (h : Tiles N p n d ms) (h' : Tiles N q n' d' ms') (hm : m ∈ ms)
    (hm' : m' ∈ ms') (hbehind : q + n' ≤ p + d) (hround : p + n ≤ q + d' + N)
    (a : Int) : ¬ (m.Covers a ∧ m'.Covers a) := by
  rintro ⟨ha, ha'⟩
  obtain ⟨hd, hr, hl, hlast, hle⟩ := h.mem hm
  obtain ⟨hd', hr', hl', hlast', hle'⟩ := h'.mem hm'
  obtain ⟨i, hi0, hi1, hi⟩ := Memcpy.Covers.position (p := p) hN hr hlast ha
  obtain ⟨j, hj0, hj1, hj⟩ := Memcpy.Covers.position (p := q) hN hr' hlast' ha'
  exact emod_ne (i := j) (j := i) (by omega) (by omega) (hj.trans hi.symm)

end Copying

end RtaiStreamCells
