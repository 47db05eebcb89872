import Mathlib

/-! # Circular buffers

    A buffer of cells in which a stretch of `used` cells, starting at `first`
    and going on at cell 0 after the last one, holds the elements of a queue.
    One party writes cells of the free stretch and then appends them; another
    reads cells at the front and then removes them.  What is written and what
    is read in one go never goes past the last cell. -/

namespace RtaiCircular

variable {α : Type}

/-- The cells from `i` on, `n` of them, without going round. -/
def segment (buf : List α) (i n : Nat) : List α :=
  (buf.drop i).take n

/-- Overwrite the cells from `i` on. -/
def store (buf : List α) (i : Nat) (xs : List α) : List α :=
  buf.take i ++ xs ++ buf.drop (i + xs.length)

/-- One step round: a position that has come to the end goes on at 0. -/
def wrap (size i : Nat) : Nat :=
  if i < size then i else i - size

/-- A circular buffer. -/
structure RingBuffer (α : Type) where
  buf : List α
  first : Nat
  used : Nat
  first_lt : first < buf.length
  used_le : used ≤ buf.length

section Cells

variable {buf xs : List α} {i n : Nat}

theorem length_segment (h : i + n ≤ buf.length) : (segment buf i n).length = n := by
  simp only [segment, List.length_take, List.length_drop]
  omega

theorem length_store (h : i + xs.length ≤ buf.length) :
    (store buf i xs).length = buf.length := by
  simp only [store, List.length_append, List.length_take, List.length_drop]
  omega

theorem segment_store (h : i + xs.length ≤ buf.length) :
    segment (store buf i xs) i xs.length = xs := by
  have hi : (buf.take i).length = i := by
    rw [List.length_take]
    omega
  show ((buf.take i ++ xs ++ buf.drop _).drop i).take xs.length = xs
  rw [List.append_assoc, List.drop_append_of_le_length (by omega),
    List.drop_eq_nil_of_le (by omega), List.nil_append, List.take_left]

theorem wrap_lt {size i : Nat} (h : i < 2 * size) : wrap size i < size := by
  simp only [wrap]
  split <;> omega

end Cells

namespace RingBuffer

variable (r : RingBuffer α)

/-- The first free cell. -/
def last : Nat := wrap r.buf.length (r.first + r.used)

/-- The elements of the queue. -/
def contents : List α := (r.buf.rotate r.first).take r.used

theorem last_lt : r.last < r.buf.length :=
  wrap_lt (by have := r.first_lt; have := r.used_le; omega)

@[simp] theorem length_contents : r.contents.length = r.used := by
  simp only [contents, List.length_take, List.length_rotate]
  exact Nat.min_eq_left r.used_le

/-- The queue as the stretch up to the last cell and the one from cell 0. -/
theorem contents_eq : r.contents = segment r.buf r.first r.used ++
      r.buf.take (r.first + r.used - r.buf.length) := by
  have h1 := r.first_lt
  have h2 := r.used_le
  simp only [contents, segment, List.rotate_eq_drop_append_take h1.le,
    List.take_append, List.length_drop, List.take_take]
  congr 2
  omega

/-- Overwriting free cells. -/
def write (xs : List α) (h : r.last + xs.length ≤ r.buf.length) : RingBuffer α where
  buf := store r.buf r.last xs
  first := r.first
  used := r.used
  first_lt := by rw [length_store h]; exact r.first_lt
  used_le := by rw [length_store h]; exact r.used_le

/-- Appending the first `n` free cells. -/
def push (n : Nat) (h : r.used + n ≤ r.buf.length) : RingBuffer α where
  buf := r.buf
  first := r.first
  used := r.used + n
  first_lt := r.first_lt
  used_le := h

/-- Removing the first `n` elements. -/
def pop (n : Nat) (h : n ≤ r.used) : RingBuffer α where
  buf := r.buf
  first := wrap r.buf.length (r.first + n)
  used := r.used - n
  first_lt := wrap_lt (by have := r.first_lt; have := r.used_le; omega)
  used_le := by have := r.used_le; omega

variable {r} {xs : List α} {n : Nat}

/-- **FREE CELLS ARE NOT IN THE QUEUE**: writing them changes no element. -/
theorem contents_write (hfit : r.last + xs.length ≤ r.buf.length)
    (hfree : r.used + xs.length ≤ r.buf.length) :
    (r.write xs hfit).contents = r.contents := by
  have h1 := r.first_lt
  have hlen := length_store hfit
  rw [contents_eq, contents_eq]
  show segment (store _ _ _) r.first r.used ++
    (store _ _ _).take (r.first + r.used - (store _ _ _).length) = _
  rw [hlen]
  by_cases hw : r.first + r.used < r.buf.length
  · -- the free cells start behind the queue
    have hlast : r.last = r.first + r.used := if_pos hw
    rw [hlast] at hfit ⊢
    have hl : (r.buf.take (r.first + r.used)).length = r.first + r.used := by
      rw [List.length_take]
      omega
    have hz : r.first + r.used - r.buf.length = 0 := by omega
    simp only [hz, List.take_zero, List.append_nil, segment, store]
    rw [List.append_assoc, List.drop_append_of_le_length (by omega),
      List.take_append_of_le_length (by rw [List.length_drop]; omega),
      List.drop_take, List.take_take]
    congr 1
    omega
  · -- the queue goes round, and the free cells end before its first cell
    have hlast : r.last = r.first + r.used - r.buf.length := if_neg hw
    rw [hlast] at hfit ⊢
    have hl : (r.buf.take (r.first + r.used - r.buf.length)).length =
        r.first + r.used - r.buf.length := by
      rw [List.length_take]
      omega
    have hhead : (store r.buf (r.first + r.used - r.buf.length) xs).take
        (r.first + r.used - r.buf.length) =
        r.buf.take (r.first + r.used - r.buf.length) := by
      simp only [store]
      rw [List.append_assoc, List.take_append_of_le_length (by omega),
        List.take_of_length_le (by omega)]
    have htail : (store r.buf (r.first + r.used - r.buf.length) xs).drop
        r.first = r.buf.drop r.first := by
      simp only [store]
      rw [List.drop_append, List.drop_eq_nil_of_le
          (by rw [List.length_append]; omega), List.nil_append,
        List.drop_drop, List.length_append]
      congr 1
      omega
    rw [hhead]
    show ((store _ _ _).drop r.first).take _ ++ _ = _
    rw [htail]
    rfl

/-- **APPENDING CELLS APPENDS WHAT IS IN THEM**. -/
theorem contents_push (hfit : r.last + n ≤ r.buf.length) (hfree : r.used + n ≤ r.buf.length) :
    (r.push n hfree).contents = r.contents ++ segment r.buf r.last n := by
  have h1 := r.first_lt
  rw [contents_eq, contents_eq]
  show segment r.buf r.first (r.used + n) ++
    r.buf.take (r.first + (r.used + n) - r.buf.length) = _
  by_cases hw : r.first + r.used < r.buf.length
  · have hlast : r.last = r.first + r.used := if_pos hw
    rw [hlast] at hfit ⊢
    have hz : r.first + r.used - r.buf.length = 0 := by omega
    have hz' : r.first + (r.used + n) - r.buf.length = 0 := by omega
    simp only [hz, hz', List.take_zero, List.append_nil, segment,
      List.take_add, List.drop_drop]
  · have hlast : r.last = r.first + r.used - r.buf.length := if_neg hw
    rw [hlast] at hfit ⊢
    have hadd : r.first + (r.used + n) - r.buf.length =
        r.first + r.used - r.buf.length + n := by omega
    have hseg : segment r.buf r.first (r.used + n) = segment r.buf r.first r.used := by
      simp only [segment]
      rw [List.take_of_length_le (by rw [List.length_drop]; omega),
        List.take_of_length_le (by rw [List.length_drop]; omega)]
    rw [hadd, hseg, List.take_add, List.append_assoc]
    rfl

/-- **THE CELLS AT THE FRONT ARE THE FIRST ELEMENTS**. -/
theorem take_contents (hfit : r.first + n ≤ r.buf.length) (hn : n ≤ r.used) :
    r.contents.take n = segment r.buf r.first n := by
  have h1 := r.first_lt
  simp only [contents, segment, List.rotate_eq_drop_append_take h1.le]
  rw [List.take_take, Nat.min_eq_left hn,
    List.take_append_of_le_length (by rw [List.length_drop]; omega)]

/-- **REMOVING CELLS REMOVES THE FIRST ELEMENTS**. -/
theorem contents_pop (hfit : r.first + n ≤ r.buf.length) (hn : n ≤ r.used) :
    (r.pop n hn).contents = r.contents.drop n := by
  have h1 := r.first_lt
  have h2 := r.used_le
  have hrot : r.buf.rotate (wrap r.buf.length (r.first + n)) =
      (r.buf.rotate r.first).rotate n := by
    rw [List.rotate_rotate]
    by_cases hw : r.first + n < r.buf.length
    · rw [show wrap r.buf.length (r.first + n) = r.first + n from if_pos hw]
    · have he : r.first + n = r.buf.length := by omega
      rw [he, List.rotate_length,
        show wrap r.buf.length r.buf.length = 0 by simp [wrap],
        List.rotate_zero]
  show (r.buf.rotate (wrap r.buf.length (r.first + n))).take (r.used - n) =
    ((r.buf.rotate r.first).take r.used).drop n
  rw [hrot, List.drop_take,
    List.rotate_eq_drop_append_take (by rw [List.length_rotate]; omega),
    List.take_append_of_le_length (by rw [List.length_drop, List.length_rotate]; omega)]

@[simp] theorem last_write (hfit : r.last + xs.length ≤ r.buf.length) :
    (r.write xs hfit).last = r.last := by
  show wrap (store _ _ _).length _ = _
  rw [length_store hfit]
  rfl

theorem last_push (hfit : r.last + n ≤ r.buf.length) (hfree : r.used + n ≤ r.buf.length) :
    (r.push n hfree).last = wrap r.buf.length (r.last + n) := by
  have h1 := r.first_lt
  have h2 := r.used_le
  show wrap r.buf.length (r.first + (r.used + n)) = _
  simp only [last, wrap] at hfit ⊢
  split_ifs at hfit ⊢ <;> omega

@[simp] theorem last_pop (hn : n ≤ r.used) : (r.pop n hn).last = r.last := by
  have h1 := r.first_lt
  have h2 := r.used_le
  show wrap r.buf.length (wrap r.buf.length (r.first + n) + (r.used - n)) = _
  simp only [last, wrap]
  split_ifs <;> omega

end RingBuffer

end RtaiCircular
