import Mathlib

/-! # rtai_hal.h: multiplying and dividing

    `rtai_imuldiv` multiplies two registers and divides the 128 bits by a third
    one, all of them unsigned; a quotient that does not fit a register is a
    divide error. -/

namespace RtaiMuldiv

/-- The value that a `long` or a `long long` gets. -/
def toLong (x : Int) : Int := x.bmod (2 ^ 64)

/-- The register of a `long`. -/
def toUlong (x : Int) : Nat := (x % 2 ^ 64).toNat

/-- `none` is a divide error. -/
def rtaiImuldiv (i mult div : Int) : Option Int :=
  let product := toUlong i * toUlong mult
  if toUlong div = 0 ∨ 2 ^ 64 ≤ product / toUlong div then none
  else some (toLong ((product / toUlong div : Nat) : Int))

/-- `rtai_llimd`. -/
def rtaiLlimd (ll mult div : Int) : Option Int := rtaiImuldiv ll mult div

/-! ## Registers -/

@[simp] theorem toUlong_natCast {n : Nat} (h : n < 2 ^ 64) : toUlong n = n := by
  simp only [toUlong]
  omega

@[simp] theorem toUlong_toLong {n : Nat} (h : n < 2 ^ 64) : toUlong (toLong n) = n := by
  simp only [toUlong, toLong, Int.bmod]
  omega

theorem toLong_of_small {x : Int} (h0 : -2 ^ 63 ≤ x) (h1 : x < 2 ^ 63) : toLong x = x := by
  simp only [toLong, Int.bmod]
  omega

/-- The upper half of a register is negative. -/
theorem toLong_of_large {x : Int} (h0 : 2 ^ 63 ≤ x) (h1 : x < 2 ^ 64) :
    toLong x = x - 2 ^ 64 := by
  simp only [toLong, Int.bmod]
  omega

/-- The sign is put on again. -/
theorem toLong_neg_small {q : Int} (h0 : 0 ≤ q) (h1 : q ≤ 2 ^ 63) :
    toLong (-toLong q) = -q := by
  simp only [toLong, Int.bmod]
  omega

theorem toLong_neg_large {q : Int} (h0 : 2 ^ 63 < q) (h1 : q < 2 ^ 64) :
    toLong (-toLong q) = 2 ^ 64 - q := by
  simp only [toLong, Int.bmod]
  omega

/-- **`rtai_imuldiv`** of what the registers hold. -/
theorem imuldiv_eq {i mult div : Int} {a m d : Nat} (hi : toUlong i = a)
    (hm : toUlong mult = m) (hd : toUlong div = d) (hpos : 0 < d) :
    rtaiImuldiv i mult div =
      if a * m / d < 2 ^ 64 then some (toLong ((a * m / d : Nat) : Int)) else none := by
  simp only [rtaiImuldiv, hi, hm, hd]
  by_cases hq : a * m / d < 2 ^ 64
  · rw [if_neg (by omega), if_pos hq]
  · rw [if_pos (by omega), if_neg hq]

/-- A quotient that fits a `long`. -/
theorem imuldiv_small {a m d : Nat} (ha : a < 2 ^ 64) (hm : m < 2 ^ 64) (hd : d < 2 ^ 64)
    (hpos : 0 < d) (hq : a * m / d < 2 ^ 63) :
    rtaiImuldiv a m d = some ((a * m / d : Nat) : Int) := by
  rw [imuldiv_eq (toUlong_natCast ha) (toUlong_natCast hm) (toUlong_natCast hd) hpos]
  generalize a * m / d = q at hq ⊢
  rw [if_pos (by omega), toLong_of_small (by omega) (by omega)]

end RtaiMuldiv
