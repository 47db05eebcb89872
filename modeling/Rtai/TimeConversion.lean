import Rtai.Muldiv

/-! # sched.c: counts and nanoseconds

    `count2nano` and `nano2count` convert a time without its sign and put the
    sign on again. -/

namespace RtaiTimeConversion

open RtaiMuldiv

/-- `x >= 0 ? rtai_llimd(x, mult, div) : -rtai_llimd(-x, mult, div)` -/
def convert (mult div x : Int) : Option Int :=
  if x ≥ 0 then rtaiLlimd x mult div
  else (rtaiLlimd (toLong (-x)) mult div).map fun v => toLong (-v)

/-- `count2nano`. -/
def count2nano (clockFreq counts : Int) : Option Int := convert 1000000000 clockFreq counts

/-- `nano2count`. -/
def nano2count (clockFreq ns : Int) : Option Int := convert clockFreq 1000000000 ns

/-- The values of an `RTIME`. -/
def IsTime (x : Int) : Prop := -2 ^ 63 ≤ x ∧ x < 2 ^ 63

instance (x : Int) : Decidable (IsTime x) := inferInstanceAs (Decidable (_ ∧ _))

/-- The quotient truncated toward zero. -/
def exactValue (mult div x : Int) : Int := (x * mult).tdiv div

/-- The result is 0, or has the sign. -/
def HasSign (r x : Int) : Prop := r = 0 ∨ r.sign = x.sign

/-- What a conversion promises for `x`. -/
structure Converts (conv : Int → Option Int) (value : Int → Int) (x : Int) : Prop where
  returns : ∃ r, conv x = some r ∧ HasSign r x
  truncates : IsTime (value x) → conv x = some (value x)
  odd : IsTime (-x) → IsTime (value x) → IsTime (value (-x)) →
    ∃ r, conv x = some r ∧ conv (-x) = some (-r)
  mono : ∀ y, IsTime y → x ≤ y → IsTime (value x) → IsTime (value y) →
    ∃ r r', conv x = some r ∧ conv y = some r' ∧ r ≤ r'

/-- What both promise together. -/
structure TimesAgree (clockFreq x : Int) : Prop where
  count2nano : Converts (count2nano clockFreq) (exactValue 1000000000 clockFreq) x
  nano2count : Converts (nano2count clockFreq) (exactValue clockFreq 1000000000) x
  back : IsTime (exactValue clockFreq 1000000000 x) →
    ∃ c n, RtaiTimeConversion.nano2count clockFreq x = some c ∧
      RtaiTimeConversion.count2nano clockFreq c = some n ∧
      (n - x).natAbs ≤ 1 + 1000000000 / clockFreq

/-! ## One conversion -/

section Convert

variable {m d : Nat} {x y : Int}

theorem exact_neg (m d x : Int) : exactValue m d (-x) = -exactValue m d x := by
  rw [exactValue, exactValue, Int.neg_mul, Int.neg_tdiv]

theorem exact_natCast (a m d : Nat) : exactValue m d a = ((a * m / d : Nat) : Int) := by
  rw [exactValue, ← Int.natCast_mul, ← Int.ofNat_tdiv]

/-- A time is a natural number or the negative of one. -/
theorem cases_time (hx : IsTime x) : ∃ a : Nat, (x = a ∧ a < 2 ^ 63) ∨
    (x = -a ∧ 0 < a ∧ a ≤ 2 ^ 63) := by
  obtain ⟨h0, h1⟩ := hx
  refine ⟨x.natAbs, ?_⟩
  omega

theorem convert_natCast (hm : m < 2 ^ 63) (hd : 0 < d) (hd' : d < 2 ^ 63) {a : Nat}
    (ha : a < 2 ^ 63) :
    convert m d a =
      if a * m / d < 2 ^ 64 then some (toLong ((a * m / d : Nat) : Int)) else none := by
  rw [convert, if_pos (Int.natCast_nonneg a), rtaiLlimd]
  exact imuldiv_eq (toUlong_natCast (by omega)) (toUlong_natCast (by omega))
    (toUlong_natCast (by omega)) hd

theorem convert_neg (hm : m < 2 ^ 63) (hd : 0 < d) (hd' : d < 2 ^ 63) {a : Nat}
    (h0 : 0 < a) (ha : a ≤ 2 ^ 63) :
    convert m d (-a) =
      if a * m / d < 2 ^ 64 then some (toLong (-toLong ((a * m / d : Nat) : Int)))
      else none := by
  rw [convert, if_neg (by omega), rtaiLlimd, Int.neg_neg,
    imuldiv_eq (toUlong_toLong (by omega)) (toUlong_natCast (by omega))
      (toUlong_natCast (by omega)) hd]
  split <;> rfl

theorem convert_exact (hm : m < 2 ^ 63) (hd : 0 < d) (hd' : d < 2 ^ 63) (hx : IsTime x)
    (h : IsTime (exactValue m d x)) : convert m d x = some (exactValue m d x) := by
  obtain ⟨a, ⟨rfl, ha⟩ | ⟨rfl, h0, ha⟩⟩ := cases_time hx
  · rw [convert_natCast hm hd hd' ha]
    rw [exact_natCast] at h ⊢
    generalize a * m / d = q at h ⊢
    obtain ⟨hq0, hq1⟩ := h
    rw [if_pos (by omega), toLong_of_small hq0 hq1]
  · rw [convert_neg hm hd hd' h0 ha]
    rw [exact_neg, exact_natCast] at h ⊢
    generalize a * m / d = q at h ⊢
    obtain ⟨hq0, hq1⟩ := h
    rw [if_pos (by omega), toLong_neg_small (by omega) (by omega)]

theorem hasSign_of_nonneg {r : Int} {a : Nat} (hr : r ≠ 0 → a ≠ 0) (h : 0 ≤ r) :
    HasSign r a := by
  by_cases h0 : r = 0
  · exact Or.inl h0
  · have ha := hr h0
    refine Or.inr ?_
    rw [Int.sign_eq_one_of_pos (by omega), Int.sign_eq_one_of_pos (by omega)]

theorem HasSign.neg {r x : Int} (h : HasSign r x) : HasSign (-r) (-x) := by
  rcases h with h | h
  · exact Or.inl (by omega)
  · exact Or.inr (by rw [Int.sign_neg, Int.sign_neg, h])

theorem exact_sign_natCast (a m d : Nat) : HasSign (exactValue m d a) a := by
  rw [exact_natCast]
  refine hasSign_of_nonneg (fun hq ha => hq ?_) (Int.natCast_nonneg _)
  rw [ha, Nat.zero_mul, Nat.zero_div]
  rfl

theorem exact_sign (m d : Nat) (x : Int) : HasSign (exactValue m d x) x := by
  rcases Int.le_total 0 x with h | h
  · obtain ⟨a, rfl⟩ := Int.eq_ofNat_of_zero_le h
    exact exact_sign_natCast a m d
  · obtain ⟨a, ha⟩ := Int.eq_ofNat_of_zero_le (show 0 ≤ -x by omega)
    obtain rfl : x = -a := by omega
    rw [exact_neg]
    exact (exact_sign_natCast a m d).neg

/-- **A CONVERSION ENDS WITH THE RIGHT SIGN** exactly when its value fits. -/
theorem convert_returns (hm : m < 2 ^ 63) (hd : 0 < d) (hd' : d < 2 ^ 63) (hx : IsTime x) :
    (∃ r, convert m d x = some r ∧ HasSign r x) ↔ IsTime (exactValue m d x) := by
  constructor
  · rintro ⟨r, hr, hsign⟩
    by_contra hbig
    obtain ⟨a, ⟨rfl, ha⟩ | ⟨rfl, h0, ha⟩⟩ := cases_time hx
    · rw [convert_natCast hm hd hd' ha] at hr
      rw [exact_natCast, IsTime] at hbig
      generalize a * m / d = q at hr hbig
      by_cases hq : q < 2 ^ 64
      · -- the value is negative
        rw [if_pos hq, Option.some.injEq, toLong_of_large (by omega) (by omega)] at hr
        rcases hsign with h | h
        · omega
        · rw [Int.sign_eq_neg_one_of_neg (by omega)] at h
          have hpos := Int.sign_nonneg_iff.mpr (Int.natCast_nonneg a)
          omega
      · rw [if_neg hq] at hr
        exact nomatch hr
    · rw [convert_neg hm hd hd' h0 ha] at hr
      rw [exact_neg, exact_natCast, IsTime] at hbig
      generalize a * m / d = q at hr hbig
      by_cases hq : q < 2 ^ 64
      · -- the value is positive
        rw [if_pos hq, Option.some.injEq, toLong_neg_large (by omega) (by omega)] at hr
        rcases hsign with h | h
        · omega
        · rw [Int.sign_eq_one_of_pos (by omega), Int.sign_eq_neg_one_of_neg (by omega)] at h
          omega
      · rw [if_neg hq] at hr
        exact nomatch hr
  · intro h
    exact ⟨_, convert_exact hm hd hd' hx h, exact_sign m d x⟩

theorem exact_mono (hd : 0 < d) (h : x ≤ y) : exactValue m d x ≤ exactValue m d y := by
  refine Int.tdiv_le_tdiv (by omega) ?_
  exact Int.mul_le_mul_of_nonneg_right h (Int.natCast_nonneg m)

theorem converts_iff (hm : m < 2 ^ 63) (hd : 0 < d) (hd' : d < 2 ^ 63) (hx : IsTime x) :
    Converts (convert m d) (exactValue m d) x ↔ IsTime (exactValue m d x) := by
  constructor
  · intro h
    exact (convert_returns hm hd hd' hx).mp h.returns
  · intro h
    have hvalue := convert_exact hm hd hd' hx h
    constructor
    · exact ⟨_, hvalue, exact_sign m d x⟩
    · exact fun _ => hvalue
    · intro hx' _ h'
      refine ⟨_, hvalue, ?_⟩
      rw [convert_exact hm hd hd' hx' h', exact_neg]
    · intro y hy hle _ h'
      exact ⟨_, _, hvalue, convert_exact hm hd hd' hy h', exact_mono hd hle⟩

end Convert

/-! ## There and back -/

/-- What two truncations lose. -/
theorem there_and_back (a : Nat) {m d : Nat} (hm : 0 < m) (hd : 0 < d) :
    a * m / d * d / m ≤ a ∧ a ≤ a * m / d * d / m + (1 + d / m) := by
  have hdown : a * m / d * d ≤ a * m := Nat.div_mul_le_self (a * m) d
  have hup : a * m < a * m / d * d + d := Nat.lt_div_mul_add hd
  have hback : a * m / d * d < a * m / d * d / m * m + m := Nat.lt_div_mul_add hm
  have hgap : d < d / m * m + m := Nat.lt_div_mul_add hm
  constructor
  · exact Nat.div_le_of_le_mul (by rw [Nat.mul_comm m]; exact hdown)
  · have hlt : a * m < (a * m / d * d / m + (1 + d / m) + 1) * m := by
      calc a * m < a * m / d * d + d := hup
        _ ≤ a * m / d * d / m * m + m + (d / m * m + m) := by omega
        _ = (a * m / d * d / m + (1 + d / m) + 1) * m := by
            simp only [Nat.add_mul, Nat.one_mul]
            omega
    exact Nat.le_of_lt_succ (Nat.lt_of_mul_lt_mul_right hlt)

/-- The way back fits, and loses no more than the claim of the bound. -/
theorem exact_back {m d : Nat} (hm : 0 < m) (hd : 0 < d) {x : Int} (hx : IsTime x) :
    IsTime (exactValue d m (exactValue m d x)) ∧
      ((exactValue d m (exactValue m d x) - x).natAbs : Int) ≤ 1 + (d : Int) / m := by
  have hcast : (d : Int) / m = ((d / m : Nat) : Int) := (Int.natCast_ediv d m).symm
  rw [hcast]
  obtain ⟨a, ⟨rfl, ha⟩ | ⟨rfl, h0, ha⟩⟩ := cases_time hx
  · obtain ⟨hle, hge⟩ := there_and_back a hm hd
    rw [exact_natCast, exact_natCast, IsTime]
    generalize a * m / d * d / m = b at hle hge ⊢
    generalize d / m = k at hge ⊢
    omega
  · obtain ⟨hle, hge⟩ := there_and_back a hm hd
    rw [exact_neg, exact_natCast, exact_neg, exact_natCast, IsTime]
    generalize a * m / d * d / m = b at hle hge ⊢
    generalize d / m = k at hge ⊢
    omega

/-- **TIMES CONVERT RIGHTLY** exactly when the values of both conversions fit
    an `RTIME`. -/
theorem times_agree_iff (clockFreq : Nat) (hf : 1000000 ≤ clockFreq)
    (hf' : clockFreq ≤ 10000000000) (x : Int) (hx : IsTime x) :
    TimesAgree clockFreq x ↔
      IsTime (exactValue 1000000000 clockFreq x) ∧ IsTime (exactValue clockFreq 1000000000 x) := by
  have hcounts := converts_iff (m := 1000000000) (d := clockFreq) (x := x) (by omega) (by omega)
    (by omega) hx
  have hnanos := converts_iff (m := clockFreq) (d := 1000000000) (x := x) (by omega) (by omega)
    (by omega) hx
  constructor
  · rintro ⟨h, h', -⟩
    exact ⟨hcounts.mp h, hnanos.mp h'⟩
  · rintro ⟨h, h'⟩
    refine ⟨hcounts.mpr h, hnanos.mpr h', fun _ => ?_⟩
    -- there and back, each way with its own rounding
    obtain ⟨hfits, hbound⟩ := exact_back (m := clockFreq) (d := 1000000000) (by omega)
      (by omega) hx
    have hthere := convert_exact (m := clockFreq) (d := 1000000000) (by omega) (by omega)
      (by omega) hx h'
    have hback := convert_exact (m := 1000000000) (d := clockFreq) (by omega) (by omega)
      (by omega) h' hfits
    exact ⟨_, _, hthere, hback, hbound⟩

/-! ## A slow clock -/

/-- A time of 1 s before the start, at a clock whose counts are no whole number of
    nanoseconds. -/
theorem one_second_agrees : TimesAgree 2394230000 (-1000000000) ∧
    nano2count 2394230000 (-1000000000) = some (-2394230000) :=
  ⟨(times_agree_iff 2394230000 (by decide) (by decide) (-1000000000) (by decide)).mpr
    (by decide), by decide⟩

/-- At 1 MHz the largest number of counts is a divide error, and a smaller one
    yields a negative time. -/
theorem count2nano_overflows : ¬ TimesAgree 1000000 (2 ^ 63 - 1) ∧
    count2nano 1000000 (2 ^ 63 - 1) = none ∧
    count2nano 1000000 (10 ^ 16) = some (-8446744073709551616) := by
  have herror : count2nano 1000000 (2 ^ 63 - 1) = none := by decide
  refine ⟨fun h => ?_, herror, by decide⟩
  obtain ⟨r, hr, -⟩ := h.count2nano.returns
  rw [herror] at hr
  exact nomatch hr

end RtaiTimeConversion
