import Rtai.Muldiv

/-! # sched.c: the latency filter

    `kf_lat_eval` estimates the latency with a Kalman filter in scaled integers.
    A pass has a measurement, or none when `rt_task_wait_period` fails.  A value
    that does not fit its type is `none`, as is a divide error. -/

namespace RtaiLatencyFilter

open RtaiMuldiv

/-- The parameters of the filter. -/
def SV : Int := 3163
def SG : Int := 1000000000
def R : Int := 2 * SV
def Q : Int := 0
def P0 : Int := R
def ALPHA : Int := 1000100000

/-- The value of an expression of type `int`. -/
def int (x : Int) : Option Int := if -2 ^ 31 ≤ x ∧ x < 2 ^ 31 then some x else none

/-- The value of an expression of type `long`. -/
def long (x : Int) : Option Int := if -2 ^ 63 ≤ x ∧ x < 2 ^ 63 then some x else none

/-- `s` is an expression of type `int`. -/
def rtaiSimuldiv (s m d : Int) : Option Int :=
  if s > 0 then rtaiImuldiv s m d
  else do
    let i ← int (-s)
    let v ← rtaiImuldiv i m d
    long (-v)

/-- The variables that live from one pass to the next, the last gain, and
    whether the loop has been left. -/
structure Kf where
  xm : Int
  xe : Int
  pe : Int
  g : Int
  calok : Int
  left : Bool

/-- The filter before its first pass. -/
def kfInit : Option Kf := do
  let pe ← int (P0 * P0)
  return { xm := 1000000000, xe := 0, pe := pe, g := 0, calok := 1, left := false }

/-- One pass of the loop. -/
def pass (s : Kf) (measured : Option Int) : Option Kf := do
  let q ← int (Q * Q)
  let r ← int (R * R)
  let y := measured.getD s.xe
  let xm := if y < s.xm then y else s.xm
  let xp := s.xe
  let inflated ← rtaiSimuldiv s.pe ALPHA SG
  let pp ← int (← long (inflated + q))
  let sum ← int (pp + r)
  let g ← int (← rtaiSimuldiv pp SG sum)
  let innovation ← int (y - xp)
  let correction ← rtaiSimuldiv innovation g SG
  let xe ← int (← long (xp + correction))
  let ppe := s.pe
  let complement ← int (SG - g)
  let pe ← int (← rtaiSimuldiv complement pp SG)
  let dx ← int (xe - xp)
  let dxAbs ← int dx.natAbs
  let xeAbs ← int xe.natAbs
  let dp ← int (pe - ppe)
  let dpAbs ← int dp.natAbs
  let peAbs ← int pe.natAbs
  if dxAbs < xeAbs.tdiv 1000 ∧ dpAbs < peAbs.tdiv 1000 then
    let calok ← int (s.calok + 1)
    return { xm := xm, xe := xe, pe := pe, g := g, calok := calok, left := s.calok > 250 }
  else
    return { xm := xm, xe := xe, pe := pe, g := g, calok := 1, left := false }

/-- The passes over the measurements. -/
def passes : Kf → List (Option Int) → Option Kf
  | s, [] => some s
  | s, measured :: rest =>
    if s.left then some s
    else do
      let s ← pass s measured
      passes s rest

/-- `kf_lat_eval` after as many passes as there are elements. -/
def kfLatEval (measured : List (Option Int)) : Option Kf := do
  let s ← kfInit
  passes s measured

/-- Between two of 0 and the measurements. -/
def Spanned (seen : List Int) (x : Int) : Prop :=
  ∃ lo ∈ 0 :: seen, ∃ hi ∈ 0 :: seen, lo ≤ x ∧ x ≤ hi

/-- Every field stays in its range. -/
structure InRange (seen : List Int) (s : Kf) : Prop where
  pe : 0 ≤ s.pe ∧ s.pe ≤ R * R
  g : 0 ≤ s.g ∧ s.g < SG
  xe : Spanned seen s.xe

/-! ## Arithmetic of the types -/

theorem bind_of {α β : Type} {x : Option α} {a : α} (h : x = some a) (f : α → Option β) :
    (x >>= f) = f a := by
  rw [h]
  rfl

theorem int_of {x : Int} (h0 : -2 ^ 31 ≤ x) (h1 : x < 2 ^ 31) : int x = some x :=
  if_pos ⟨h0, h1⟩

theorem long_of {x : Int} (h0 : -2 ^ 63 ≤ x) (h1 : x < 2 ^ 63) : long x = some x :=
  if_pos ⟨h0, h1⟩

/-- A quotient of an `int` and a factor that is no larger. -/
theorem natAbs_mul_lt {a m : Nat} (ha : a < 2 ^ 31) (hm : m < 2 ^ 32) (d : Nat) :
    a * m / d < 2 ^ 63 := by
  have hprod : a * m ≤ 2 ^ 31 * m := Nat.mul_le_mul_right m (Nat.le_of_lt ha)
  have hdiv : a * m / d ≤ a * m := Nat.div_le_self (a * m) d
  omega

/-- **`rtai_simuldiv`** truncates toward zero. -/
theorem simuldiv_eq {s m d : Int} (hs : -2 ^ 31 < s) (hs' : s < 2 ^ 31) (hm : 0 ≤ m)
    (hm' : m < 2 ^ 32) (hd : 0 < d) (hd' : d < 2 ^ 32) :
    rtaiSimuldiv s m d = some ((s * m).tdiv d) := by
  obtain ⟨m, rfl⟩ := Int.eq_ofNat_of_zero_le hm
  obtain ⟨d, rfl⟩ := Int.eq_ofNat_of_zero_le (Int.le_of_lt hd)
  by_cases hpos : 0 < s
  · obtain ⟨a, rfl⟩ := Int.eq_ofNat_of_zero_le (Int.le_of_lt hpos)
    have hq := natAbs_mul_lt (a := a) (m := m) (by omega) (by omega) d
    rw [rtaiSimuldiv, if_pos hpos, imuldiv_small (by omega) (by omega) (by omega)
      (by omega) hq, ← Int.natCast_mul, ← Int.ofNat_tdiv]
  · obtain ⟨a, ha⟩ := Int.eq_ofNat_of_zero_le (show 0 ≤ -s by omega)
    obtain rfl : s = -a := by omega
    have hq := natAbs_mul_lt (a := a) (m := m) (by omega) (by omega) d
    rw [rtaiSimuldiv, if_neg hpos, Int.neg_neg, int_of (by omega) (by omega),
      Option.bind_eq_bind, Option.bind_some, imuldiv_small (by omega) (by omega) (by omega)
      (by omega) hq, Option.bind_some, Int.neg_mul, Int.neg_tdiv, ← Int.natCast_mul,
      ← Int.ofNat_tdiv]
    generalize a * m / d = v at hq ⊢
    exact long_of (by omega) (by omega)

/-! ## Covariance and gain -/

/-- The covariance grows by one part in ten thousand. -/
theorem inflated_range {pe : Int} (h0 : 0 ≤ pe) (h1 : pe ≤ R * R) :
    0 ≤ (pe * ALPHA).tdiv SG ∧ (pe * ALPHA).tdiv SG ≤ 40022277 := by
  simp only [R, SV, ALPHA, SG] at h1 ⊢
  rw [Int.tdiv_eq_ediv_of_nonneg (by omega)]
  omega

section Gain

variable {pp : Int}

theorem gain_range (h0 : 0 ≤ pp) :
    0 ≤ (pp * SG).tdiv (pp + R * R) ∧ (pp * SG).tdiv (pp + R * R) < SG := by
  have hsum : 0 < pp + R * R := by
    simp only [R, SV]
    omega
  have hprod : 0 ≤ pp * SG := Int.mul_nonneg h0 (by decide)
  rw [Int.tdiv_eq_ediv_of_nonneg hprod]
  refine ⟨Int.ediv_nonneg hprod (by omega), Int.ediv_lt_of_lt_mul hsum ?_⟩
  rw [Int.mul_comm SG]
  exact Int.mul_lt_mul_of_pos_right (by simp only [R, SV]; omega) (by decide)

/-- What is left of the covariance is not above that of a measurement. -/
theorem shrunk_range (h0 : 0 ≤ pp) (h1 : pp ≤ 40022277) :
    0 ≤ ((SG - (pp * SG).tdiv (pp + R * R)) * pp).tdiv SG ∧
      ((SG - (pp * SG).tdiv (pp + R * R)) * pp).tdiv SG ≤ R * R := by
  obtain ⟨hg0, hg1⟩ := gain_range h0
  have hsum : 0 < pp + R * R := by
    simp only [R, SV]
    omega
  have hprod : 0 ≤ pp * SG := Int.mul_nonneg h0 (by decide)
  -- the gain is rounded down by less than 1
  have hup : pp * SG < ((pp * SG).tdiv (pp + R * R) + 1) * (pp + R * R) := by
    rw [Int.tdiv_eq_ediv_of_nonneg hprod]
    exact Int.lt_ediv_add_one_mul_self (pp * SG) hsum
  generalize (pp * SG).tdiv (pp + R * R) = g at hg0 hg1 hup ⊢
  have hrest : 0 ≤ (SG - g) * pp := Int.mul_nonneg (by omega) h0
  rw [Int.tdiv_eq_ediv_of_nonneg hrest]
  refine ⟨Int.ediv_nonneg hrest (by decide), ?_⟩
  refine Int.le_of_lt_add_one (Int.ediv_lt_of_lt_mul (by decide) ?_)
  rw [Int.sub_mul]
  rw [Int.add_mul, Int.mul_add] at hup
  simp only [SG, R, SV] at hg1 hup ⊢
  omega

end Gain

/-! ## The estimate -/

/-- A part of a difference lies between 0 and the difference. -/
theorem part_between {d g : Int} (h0 : 0 ≤ g) (h1 : g < SG) :
    (0 ≤ (d * g).tdiv SG ∧ (d * g).tdiv SG ≤ d) ∨
      (d ≤ (d * g).tdiv SG ∧ (d * g).tdiv SG ≤ 0) := by
  have hpart : ∀ a : Int, 0 ≤ a → 0 ≤ (a * g).tdiv SG ∧ (a * g).tdiv SG ≤ a := by
    intro a ha
    have hprod : 0 ≤ a * g := Int.mul_nonneg ha h0
    rw [Int.tdiv_eq_ediv_of_nonneg hprod]
    refine ⟨Int.ediv_nonneg hprod (by decide), Int.ediv_le_of_le_mul (by decide) ?_⟩
    exact Int.mul_le_mul_of_nonneg_left (Int.le_of_lt h1) ha
  rcases Int.le_total 0 d with hd | hd
  · exact Or.inl (hpart d hd)
  · have h := hpart (-d) (by omega)
    rw [Int.neg_mul, Int.neg_tdiv] at h
    exact Or.inr ⟨by omega, by omega⟩

/-- Between the old estimate and the measurement. -/
def Between (a b x : Int) : Prop := (a ≤ x ∧ x ≤ b) ∨ (b ≤ x ∧ x ≤ a)

theorem estimate_between {xp y g : Int} (h0 : 0 ≤ g) (h1 : g < SG) :
    Between xp y (xp + ((y - xp) * g).tdiv SG) := by
  rcases part_between (d := y - xp) h0 h1 with h | h
  · exact Or.inl ⟨by omega, by omega⟩
  · exact Or.inr ⟨by omega, by omega⟩

theorem Spanned.between {seen : List Int} {a b x : Int} (ha : Spanned seen a)
    (hb : Spanned seen b) (hx : Between a b x) : Spanned seen x := by
  obtain ⟨lo, hlo, hi, hhi, ha0, ha1⟩ := ha
  obtain ⟨lo', hlo', hi', hhi', hb0, hb1⟩ := hb
  rcases hx with ⟨h0, h1⟩ | ⟨h0, h1⟩
  · exact ⟨lo, hlo, hi', hhi', by omega, by omega⟩
  · exact ⟨lo', hlo', hi, hhi, by omega, by omega⟩

/-! ## One pass -/

/-- The covariance is that of a measurement at most, the estimate is a possible
    measurement, and the passes that count are counted. -/
structure Ready (s : Kf) : Prop where
  pe : 0 ≤ s.pe ∧ s.pe ≤ R * R
  xe : -2 ^ 30 < s.xe ∧ s.xe < 2 ^ 30
  calok : 1 ≤ s.calok ∧ s.calok ≤ 251

/-- **EVERY VALUE OF A PASS FITS ITS TYPE**. -/
theorem pass_spec {s : Kf} {measured : Option Int} (hs : Ready s)
    (hy : -2 ^ 30 < measured.getD s.xe ∧ measured.getD s.xe < 2 ^ 30) :
    ∃ s', pass s measured = some s' ∧ (s'.left = false → Ready s') ∧
      (0 ≤ s'.pe ∧ s'.pe ≤ R * R) ∧ (0 ≤ s'.g ∧ s'.g < SG) ∧
      Between s.xe (measured.getD s.xe) s'.xe := by
  obtain ⟨⟨hpe0, hpe1⟩, ⟨hxe0, hxe1⟩, hcal0, hcal1⟩ := hs
  generalize hmeas : measured.getD s.xe = y at hy ⊢
  obtain ⟨hy0, hy1⟩ := hy
  have hRR : R * R = 40018276 := rfl
  have hSG : SG = 1000000000 := rfl
  have hq : int (Q * Q) = some 0 := int_of (by decide) (by decide)
  have hr : int (R * R) = some (R * R) := int_of (by decide) (by decide)
  -- the covariance grows
  have hinflated := simuldiv_eq (s := s.pe) (m := ALPHA) (d := SG) (by omega) (by omega)
    (by decide) (by decide) (by decide) (by decide)
  obtain ⟨hpp0, hpp1⟩ := inflated_range hpe0 hpe1
  generalize (s.pe * ALPHA).tdiv SG = pp at hinflated hpp0 hpp1
  have hpplong : long (pp + 0) = some pp := by
    rw [Int.add_zero]
    exact long_of (by omega) (by omega)
  have hppint : int pp = some pp := int_of (by omega) (by omega)
  have hsum : int (pp + R * R) = some (pp + R * R) := int_of (by omega) (by omega)
  -- the gain
  have hgain := simuldiv_eq (s := pp) (m := SG) (d := pp + R * R) (by omega) (by omega)
    (by decide) (by decide) (by omega) (by omega)
  obtain ⟨hg0, hg1⟩ := gain_range hpp0
  obtain ⟨hpe0', hpe1'⟩ := shrunk_range hpp0 hpp1
  generalize (pp * SG).tdiv (pp + R * R) = g at hgain hg0 hg1 hpe0' hpe1'
  have hgint : int g = some g := int_of (by omega) (by omega)
  -- the estimate
  have hdiff : int (y - s.xe) = some (y - s.xe) := int_of (by omega) (by omega)
  have hcorrection := simuldiv_eq (s := y - s.xe) (m := g) (d := SG) (by omega) (by omega)
    hg0 (by omega) (by decide) (by decide)
  have hbetween : Between s.xe y (s.xe + ((y - s.xe) * g).tdiv SG) := estimate_between hg0 hg1
  generalize ((y - s.xe) * g).tdiv SG = correction at hcorrection hbetween
  generalize hxe : s.xe + correction = xe at hbetween
  have hxe' : -2 ^ 30 < xe ∧ xe < 2 ^ 30 := by
    rcases hbetween with h | h
    · omega
    · omega
  have hxelong : long xe = some xe := long_of (by omega) (by omega)
  have hxeint : int xe = some xe := int_of (by omega) (by omega)
  -- the covariance shrinks
  have hcomplement : int (SG - g) = some (SG - g) := int_of (by omega) (by omega)
  have hshrunk := simuldiv_eq (s := SG - g) (m := pp) (d := SG) (by omega) (by omega)
    hpp0 (by omega) (by decide) (by decide)
  generalize ((SG - g) * pp).tdiv SG = pe at hshrunk hpe0' hpe1'
  have hpeint : int pe = some pe := int_of (by omega) (by omega)
  -- the test for the end
  have hdx : int (xe - s.xe) = some (xe - s.xe) := int_of (by omega) (by omega)
  have hdxAbs : int (xe - s.xe).natAbs = some ((xe - s.xe).natAbs : Int) :=
    int_of (by omega) (by omega)
  have hxeAbs : int xe.natAbs = some (xe.natAbs : Int) := int_of (by omega) (by omega)
  have hdp : int (pe - s.pe) = some (pe - s.pe) := int_of (by omega) (by omega)
  have hdpAbs : int (pe - s.pe).natAbs = some ((pe - s.pe).natAbs : Int) :=
    int_of (by omega) (by omega)
  have hpeAbs : int pe.natAbs = some (pe.natAbs : Int) := int_of (by omega) (by omega)
  have hcalok : int (s.calok + 1) = some (s.calok + 1) := int_of (by omega) (by omega)
  rw [pass, bind_of hq, bind_of hr]
  dsimp only
  rw [hmeas, bind_of hinflated, bind_of hpplong, bind_of hppint, bind_of hsum, bind_of hgain,
    bind_of hgint, bind_of hdiff, bind_of hcorrection, hxe, bind_of hxelong, bind_of hxeint,
    bind_of hcomplement, bind_of hshrunk, bind_of hpeint, bind_of hdx, bind_of hdxAbs,
    bind_of hxeAbs, bind_of hdp, bind_of hdpAbs, bind_of hpeAbs, bind_of hcalok]
  split
  · refine ⟨_, rfl, fun hleft => ⟨⟨hpe0', hpe1'⟩, hxe', ?_⟩, ⟨hpe0', hpe1'⟩, ⟨hg0, hg1⟩,
      hbetween⟩
    have hcount : ¬ s.calok > 250 := by simpa using hleft
    exact ⟨by dsimp only; omega, by dsimp only; omega⟩
  · exact ⟨_, rfl, fun _ => ⟨⟨hpe0', hpe1'⟩, hxe', Int.le_refl 1, by dsimp only; omega⟩, ⟨hpe0', hpe1'⟩, ⟨hg0, hg1⟩,
      hbetween⟩

/-! ## Every run -/

theorem Spanned.mono {seen seen' : List Int} {x : Int} (h : Spanned seen x)
    (hsub : seen ⊆ seen') : Spanned seen' x := by
  obtain ⟨lo, hlo, hi, hhi, h0, h1⟩ := h
  exact ⟨lo, List.cons_subset_cons 0 hsub hlo, hi, List.cons_subset_cons 0 hsub hhi, h0, h1⟩

theorem InRange.mono {seen seen' : List Int} {s : Kf} (h : InRange seen s)
    (hsub : seen ⊆ seen') : InRange seen' s :=
  ⟨h.pe, h.g, h.xe.mono hsub⟩

/-- What the filter has seen after a pass. -/
def saw (seen : List Int) : Option Int → List Int
  | none => seen
  | some y => seen ++ [y]

theorem saw_sub (seen : List Int) (measured : Option Int) : seen ⊆ saw seen measured := by
  cases measured with
  | none => exact List.Subset.refl seen
  | some y => exact List.subset_append_left seen [y]

theorem saw_spanned {seen : List Int} {xe : Int} (h : Spanned seen xe)
    (measured : Option Int) : Spanned (saw seen measured) (measured.getD xe) := by
  cases measured with
  | none => exact h
  | some y =>
    have hmem : y ∈ 0 :: (seen ++ [y]) := by simp
    exact ⟨y, hmem, y, hmem, Int.le_refl y, Int.le_refl y⟩

/-- A pass keeps the ranges. -/
theorem pass_inRange {s : Kf} {seen : List Int} {measured : Option Int} (hs : Ready s)
    (hrange : InRange seen s) (hy : ∀ y ∈ measured, -2 ^ 30 < y ∧ y < 2 ^ 30) :
    ∃ s', pass s measured = some s' ∧ (s'.left = false → Ready s') ∧
      InRange (saw seen measured) s' := by
  have hy' : -2 ^ 30 < measured.getD s.xe ∧ measured.getD s.xe < 2 ^ 30 := by
    cases measured with
    | none => exact hs.xe
    | some y => exact hy y rfl
  obtain ⟨s', hs', hready, hpe, hg, hbetween⟩ := pass_spec hs hy'
  exact ⟨s', hs', hready, hpe, hg,
    (hrange.xe.mono (saw_sub seen measured)).between (saw_spanned hrange.xe measured) hbetween⟩

theorem passes_inRange (ms : List (Option Int)) :
    ∀ (s : Kf) (seen : List Int), (s.left = false → Ready s) → InRange seen s →
      (∀ y, some y ∈ ms → -2 ^ 30 < y ∧ y < 2 ^ 30) →
      ∃ s', passes s ms = some s' ∧ InRange (seen ++ ms.filterMap id) s' := by
  induction ms with
  | nil =>
    intro s seen _ hrange _
    refine ⟨s, rfl, ?_⟩
    simpa using hrange
  | cons measured ms ih =>
    intro s seen hready hrange hy
    cases hleft : s.left with
    | true =>
      refine ⟨s, ?_, hrange.mono (List.subset_append_left _ _)⟩
      rw [passes, if_pos hleft]
    | false =>
      obtain ⟨s', hs', hready', hrange'⟩ := pass_inRange (hready hleft) hrange
        fun y hm => hy y (by rw [← hm]; exact List.mem_cons_self)
      obtain ⟨s'', hs'', hrange''⟩ := ih s' (saw seen measured) hready' hrange'
        fun y hm => hy y (List.mem_cons_of_mem _ hm)
      refine ⟨s'', ?_, hrange''.mono ?_⟩
      · rw [passes, if_neg (by rw [hleft]; decide), bind_of hs']
        exact hs''
      · cases measured with
        | none => simp [saw]
        | some y => simp [saw]

/-- **THE LATENCY FILTER STAYS IN RANGE** for any measurements, through any
    number of passes. -/
theorem filter_in_range (measured : List (Option Int))
    (h : ∀ y, some y ∈ measured → -2 ^ 30 < y ∧ y < 2 ^ 30) :
    ∃ s, kfLatEval measured = some s ∧ InRange (measured.filterMap id) s := by
  have hinit : kfInit = some ⟨1000000000, 0, P0 * P0, 0, 1, false⟩ :=
    bind_of (int_of (by decide) (by decide)) _
  have hready : Ready ⟨1000000000, 0, P0 * P0, 0, 1, false⟩ := by
    constructor
    · exact ⟨by decide, by decide⟩
    · exact ⟨by decide, by decide⟩
    · exact ⟨by decide, by decide⟩
  have hrange : InRange [] ⟨1000000000, 0, P0 * P0, 0, 1, false⟩ := by
    constructor
    · exact ⟨by decide, by decide⟩
    · exact ⟨by decide, by decide⟩
    · exact ⟨0, List.mem_cons_self, 0, List.mem_cons_self, Int.le_refl 0, Int.le_refl 0⟩
  obtain ⟨s, hs, hs'⟩ := passes_inRange measured _ [] (fun _ => hready) hrange h
  refine ⟨s, ?_, hs'⟩
  rw [kfLatEval, bind_of hinit]
  exact hs

theorem filter_of_three : ∃ s, kfLatEval [some 5000, none, some (-200)] = some s ∧
    InRange [5000, -200] s := by
  refine filter_in_range [some 5000, none, some (-200)] fun y hy => ?_
  simp only [List.mem_cons, Option.some.injEq, List.not_mem_nil, or_false] at hy
  rcases hy with rfl | hy | rfl
  · decide
  · exact nomatch hy
  · decide

end RtaiLatencyFilter
