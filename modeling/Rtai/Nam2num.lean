import Mathlib

/-! # Names and identifiers

    `nam2num` and `num2nam`: a name of at most six characters is a number in
    base 40, without its length, and an identifier is that number plus 2.
    The memory in front of a `char *` and behind it is a function, and the
    string is what is there up to the first zero. -/

namespace RtaiNam2num

/-! ## The characters -/

/-- `islower`, `isupper` and `isdigit`. -/
def isLower (c : Int) : Prop := 97 ≤ c ∧ c ≤ 122

/-- A capital letter. -/
def isUpper (c : Int) : Prop := 65 ≤ c ∧ c ≤ 90

/-- A digit. -/
def isDigit (c : Int) : Prop := 48 ≤ c ∧ c ≤ 57

instance (c : Int) : Decidable (isLower c) := inferInstanceAs (Decidable (_ ∧ _))

instance (c : Int) : Decidable (isUpper c) := inferInstanceAs (Decidable (_ ∧ _))

instance (c : Int) : Decidable (isDigit c) := inferInstanceAs (Decidable (_ ∧ _))

/-- A `char` as an `int`, for a character of ASCII. -/
def toInt (c : UInt8) : Int := c.toNat

/-- An `int` stored in a `char`. -/
def toChar (c : Int) : UInt8 := UInt8.ofNat (c % 256).toNat

/-- What `nam2num` makes of a character. -/
def charCode (c : Int) : Int :=
  if isLower c then c + (10 - 97)
  else if isUpper c then c + (10 - 65)
  else if isDigit c then c - 48
  else if c = 95 then 36
  else if c = 64 then 37
  else if c = 46 then 38
  else 39

/-- What `num2nam` makes of a digit. -/
def codeChar (c : Int) : UInt8 :=
  if c < 36 then if c > 9 then toChar (c + 65 - 10) else toChar (c + 48)
  else if c = 36 then 95
  else if c = 37 then 64
  else if c = 38 then 46
  else 36

/-- Letters, digits and four more. -/
def Allowed (c : UInt8) : Prop :=
  isLower (toInt c) ∨ isUpper (toInt c) ∨ isDigit (toInt c) ∨ c = 95 ∨ c = 64 ∨ c = 46 ∨ c = 36

instance (c : UInt8) : Decidable (Allowed c) :=
  inferInstanceAs (Decidable (_ ∨ _))

/-- A letter in upper case, and any other character. -/
def toUpper (c : UInt8) : UInt8 := if isLower (toInt c) then c - 32 else c

/-! ## The two functions -/

/-- The loop of `nam2num` from `i` on, with `left` passes to go: where it stops
    and the value. -/
def nam2numLoop (name : Int → UInt8) : Nat → Int → Nat → Int × Nat
  | 0, i, retval => (i, retval)
  | left + 1, i, retval =>
    if name i = 0 then (i, retval)
    else
      nam2numLoop name left (i + 1)
        (((retval : Int) * 40 + charCode (toInt (name i))) % 2 ^ 64).toNat

/-- `nam2num` -/
def nam2num (name : Int → UInt8) : Nat :=
  let r := nam2numLoop name 6 0 0
  if r.1 > 0 then (r.2 + 2) % 2 ^ 64 else 0xFFFFFFFF

/-- A value as an `int`. -/
def int (n : Int) : Int := n.bmod (2 ^ 32)

/-- `while (num && i >= 0)`, with `left` passes to go. -/
def digitsLoop : Nat → Int → Nat → (Int → UInt8) → Int × (Int → UInt8)
  | 0, i, _, name => (i, name)
  | left + 1, i, num, name =>
    if num ≠ 0 ∧ i ≥ 0 then
      let q := int (num / 40)
      let c := int ((num : Int) - int (q * 40))
      digitsLoop left (i - 1) (q % 2 ^ 64).toNat (Function.update name i (codeChar c))
    else (i, name)

/-- `for (k = 0; i < 5; k++)`, with `left` passes to go. -/
def shiftLoop : Nat → Int → Int → (Int → UInt8) → Int × (Int → UInt8)
  | 0, k, _, name => (k, name)
  | left + 1, k, i, name =>
    if i < 5 then
      shiftLoop left (k + 1) (i + 1) (Function.update name k (name (i + 1)))
    else (k, name)

/-- The first number of no name. -/
def MAX_NAM2NUM : Nat := 4096000003

/-- `strncpy(name, "|null|", 7)` -/
def nullName (name : Int → UInt8) : Int → UInt8 :=
  [124, 110, 117, 108, 108, 124, 0].zipIdx.foldl
    (fun name x => Function.update name x.2 x.1) name

/-- `num2nam` -/
def num2nam (num : Nat) (name : Int → UInt8) : Int → UInt8 :=
  if num ≥ MAX_NAM2NUM then nullName name
  else
    let r := digitsLoop 6 5 (((num : Int) - 2) % 2 ^ 64).toNat name
    let r := shiftLoop 6 0 r.1 r.2
    Function.update r.2 r.1 0

/-- The string at a `char *`. -/
structure IsString (name : Int → UInt8) (s : List UInt8) : Prop where
  char : ∀ k (h : k < s.length), name k = s[k]
  terminated : name s.length = 0
  nonzero : ∀ c ∈ s, c ≠ 0

/-- A name of 1 to 6 allowed characters. -/
structure IsName (s : List UInt8) : Prop where
  pos : 1 ≤ s.length
  le : s.length ≤ 6
  allowed : ∀ c ∈ s, Allowed c

/-- A name in memory. -/
def stringAt (s : List UInt8) : Int → UInt8 :=
  fun i => if i < 0 then 0 else s.getD i.toNat 0


/-! ## Characters and digits -/

/-- The digit of a character. -/
def code (c : UInt8) : Nat := (charCode (toInt c)).toNat

theorem charCode_range (c : UInt8) : 0 ≤ charCode (toInt c) ∧ charCode (toInt c) < 40 := by
  unfold charCode isLower isUpper isDigit
  split_ifs <;> omega

theorem charCode_eq (c : UInt8) : charCode (toInt c) = code c :=
  (Int.toNat_of_nonneg (charCode_range c).1).symm

theorem code_lt (c : UInt8) : code c < 40 := by
  have h := charCode_range c
  unfold code
  omega

theorem code_codeChar {d : Nat} (h : d < 40) : code (codeChar d) = d := by
  have hall : ∀ d : Fin 40, code (codeChar (d : Nat)) = d := by decide
  exact hall ⟨d, h⟩

theorem allowed_codeChar {d : Nat} (h : d < 40) : Allowed (codeChar d) := by
  have hall : ∀ d : Fin 40, Allowed (codeChar (d : Nat)) := by decide
  exact hall ⟨d, h⟩

theorem Allowed.ne_zero {c : UInt8} (h : Allowed c) : c ≠ 0 := by
  rintro rfl
  exact absurd h (by decide)

set_option maxRecDepth 4000 in
/-- Back to the character, in upper case. -/
theorem codeChar_code {c : UInt8} (h : Allowed c) : codeChar (code c) = toUpper c := by
  have hall : ∀ n : Fin 256, Allowed (UInt8.ofNat n) →
      codeChar (code (UInt8.ofNat n)) = toUpper (UInt8.ofNat n) := by decide
  have hc := hall ⟨c.toNat, c.toNat_lt⟩
  rw [UInt8.ofNat_toNat] at hc
  exact hc h

set_option maxRecDepth 4000 in
/-- Only `'0'` is the digit 0. -/
theorem code_eq_zero {c : UInt8} (h : Allowed c) : code c = 0 ↔ c = 48 := by
  have hall : ∀ n : Fin 256, Allowed (UInt8.ofNat n) →
      (code (UInt8.ofNat n) = 0 ↔ UInt8.ofNat n = 48) := by decide
  have hc := hall ⟨c.toNat, c.toNat_lt⟩
  rw [UInt8.ofNat_toNat] at hc
  exact hc h

/-! ## From a name to a number -/

/-- The number a name stands for. -/
def value (s : List UInt8) : Nat := Nat.ofDigits 40 (s.map code).reverse

theorem value_cons (c : UInt8) (s : List UInt8) :
    value (c :: s) = code c * 40 ^ s.length + value s := by
  unfold value
  rw [List.map_cons, List.reverse_cons, Nat.ofDigits_append,
    Nat.ofDigits_singleton, List.length_reverse, List.length_map]
  ring

theorem value_lt (s : List UInt8) : value s < 40 ^ s.length := by
  induction s with
  | nil => decide
  | cons c s ih =>
    have hc := code_lt c
    rw [value_cons, List.length_cons, pow_succ]
    calc code c * 40 ^ s.length + value s < code c * 40 ^ s.length + 40 ^ s.length := by omega
      _ = (code c + 1) * 40 ^ s.length := by ring
      _ ≤ 40 * 40 ^ s.length := Nat.mul_le_mul_right _ hc
      _ = 40 ^ s.length * 40 := Nat.mul_comm _ _

/-- The loop of `nam2num` on the rest `s` of a string. -/
theorem nam2numLoop_spec {name : Int → UInt8} {left : Nat} {i : Int} {r : Nat}
    {s : List UInt8} (hle : s.length ≤ left)
    (hend : s.length = left ∨ name (i + s.length) = 0)
    (hs : ∀ k (h : k < s.length), name (i + k) = s[k]) (h0 : ∀ c ∈ s, c ≠ 0)
    (hr : (r + 1) * 40 ^ left ≤ 2 ^ 64) :
    nam2numLoop name left i r = (i + s.length, r * 40 ^ s.length + value s) := by
  induction left generalizing i r s with
  | zero =>
    obtain rfl := List.eq_nil_of_length_eq_zero (Nat.le_zero.mp hle)
    simp [nam2numLoop, value]
  | succ left ih =>
    cases s with
    | nil =>
      have hz : name i = 0 := by
        rcases hend with h | h
        · exact absurd h (by simp)
        · simpa using h
      simp [nam2numLoop, hz, value]
    | cons c s =>
      have hc : name i = c := by
        have h := hs 0 (Nat.succ_pos _)
        rwa [Nat.cast_zero, add_zero] at h
      have hcz : c ≠ 0 := h0 c (List.mem_cons_self ..)
      have hlt := code_lt c
      have hstep : (r * 40 + code c + 1) * 40 ^ left ≤ 2 ^ 64 := by
        refine le_trans ?_ hr
        rw [pow_succ]
        calc (r * 40 + code c + 1) * 40 ^ left
            ≤ ((r + 1) * 40) * 40 ^ left := Nat.mul_le_mul_right _ (by omega)
          _ = (r + 1) * (40 ^ left * 40) := by ring
      have hfit : r * 40 + code c < 2 ^ 64 := by
        have hpos : 1 ≤ 40 ^ left := Nat.one_le_pow _ _ (by decide)
        have := Nat.le_mul_of_pos_right (r * 40 + code c + 1) hpos
        omega
      have hval : (((r : Int) * 40 + charCode (toInt c)) % 2 ^ 64).toNat =
          r * 40 + code c := by
        rw [charCode_eq]
        omega
      have hlen : s.length ≤ left := Nat.le_of_succ_le_succ hle
      have hnext := ih (i := i + 1) (r := r * 40 + code c) (s := s) hlen
        (by
          rcases hend with h | h
          · exact Or.inl (Nat.succ.inj h)
          · right
            rw [List.length_cons] at h
            rw [← h]
            congr 1
            push_cast
            omega)
        (by
          intro k hk
          have h := hs (k + 1) (Nat.succ_lt_succ hk)
          rw [List.getElem_cons_succ] at h
          rw [← h]
          congr 1
          push_cast
          omega)
        (fun x hx => h0 x (List.mem_cons_of_mem _ hx)) hstep
      unfold nam2numLoop
      rw [hc, if_neg hcz, hval, hnext, value_cons, List.length_cons, pow_succ]
      refine Prod.ext ?_ ?_
      · push_cast
        omega
      · show (r * 40 + code c) * 40 ^ s.length + value s = _
        ring

theorem IsName.nonzero {s : List UInt8} (h : IsName s) : ∀ c ∈ s, c ≠ 0 :=
  fun c hc => (h.allowed c hc).ne_zero

/-- **THE IDENTIFIER OF A NAME**. -/
theorem nam2num_eq {name : Int → UInt8} {s : List UInt8} (hs : IsString name s)
    (hpos : 1 ≤ s.length) (hle : s.length ≤ 6) : nam2num name = value s + 2 := by
  have hloop := @nam2numLoop_spec name 6 0 0 s hle
    (Or.inr (by rw [zero_add]; exact hs.terminated))
    (fun k hk => by rw [zero_add]; exact hs.char k hk) hs.nonzero (by decide)
  have hlt : value s < 40 ^ 6 :=
    (value_lt s).trans_le (Nat.pow_le_pow_right (by decide) hle)
  unfold nam2num
  rw [hloop]
  dsimp only
  rw [if_pos (by omega), Nat.zero_mul, Nat.zero_add]
  exact Nat.mod_eq_of_lt (by omega)

/-- The empty string. -/
theorem nam2num_empty {name : Int → UInt8} (h : IsString name []) :
    nam2num name = 0xFFFFFFFF := by
  have hz : name 0 = 0 := h.terminated
  unfold nam2num nam2numLoop
  rw [hz]
  rfl

/-! ## From a number to a name -/

/-- A list of characters written from `a` on. -/
def written (name : Int → UInt8) (a : Int) (s : List UInt8) : Int → UInt8 :=
  fun j => if a ≤ j ∧ j < a + s.length then s.getD (j - a).toNat 0 else name j

theorem written_nil (name : Int → UInt8) (a : Int) : written name a [] = name := by
  funext j
  exact if_neg (by simp only [List.length_nil]; omega)

theorem written_outside {name : Int → UInt8} {a j : Int} {s : List UInt8}
    (h : j < a ∨ a + s.length ≤ j) : written name a s j = name j :=
  if_neg (by omega)

theorem written_get {name : Int → UInt8} {a : Int} {s : List UInt8} {k : Nat}
    (h : k < s.length) : written name a s (a + k) = s[k] := by
  unfold written
  rw [if_pos (by omega), show a + (k : Int) - a = k by omega, Int.toNat_natCast,
    List.getD_eq_getElem _ _ h]

/-- One more character at the front. -/
theorem written_cons (name : Int → UInt8) (a : Int) (c : UInt8) (s : List UInt8) :
    written (Function.update name a c) (a + 1) s = written name a (c :: s) := by
  funext j
  unfold written
  rw [List.length_cons, Nat.cast_succ]
  by_cases hj : j = a
  · rw [if_neg (by omega), if_pos (by omega), hj, Function.update_self]
    simp
  · rw [Function.update_of_ne hj]
    by_cases hin : a + 1 ≤ j ∧ j < a + 1 + s.length
    · rw [if_pos hin, if_pos (by omega),
        show (j - a).toNat = (j - (a + 1)).toNat + 1 by omega, List.getD_cons_succ]
    · rw [if_neg hin, if_neg (by omega)]

/-- One more character at the end. -/
theorem written_concat {name : Int → UInt8} {a b : Int} {c : UInt8}
    {s : List UInt8} (hb : b = a + s.length) :
    written (Function.update name b c) a s = written name a (s ++ [c]) := by
  funext j
  unfold written
  rw [List.length_append, List.length_singleton]
  push_cast
  by_cases hin : a ≤ j ∧ j < a + s.length
  · rw [if_pos hin, if_pos (by omega), List.getD_append _ _ _ _ (by omega)]
  · rw [if_neg hin]
    by_cases hj : j = b
    · rw [hj, Function.update_self, if_pos (by omega),
        List.getD_append_right _ _ _ _ (by omega),
        show (b - a).toNat - s.length = 0 by omega]
      rfl
    · rw [Function.update_of_ne hj, if_neg (by omega)]

/-- A quotient and a remainder, though `q*40` may wrap around. -/
theorem digit_step {num : Nat} (h : num < 2 ^ 32) : int ((num : Int) / 40) = (num / 40 : Nat) ∧
      int ((num : Int) - int (((num / 40 : Nat) : Int) * 40)) = (num % 40 : Nat) := by
  unfold int
  rw [Int.bmod_def, Int.bmod_def, Int.bmod_def]
  constructor
  · split_ifs <;> omega
  · split_ifs <;> omega

/-- The characters of a number. -/
def digitName (num : Nat) : List UInt8 :=
  ((Nat.digits 40 num).map fun d => codeChar (d : Nat)).reverse

theorem digitName_pos {num : Nat} (h : num ≠ 0) :
    digitName num = digitName (num / 40) ++ [codeChar ((num % 40 : Nat) : Int)] := by
  unfold digitName
  rw [Nat.digits_def' (by decide) (Nat.pos_of_ne_zero h), List.map_cons, List.reverse_cons]

theorem length_digitName (num : Nat) :
    (digitName num).length = (Nat.digits 40 num).length := by
  unfold digitName
  rw [List.length_reverse, List.length_map]

theorem length_digitName_le {num n : Nat} (h : num < 40 ^ n) : (digitName num).length ≤ n := by
  rw [length_digitName]
  exact (Nat.digits_length_le_iff (by decide) num).mpr h

/-- **THE FIRST LOOP** writes the digits in front of the end. -/
theorem digitsLoop_spec {left num : Nat} {i : Int} {name : Int → UInt8}
    (hi : i + 1 = left) (h : num < 40 ^ left) (h32 : num < 2 ^ 32) :
    digitsLoop left i num name = (i - (digitName num).length,
        written name (i + 1 - (digitName num).length) (digitName num)) := by
  induction left generalizing i num name with
  | zero =>
    obtain rfl : num = 0 := Nat.lt_one_iff.mp h
    have hnil : digitName 0 = [] := rfl
    rw [hnil, written_nil]
    simp [digitsLoop]
  | succ left ih =>
    by_cases hz : num = 0
    · have hnil : digitName 0 = [] := rfl
      rw [hz, hnil, written_nil]
      simp [digitsLoop]
    · obtain ⟨hq, hc⟩ := digit_step h32
      have hnum : num / 40 < 40 ^ left := by
        rw [pow_succ] at h
        exact Nat.div_lt_of_lt_mul (by rw [Nat.mul_comm]; exact h)
      have hback : ((((num / 40 : Nat) : Int)) % 2 ^ 64).toNat = num / 40 := by
        omega
      have hlen : (digitName num).length = (digitName (num / 40)).length + 1 := by
        rw [digitName_pos hz, List.length_append, List.length_singleton]
      have hplace : i + 1 - (((digitName (num / 40)).length + 1 : Nat) : Int) =
          i - 1 + 1 - (digitName (num / 40)).length := by omega
      have hloop : digitsLoop left (i - 1) (num / 40)
          (Function.update name i (codeChar ((num % 40 : Nat) : Int))) = _ :=
        ih (by omega) hnum (by omega)
      unfold digitsLoop
      rw [if_pos (by omega)]
      dsimp only
      rw [hq, hc, hback, hloop, hlen]
      refine Prod.ext ?_ ?_
      · show i - 1 - ((digitName (num / 40)).length : Int) =
          i - (((digitName (num / 40)).length + 1 : Nat) : Int)
        omega
      · rw [hplace]
        dsimp only
        rw [written_concat (by omega), digitName_pos hz]

/-- **THE SECOND LOOP** moves what is at the end to the front. -/
theorem shiftLoop_spec {left : Nat} {k i : Int} {name : Int → UInt8}
    {s : List UInt8} (hs : ∀ m (h : m < s.length), name (i + 1 + m) = s[m])
    (hend : i + s.length = 5) (hle : s.length ≤ left) (hk : k ≤ i + 1) :
    shiftLoop left k i name = (k + s.length, written name k s) := by
  induction s generalizing left k i name with
  | nil =>
    have hi : i = 5 := by simpa using hend
    rw [written_nil]
    cases left with
    | zero => simp [shiftLoop]
    | succ left => simp [shiftLoop, hi]
  | cons c s ih =>
    cases left with
    | zero => exact absurd hle (by simp)
    | succ left =>
      rw [List.length_cons, Nat.cast_succ] at hend
      have hc : name (i + 1) = c := by
        have h := hs 0 (Nat.succ_pos _)
        rwa [Nat.cast_zero, add_zero] at h
      have hrest : ∀ m (h : m < s.length),
          Function.update name k c (i + 1 + 1 + m) = s[m] := by
        intro m hm
        have h := hs (m + 1) (Nat.succ_lt_succ hm)
        rw [List.getElem_cons_succ] at h
        rw [Function.update_of_ne (by omega), ← h]
        congr 1
        push_cast
        omega
      have hnext : shiftLoop left (k + 1) (i + 1) (Function.update name k c) = _ :=
        ih hrest (by omega) (Nat.le_of_succ_le_succ hle) (by omega)
      unfold shiftLoop
      rw [if_pos (by omega), hc, hnext, written_cons, List.length_cons]
      refine Prod.ext ?_ rfl
      show k + 1 + (s.length : Int) = k + ((s.length + 1 : Nat) : Int)
      omega

theorem digitName_allowed (num : Nat) : ∀ c ∈ digitName num, Allowed c := by
  intro c hc
  obtain ⟨d, hd, rfl⟩ := List.mem_map.mp (List.mem_reverse.mp hc)
  exact allowed_codeChar (Nat.digits_lt_base (by decide) hd)

theorem value_digitName (num : Nat) : value (digitName num) = num := by
  have hcodes : ((digitName num).map code).reverse = Nat.digits 40 num := by
    unfold digitName
    rw [List.map_reverse, List.reverse_reverse, List.map_map]
    have hid : ∀ d ∈ Nat.digits 40 num, (code ∘ fun d : Nat => codeChar d) d = d :=
      fun d hd => code_codeChar (Nat.digits_lt_base (by decide) hd)
    rw [List.map_congr_left hid]
    exact List.map_id _
  unfold value
  rw [hcodes]
  exact Nat.ofDigits_digits 40 num

section Num2nam

variable {num : Nat} (h2 : 2 ≤ num) (hnum : num - 2 < 40 ^ 6)
include h2 hnum

/-- **WHAT `num2nam` WRITES**. -/
theorem num2nam_eq (name : Int → UInt8) : num2nam num name =
      let s := digitName (num - 2)
      Function.update (written (written name (6 - s.length) s) 0 s) s.length 0 := by
  have hle := length_digitName_le hnum
  have hback : (((num : Int) - 2) % 2 ^ 64).toNat = num - 2 := by omega
  have hfirst := @digitsLoop_spec 6 (num - 2) 5 name rfl hnum (by omega)
  have hsecond := @shiftLoop_spec 6 0 (5 - (digitName (num - 2)).length)
    (written name (6 - (digitName (num - 2)).length) (digitName (num - 2)))
    (digitName (num - 2))
    (by
      intro m hm
      rw [show (5 : Int) - (digitName (num - 2)).length + 1 =
        6 - (digitName (num - 2)).length by omega]
      exact written_get hm)
    (by omega) hle (by omega)
  unfold num2nam MAX_NAM2NUM
  rw [if_neg (by omega), hback, hfirst]
  dsimp only
  rw [show (5 : Int) + 1 = 6 from rfl, hsecond, zero_add]

theorem num2nam_string (name : Int → UInt8) :
    IsString (num2nam num name) (digitName (num - 2)) := by
  rw [num2nam_eq h2 hnum]
  refine ⟨?_, Function.update_self .., ?_⟩
  · intro k hk
    rw [Function.update_of_ne (by omega), ← Int.zero_add (k : Int)]
    exact written_get hk
  · intro c hc
    exact (digitName_allowed _ c hc).ne_zero

/-- **NOTHING ELSE IS WRITTEN**. -/
theorem num2nam_outside (name : Int → UInt8) {j : Int} (hj : j < 0 ∨ 6 < j) :
    num2nam num name j = name j := by
  have hle := length_digitName_le hnum
  rw [num2nam_eq h2 hnum]
  dsimp only
  rw [Function.update_of_ne (by omega), written_outside (by omega), written_outside (by omega)]

end Num2nam

/-! ## There and back -/

/-- **AN IDENTIFIER COMES BACK**, from a string in the seven bytes. -/
theorem identifiers_survive (n : Nat) (h3 : 3 ≤ n) (hn : n ≤ 4096000001) (name : Int → UInt8) :
    (∀ j, j < 0 ∨ 6 < j → num2nam n name j = name j) ∧
      ∃ s, IsName s ∧ IsString (num2nam n name) s ∧ nam2num (num2nam n name) = n := by
  have h2 : 2 ≤ n := by omega
  have hnum : n - 2 < 40 ^ 6 := by omega
  -- the name is read back digit by digit
  have hstring := num2nam_string h2 hnum name
  have hle := length_digitName_le hnum
  have hpos : 1 ≤ (digitName (n - 2)).length := by
    rw [digitName_pos (by omega), List.length_append]
    exact Nat.le_add_left _ _
  refine ⟨fun j hj => num2nam_outside h2 hnum name hj, digitName (n - 2), ?_, hstring, ?_⟩
  · exact ⟨hpos, hle, digitName_allowed _⟩
  · rw [nam2num_eq hstring hpos hle, value_digitName]
    exact Nat.sub_add_cancel h2

theorem identifiers_survive_three : (∀ j, j < 0 ∨ 6 < j → num2nam 3 (fun _ => 7) j = 7) ∧
      ∃ s, IsName s ∧ IsString (num2nam 3 fun _ => 7) s ∧ nam2num (num2nam 3 fun _ => 7) = 3 :=
  identifiers_survive 3 (by decide) (by decide) fun _ => 7

/-- The string at a `char *` is one. -/
theorem IsString.unique {name : Int → UInt8} {s t : List UInt8}
    (hs : IsString name s) (ht : IsString name t) : s = t := by
  have hnot : ∀ {s t : List UInt8}, IsString name s → IsString name t →
      ¬ s.length < t.length := by
    intro s t hs ht hlt
    have hz := ht.char s.length hlt
    rw [hs.terminated] at hz
    exact ht.nonzero _ (List.getElem_mem hlt) hz.symm
  have hlen : s.length = t.length := by
    have h1 := hnot hs ht
    have h2 := hnot ht hs
    omega
  refine List.ext_getElem hlen ?_
  intro k hk1 hk2
  rw [← hs.char k hk1, ht.char k hk2]

theorem IsName.nam2num {name : Int → UInt8} {s : List UInt8} (h : IsName s)
    (hs : IsString name s) : nam2num name = value s + 2 :=
  nam2num_eq hs h.pos h.le

/-- The digits of a name that does not begin with `'0'` are those of its
    number. -/
theorem digitName_value {s : List UInt8} (h : IsName s)
    (hhead : s.head? ≠ some 48) : digitName (value s) = s.map toUpper := by
  have hdigits : Nat.digits 40 (value s) = (s.map code).reverse := by
    refine Nat.digits_ofDigits 40 (by decide) _ ?_ ?_
    · intro d hd
      obtain ⟨c, -, rfl⟩ := List.mem_map.mp (List.mem_reverse.mp hd)
      exact code_lt c
    · intro hne
      cases s with
      | nil => exact absurd h.pos (by decide)
      | cons c s =>
        have hc := h.allowed c (List.mem_cons_self ..)
        simp only [List.map_cons, List.reverse_cons, List.getLast_append_singleton]
        rw [Ne, code_eq_zero hc]
        intro h48
        exact hhead (congrArg some h48)
  unfold digitName
  rw [hdigits, List.map_reverse, List.reverse_reverse, List.map_map]
  refine List.map_congr_left ?_
  intro c hc
  exact codeChar_code (h.allowed c hc)

/-- **A NAME COMES BACK** unless it begins with `'0'`. -/
theorem survives_iff {name buf : Int → UInt8} {s : List UInt8} (h : IsName s)
    (hs : IsString name s) :
    IsString (num2nam (nam2num name) buf) (s.map toUpper) ↔ s.head? ≠ some 48 := by
  have hlt : value s < 40 ^ 6 :=
    (value_lt s).trans_le (Nat.pow_le_pow_right (by decide) h.le)
  have hstring := @num2nam_string (value s + 2) (by omega) (by omega) buf
  rw [Nat.add_sub_cancel] at hstring
  rw [h.nam2num hs]
  constructor
  · intro hback hhead
    have heq := congrArg List.length (hback.unique hstring)
    rw [List.length_map] at heq
    cases s with
    | nil => exact nomatch hhead
    | cons c s =>
      obtain rfl : c = 48 := Option.some.inj hhead
      have hzero : code 48 = 0 := by decide
      have hval : value (48 :: s) < 40 ^ s.length := by
        rw [value_cons, hzero, Nat.zero_mul, Nat.zero_add]
        exact value_lt s
      have hle := length_digitName_le hval
      rw [List.length_cons] at heq
      omega
  · intro hhead
    rw [← digitName_value h hhead]
    exact hstring

/-- What is promised of two names. -/
structure NamesSurvive (x y buf : Int → UInt8) (s t : List UInt8) : Prop where
  first : IsString (num2nam (nam2num x) buf) (s.map toUpper)
  second : IsString (num2nam (nam2num y) buf) (t.map toUpper)
  apart : s.map toUpper ≠ t.map toUpper → nam2num x ≠ nam2num y
  nonempty : ∀ e, IsString e [] → nam2num x ≠ nam2num e ∧ nam2num y ≠ nam2num e

/-- **NAMES SURVIVE** if and only if they do not begin with `'0'`. -/
theorem names_survive_iff {x y buf : Int → UInt8} {s t : List UInt8}
    (hs : IsName s) (ht : IsName t) (hx : IsString x s) (hy : IsString y t) :
    NamesSurvive x y buf s t ↔ s.head? ≠ some 48 ∧ t.head? ≠ some 48 := by
  constructor
  · intro h
    exact ⟨(survives_iff hs hx).mp h.first, (survives_iff ht hy).mp h.second⟩
  · rintro ⟨h1, h2⟩
    have hfirst := (@survives_iff x buf s hs hx).mpr h1
    have hsecond := (@survives_iff y buf t ht hy).mpr h2
    refine ⟨hfirst, hsecond, ?_, ?_⟩
    -- equal numbers give back equal strings
    · intro hne heq
      rw [heq] at hfirst
      exact hne (hfirst.unique hsecond)
    · have hnot : ∀ {name s}, IsName s → IsString name s → nam2num name ≠ 0xFFFFFFFF := by
        intro name s h hn
        have hlt : value s < 40 ^ 6 :=
          (value_lt s).trans_le (Nat.pow_le_pow_right (by decide) h.le)
        rw [h.nam2num hn]
        omega
      intro e he
      rw [nam2num_empty he]
      exact ⟨hnot hs hx, hnot ht hy⟩

theorem stringAt_string {s : List UInt8} (h : ∀ c ∈ s, c ≠ 0) : IsString (stringAt s) s := by
  refine ⟨?_, ?_, h⟩
  · intro k hk
    unfold stringAt
    rw [if_neg (by omega), Int.toNat_natCast, List.getD_eq_getElem _ _ hk]
  · unfold stringAt
    rw [if_neg (by omega), Int.toNat_natCast, List.getD_eq_default _ _ le_rfl]

theorem isName_of_all {s : List UInt8} (hpos : 1 ≤ s.length) (hle : s.length ≤ 6)
    (hall : s.all fun c => decide (Allowed c)) : IsName s :=
  ⟨hpos, hle, fun c hc => of_decide_eq_true (List.all_eq_true.mp hall c hc)⟩

theorem names_survive_letters :
    NamesSurvive (stringAt [97, 48]) (stringAt [36]) (fun _ => 7) [97, 48] [36] := by
  have hfirst : IsName [97, 48] := isName_of_all (by decide) (by decide) (by decide)
  have hsecond : IsName [36] := isName_of_all (by decide) (by decide) (by decide)
  exact (names_survive_iff hfirst hsecond (stringAt_string hfirst.nonzero)
    (stringAt_string hsecond.nonzero)).mpr ⟨by decide, by decide⟩

/-- **`"0A"` AND `"A"` ARE ONE**, and `"0"` comes back empty. -/
theorem leading_zero_lost : IsName [48, 65] ∧ IsName [65] ∧
      nam2num (stringAt [48, 65]) = nam2num (stringAt [65]) ∧
      num2nam (nam2num (stringAt [48])) (fun _ => 7) 0 = 0 ∧
      ¬ NamesSurvive (stringAt [48, 65]) (stringAt [65]) (fun _ => 7) [48, 65] [65] := by
  refine ⟨isName_of_all (by decide) (by decide) (by decide),
    isName_of_all (by decide) (by decide) (by decide), by decide, by decide, ?_⟩
  intro h
  exact h.apart (by decide) (by decide)

end RtaiNam2num
