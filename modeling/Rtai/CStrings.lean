import Mathlib

/-! # Strings that end at a zero byte

    A buffer is the list of its bytes, and what lies beyond it reads as zero.
    `str` is the string in a buffer; `strlen`, `strncmp` and `strncpy` go byte by
    byte, as the C functions do, and are described through `str`. -/

namespace RtaiCStrings

/-- The bytes before the first zero. -/
def str : List UInt8 → List UInt8
  | [] => []
  | c :: cs => if c = 0 then [] else c :: str cs

/-- `strlen`. -/
def strlen : List UInt8 → Nat
  | [] => 0
  | c :: cs => if c = 0 then 0 else strlen cs + 1

/-- `strncmp`. -/
def strncmp : Nat → List UInt8 → List UInt8 → Int
  | 0, _, _ => 0
  | count + 1, cs, ct =>
    let c1 := cs.headD 0
    let c2 := ct.headD 0
    if c1 ≠ c2 then (if c1 < c2 then -1 else 1)
    else if c1 = 0 then 0
    else strncmp count cs.tail ct.tail

/-- The bytes that `strncpy` writes: once the string is over, zeros. -/
def strncpyBytes : Nat → List UInt8 → List UInt8
  | 0, _ => []
  | count + 1, src =>
    let c := src.headD 0
    c :: strncpyBytes count (if c = 0 then src else src.tail)

/-- `strncpy`, which pads with zeros. -/
def strncpy (dest src : List UInt8) (count : Nat) : List UInt8 :=
  strncpyBytes count src ++ dest.drop count

/-- `s[0] = 0` -/
def clear (s : List UInt8) : List UInt8 := s.set 0 0

theorem str_clear (s : List UInt8) : str (clear s) = [] := by
  cases s with
  | nil => rfl
  | cons c cs => rfl

theorem strlen_eq (s : List UInt8) : strlen s = (str s).length := by
  induction s with
  | nil => rfl
  | cons c cs ih =>
    unfold strlen str
    by_cases hc : c = 0
    · rw [if_pos hc, if_pos hc]
      rfl
    · rw [if_neg hc, if_neg hc, List.length_cons, ih]

/-- `s[0]` tells whether the string is empty. -/
theorem headD_eq_zero {s : List UInt8} : s.headD 0 = 0 ↔ str s = [] := by
  cases s with
  | nil => exact ⟨fun _ => rfl, fun _ => rfl⟩
  | cons c cs =>
    show c = 0 ↔ str (c :: cs) = []
    unfold str
    by_cases hc : c = 0
    · rw [if_pos hc]
      exact ⟨fun _ => rfl, fun _ => hc⟩
    · rw [if_neg hc]
      exact ⟨fun h => absurd h hc, fun h => nomatch h⟩

/-- A string that goes on. -/
theorem str_of_headD {s : List UInt8} (h : s.headD 0 ≠ 0) :
    str s = s.headD 0 :: str s.tail := by
  cases s with
  | nil => exact absurd rfl h
  | cons c cs =>
    show str (c :: cs) = c :: str cs
    have hc : c ≠ 0 := h
    rw [str, if_neg hc]

/-- **`strncmp` COMPARES THE FIRST BYTES OF THE STRINGS.** -/
theorem strncmp_eq_zero (count : Nat) (cs ct : List UInt8) :
    strncmp count cs ct = 0 ↔ (str cs).take count = (str ct).take count := by
  induction count generalizing cs ct with
  | zero => exact ⟨fun _ => rfl, fun _ => rfl⟩
  | succ count ih =>
    show (if cs.headD 0 ≠ ct.headD 0 then
        (if cs.headD 0 < ct.headD 0 then (-1 : Int) else 1)
      else if cs.headD 0 = 0 then 0
      else strncmp count cs.tail ct.tail) = 0 ↔ _
    by_cases hne : cs.headD 0 ≠ ct.headD 0
    · rw [if_pos hne]
      constructor
      · intro h
        split at h <;> exact absurd h (by decide)
      · intro h
        refine absurd ?_ hne
        by_cases h1 : cs.headD 0 = 0
        · by_cases h2 : ct.headD 0 = 0
          · rw [h1, h2]
          · rw [headD_eq_zero.mp h1, str_of_headD h2] at h
            exact nomatch h
        · by_cases h2 : ct.headD 0 = 0
          · rw [headD_eq_zero.mp h2, str_of_headD h1] at h
            exact nomatch h
          · rw [str_of_headD h1, str_of_headD h2, List.take_succ_cons,
              List.take_succ_cons] at h
            exact (List.cons.inj h).1
    · rw [if_neg hne]
      have heq : cs.headD 0 = ct.headD 0 := Decidable.not_not.mp hne
      by_cases h1 : cs.headD 0 = 0
      · have h2 : ct.headD 0 = 0 := heq.symm.trans h1
        rw [if_pos h1, headD_eq_zero.mp h1, headD_eq_zero.mp h2]
        exact ⟨fun _ => rfl, fun _ => rfl⟩
      · have h2 : ct.headD 0 ≠ 0 := fun h => h1 (heq.trans h)
        rw [if_neg h1, ih, str_of_headD h1, str_of_headD h2, heq,
          List.take_succ_cons, List.take_succ_cons]
        exact ⟨fun h => by rw [h], fun h => (List.cons.inj h).2⟩

theorem str_strncpyBytes (rest : List UInt8) {count : Nat} {src : List UInt8}
    (h : strlen src < count) :
    str (strncpyBytes count src ++ rest) = str src := by
  rw [strlen_eq] at h
  induction count generalizing src with
  | zero => exact absurd h (Nat.not_lt_zero _)
  | succ count ih =>
    show str (src.headD 0 ::
      (strncpyBytes count (if src.headD 0 = 0 then src else src.tail) ++ rest)) = _
    by_cases h0 : src.headD 0 = 0
    · rw [h0, headD_eq_zero.mp h0]
      rfl
    · rw [str_of_headD h0] at h ⊢
      rw [if_neg h0, str, if_neg h0, ih (Nat.lt_of_succ_lt_succ h)]

/-- **`strncpy` COPIES THE STRING**, where there is room for its zero. -/
theorem str_strncpy {dest src : List UInt8} {count : Nat} (h : strlen src < count) :
    str (strncpy dest src count) = str src :=
  str_strncpyBytes (dest.drop count) h

end RtaiCStrings
