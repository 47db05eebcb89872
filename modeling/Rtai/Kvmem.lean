import Mathlib

/-! # kvmem.c: mapping shared memory to user space

    `rvmmap` inserts the pages of a `vmalloc`ed area one by one, `rkmmap` maps a
    `kmalloc`ed one in a single call.  Both check the requested part against the
    size of the area first.  Addresses and sizes are `unsigned long`, that is
    numbers below `2 ^ 64`. -/

namespace RtaiKvmem

/-- The value of a sum or a difference in an `unsigned long`. -/
def ulong (n : Nat) : Nat := n % 2 ^ 64

/-- The size of a page. -/
def PAGE_SHIFT : Nat := 12

def PAGE_SIZE : Nat := 4096

/-- The errors. -/
def EFAULT : Int := 14

def EAGAIN : Int := 11

/-- A shared area: it ends where the addresses end, or before. -/
structure Area where
  mem : Nat
  memsize : Nat
  memsize_lt : memsize < 2 ^ 64
  fits : mem + memsize ≤ 2 ^ 64

/-- `struct vm_area_struct` -/
structure Vma where
  vm_start : Nat
  vm_end : Nat
  vm_pgoff : Nat
  start_le : vm_start ≤ vm_end
  end_lt : vm_end < 2 ^ 64
  pgoff_lt : vm_pgoff < 2 ^ 64

/-- `size` bytes of the user at `start` that show the bytes at `pos`. -/
structure Mapping where
  start : Nat
  pos : Nat
  size : Nat
  deriving DecidableEq

/-- The address that the user sees at `a`. -/
def translate : List Mapping → Nat → Option Nat
  | [], _ => none
  | m :: ms, a =>
    if m.start ≤ a ∧ a < m.start + m.size then some (m.pos + (a - m.start))
    else translate ms a

/-- `vma->vm_pgoff << PAGE_SHIFT` -/
def Vma.offset (v : Vma) : Nat := ulong (v.vm_pgoff * 2 ^ PAGE_SHIFT)

/-- `vma->vm_end - vma->vm_start` -/
def Vma.size (v : Vma) : Nat := v.vm_end - v.vm_start

/-- `(unsigned long)mem + offset` -/
def Vma.pos (v : Vma) (a : Area) : Nat := ulong (a.mem + v.offset)

/-- The checks before the mapping, which are those of both functions. -/
def argsOk (a : Area) (v : Vma) : Bool :=
  if v.vm_pgoff > (2 ^ 64 - 1) / 2 ^ PAGE_SHIFT then false
  else if ulong (v.size + v.offset) > a.memsize then false
  else if v.pos a % PAGE_SIZE ≠ 0 ∨ v.vm_start % PAGE_SIZE ≠ 0
      ∨ v.size % PAGE_SIZE ≠ 0 then false
  else true

/-- `while (size > 0)` in `rvmmap`, with the pages inserted so far.  `insert`
    tells whether the kernel takes the page. -/
def remapLoop (insert : Nat → Nat → Bool) :
    Nat → Nat → Nat → Nat → List Mapping → Option (Int × List Mapping)
  | 0, _, _, _, _ => none
  | fuel + 1, start, pos, size, done =>
    if size > 0 then
      if !insert start pos then some (-EAGAIN, done)
      else
        remapLoop insert fuel (ulong (start + PAGE_SIZE)) (ulong (pos + PAGE_SIZE))
          (ulong (size + 2 ^ 64 - PAGE_SIZE)) (done ++ [⟨start, pos, PAGE_SIZE⟩])
    else some (0, done)

/-- `rvmmap`: the value and what the user can access. -/
def rvmmap (insert : Nat → Nat → Bool) (a : Area) (v : Vma) : Option (Int × List Mapping) :=
  if !argsOk a v then some (-EFAULT, [])
  else remapLoop insert (v.size + 1) v.vm_start (v.pos a) v.size []

/-- `rkmmap`; `remap` tells whether the kernel maps the range. -/
def rkmmap (remap : Nat → Nat → Nat → Bool) (a : Area) (v : Vma) : Int × List Mapping :=
  if !argsOk a v then (-EFAULT, [])
  else if !remap v.vm_start (v.pos a) v.size then (-EAGAIN, [])
  else (0, [⟨v.vm_start, v.pos a, v.size⟩])

/-- An error, or the part of the area that has been asked for. -/
def Inside (a : Area) (v : Vma) (r : Int × List Mapping) : Prop :=
  r.1 ≠ 0 ∨ (∀ m ∈ r.2, ∀ i < m.size, a.mem ≤ m.pos + i ∧ m.pos + i < a.mem + a.memsize) ∧
    ∀ i < v.size, translate r.2 (v.vm_start + i) = some (a.mem + v.vm_pgoff * PAGE_SIZE + i)

/-- The end of the part does not fit an `unsigned long`. -/
def Wraps (v : Vma) : Prop :=
  2 ^ 64 ≤ v.size + v.vm_pgoff * PAGE_SIZE

/-! ## The checks -/

theorem argsOk_spec {a : Area} {v : Vma} (h : argsOk a v = true) :
    v.vm_pgoff < 2 ^ 52 ∧ v.offset = v.vm_pgoff * PAGE_SIZE ∧
      ulong (v.size + v.offset) ≤ a.memsize ∧ v.pos a % PAGE_SIZE = 0 ∧
      v.vm_start % PAGE_SIZE = 0 ∧ v.size % PAGE_SIZE = 0 := by
  unfold argsOk at h
  split at h
  · exact nomatch h
  · next hpg =>
    split at h
    · exact nomatch h
    · next hsum =>
      split at h
      · exact nomatch h
      · next hal =>
        have hlt : v.vm_pgoff < 2 ^ 52 := by
          simp only [PAGE_SHIFT] at hpg
          omega
        refine ⟨hlt, ?_, Nat.le_of_not_lt hsum, by omega, by omega, by omega⟩
        simp only [Vma.offset, ulong, PAGE_SHIFT, PAGE_SIZE]
        omega

/-! ## The loop -/

/-- The pages that the loop goes through. -/
def pagesFrom : Nat → Nat → Nat → List Mapping
  | 0, _, _ => []
  | n + 1, start, pos =>
    ⟨start, pos, PAGE_SIZE⟩ :: pagesFrom n (start + PAGE_SIZE) (ulong (pos + PAGE_SIZE))

/-- **THE LOOP ENDS**: it has inserted every page, or the kernel has refused
    one of them. -/
theorem remapLoop_spec (insert : Nat → Nat → Bool) (n : Nat) :
    ∀ (fuel start pos : Nat) (done : List Mapping), n < fuel → start + n * PAGE_SIZE < 2 ^ 64 →
      ∃ r, remapLoop insert fuel start pos (n * PAGE_SIZE) done = some r ∧
        ((∀ m ∈ pagesFrom n start pos, insert m.start m.pos = true) →
          r = (0, done ++ pagesFrom n start pos)) ∧
        ((∃ m ∈ pagesFrom n start pos, insert m.start m.pos = false) → r.1 ≠ 0) := by
  induction n with
  | zero =>
    intro fuel start pos done hf _
    obtain ⟨fuel, rfl⟩ : ∃ f, fuel = f + 1 := ⟨fuel - 1, by omega⟩
    refine ⟨(0, done), ?_, ?_, ?_⟩
    · simp [remapLoop]
    · intro _
      simp [pagesFrom]
    · rintro ⟨m, hm, -⟩
      simp [pagesFrom] at hm
  | succ n ih =>
    intro fuel start pos done hf hs
    obtain ⟨fuel, rfl⟩ : ∃ f, fuel = f + 1 := ⟨fuel - 1, by omega⟩
    have hpos : (n + 1) * PAGE_SIZE > 0 := by simp [PAGE_SIZE]
    cases hin : insert start pos with
    | false =>
      refine ⟨(-EAGAIN, done), ?_, ?_, ?_⟩
      · rw [remapLoop, if_pos hpos, hin]
        rfl
      · intro hall
        have h := hall ⟨start, pos, PAGE_SIZE⟩ (by simp [pagesFrom])
        rw [hin] at h
        exact nomatch h
      · intro _
        simp [EAGAIN]
    | true =>
      -- one page fewer, and the addresses do not wrap
      have hstart : ulong (start + PAGE_SIZE) = start + PAGE_SIZE := by
        simp only [ulong, PAGE_SIZE] at hs ⊢
        omega
      have hsize : ulong ((n + 1) * PAGE_SIZE + 2 ^ 64 - PAGE_SIZE) = n * PAGE_SIZE := by
        simp only [ulong, PAGE_SIZE] at hs ⊢
        omega
      obtain ⟨r, hr, hall, hsome⟩ := ih fuel (start + PAGE_SIZE)
        (ulong (pos + PAGE_SIZE)) (done ++ [⟨start, pos, PAGE_SIZE⟩]) (by omega)
        (by simp only [PAGE_SIZE] at hs ⊢; omega)
      refine ⟨r, ?_, ?_, ?_⟩
      · rw [remapLoop, if_pos hpos, hin, hstart, hsize]
        exact hr
      · intro h
        rw [hall fun m hm => h m (by simp [pagesFrom, hm])]
        simp [pagesFrom]
      · rintro ⟨m, hm, hmf⟩
        rw [pagesFrom, List.mem_cons] at hm
        rcases hm with rfl | hm
        · rw [hin] at hmf
          exact nomatch hmf
        · exact hsome ⟨m, hm, hmf⟩

/-! ## What is mapped -/

/-- What the user sees is in one of the mappings. -/
theorem mem_of_translate {ms : List Mapping} {a b : Nat} (h : translate ms a = some b) :
    ∃ m ∈ ms, ∃ i < m.size, m.pos + i = b := by
  induction ms with
  | nil => exact nomatch h
  | cons m ms ih =>
    rw [translate] at h
    split at h
    · next hm =>
      cases h
      exact ⟨m, by simp, a - m.start, by omega, rfl⟩
    · obtain ⟨m', hm', hi⟩ := ih h
      exact ⟨m', by simp [hm'], hi⟩

/-- A part whose end wraps is not shown as it should be. -/
theorem not_inside_of_wraps {a : Area} {v : Vma} {ms : List Mapping}
    (hok : argsOk a v = true) (hw : Wraps v) : ¬ Inside a v (0, ms) := by
  rintro (h | ⟨hin, htr⟩)
  · exact h rfl
  · obtain ⟨hpg, -, -, -, -, -⟩ := argsOk_spec hok
    have hsize : 0 < v.size := by
      simp only [Wraps, PAGE_SIZE] at hw
      omega
    -- the last byte
    obtain ⟨m, hm, i, hi, he⟩ := mem_of_translate (htr (v.size - 1) (by omega))
    have hlast := (hin m hm i hi).2
    have hlt := a.memsize_lt
    simp only [Wraps, PAGE_SIZE] at hw he
    omega

/-- The pages of a part that does not wrap. -/
theorem mem_pagesFrom {n start pos : Nat} (hp : pos + n * PAGE_SIZE ≤ 2 ^ 64)
    {m : Mapping} (hm : m ∈ pagesFrom n start pos) :
    m.size = PAGE_SIZE ∧ pos ≤ m.pos ∧ m.pos + PAGE_SIZE ≤ pos + n * PAGE_SIZE := by
  induction n generalizing start pos with
  | zero => simp [pagesFrom] at hm
  | succ n ih =>
    rw [pagesFrom, List.mem_cons] at hm
    rcases hm with rfl | hm
    · refine ⟨rfl, Nat.le_refl _, ?_⟩
      simp only [PAGE_SIZE]
      omega
    · cases n with
      | zero => simp [pagesFrom] at hm
      | succ n =>
        have hpos : ulong (pos + PAGE_SIZE) = pos + PAGE_SIZE := by
          simp only [ulong, PAGE_SIZE] at hp ⊢
          omega
        rw [hpos] at hm
        have h := ih (by simp only [PAGE_SIZE] at hp ⊢; omega) hm
        simp only [PAGE_SIZE] at h ⊢
        omega

theorem translate_pagesFrom {n start pos i : Nat} (hp : pos + n * PAGE_SIZE ≤ 2 ^ 64)
    (hi : i < n * PAGE_SIZE) :
    translate (pagesFrom n start pos) (start + i) = some (pos + i) := by
  induction n generalizing start pos i with
  | zero => omega
  | succ n ih =>
    rw [pagesFrom, translate]
    by_cases hfirst : i < PAGE_SIZE
    · rw [if_pos (by dsimp only; omega)]
      simp
    · rw [if_neg (by dsimp only; omega)]
      have hn : 0 < n := by
        by_contra h0
        have h0 : n = 0 := by omega
        rw [h0] at hi
        omega
      have hpos : ulong (pos + PAGE_SIZE) = pos + PAGE_SIZE := by
        simp only [ulong, PAGE_SIZE] at hp hn ⊢
        omega
      rw [hpos]
      have h := @ih (start + PAGE_SIZE) (pos + PAGE_SIZE) (i - PAGE_SIZE)
        (by simp only [PAGE_SIZE] at hp ⊢; omega) (by simp only [PAGE_SIZE] at hi hfirst ⊢; omega)
      have e₁ : start + PAGE_SIZE + (i - PAGE_SIZE) = start + i := by omega
      have e₂ : pos + PAGE_SIZE + (i - PAGE_SIZE) = pos + i := by omega
      rw [e₁, e₂] at h
      exact h

/-- The part that is shown is in the area. -/
theorem pos_of_not_wraps {a : Area} {v : Vma} (hok : argsOk a v = true)
    (hw : ¬ Wraps v) (hsize : 0 < v.size) :
    v.pos a = a.mem + v.vm_pgoff * PAGE_SIZE ∧
      v.vm_pgoff * PAGE_SIZE + v.size ≤ a.memsize := by
  obtain ⟨-, hoff, hsum, -, -, -⟩ := argsOk_spec hok
  have hfits := a.fits
  have hsum : v.vm_pgoff * PAGE_SIZE + v.size ≤ a.memsize := by
    rw [hoff] at hsum
    simp only [Wraps, ulong, PAGE_SIZE] at hw hsum ⊢
    omega
  refine ⟨?_, hsum⟩
  simp only [Vma.pos, hoff, ulong]
  omega

theorem rvmmap_inside {a : Area} {v : Vma} (hok : argsOk a v = true)
    (hw : ¬ Wraps v) : Inside a v (0, pagesFrom (v.size / PAGE_SIZE) v.vm_start (v.pos a)) := by
  obtain ⟨-, -, -, -, -, hmod⟩ := argsOk_spec hok
  have hfits := a.fits
  have hn : v.size / PAGE_SIZE * PAGE_SIZE = v.size := by
    simp only [PAGE_SIZE] at hmod ⊢
    omega
  refine Or.inr ?_
  by_cases hsize : 0 < v.size
  · obtain ⟨hpos, hsum⟩ := pos_of_not_wraps hok hw hsize
    have hp : v.pos a + v.size / PAGE_SIZE * PAGE_SIZE ≤ 2 ^ 64 := by
      rw [hn, hpos]
      omega
    constructor
    · intro m hm i hi
      obtain ⟨hms, hlow, hhigh⟩ := mem_pagesFrom hp hm
      rw [hn, hpos] at hhigh
      rw [hpos] at hlow
      omega
    · intro i hi
      rw [translate_pagesFrom hp (by rw [hn]; exact hi), hpos]
  · have hzero : v.size = 0 := by omega
    rw [hzero]
    constructor
    · intro m hm
      simp [pagesFrom] at hm
    · intro i hi
      omega

theorem rkmmap_inside {a : Area} {v : Vma} (hok : argsOk a v = true)
    (hw : ¬ Wraps v) : Inside a v (0, [⟨v.vm_start, v.pos a, v.size⟩]) := by
  refine Or.inr ⟨?_, ?_⟩
  · intro m hm i hi
    rw [List.mem_singleton.mp hm] at hi ⊢
    obtain ⟨hpos, hsum⟩ := pos_of_not_wraps hok hw (Nat.lt_of_le_of_lt (Nat.zero_le i) hi)
    dsimp only at hi ⊢
    omega
  · intro i hi
    obtain ⟨hpos, -⟩ := pos_of_not_wraps hok hw (Nat.lt_of_le_of_lt (Nat.zero_le i) hi)
    rw [translate, if_pos (by dsimp only; omega), hpos]
    simp

/-! ## When the mappings stay inside -/

/-- The kernel refuses one of the pages of the part. -/
def Refuses (insert : Nat → Nat → Bool) (a : Area) (v : Vma) : Prop :=
  ∃ m ∈ pagesFrom (v.size / PAGE_SIZE) v.vm_start (v.pos a), insert m.start m.pos = false

theorem rvmmap_spec (insert : Nat → Nat → Bool) {a : Area} {v : Vma}
    (hok : argsOk a v = true) :
    ∃ r, rvmmap insert a v = some r ∧ (¬ Refuses insert a v →
        r = (0, pagesFrom (v.size / PAGE_SIZE) v.vm_start (v.pos a))) ∧
      (Refuses insert a v → r.1 ≠ 0) := by
  obtain ⟨-, -, -, -, -, hmod⟩ := argsOk_spec hok
  have hn : v.size / PAGE_SIZE * PAGE_SIZE = v.size := by
    simp only [PAGE_SIZE] at hmod ⊢
    omega
  have hend : v.vm_start + v.size < 2 ^ 64 := by
    have h₁ := v.start_le
    have h₂ := v.end_lt
    simp only [Vma.size]
    omega
  obtain ⟨r, hr, hall, hsome⟩ := remapLoop_spec insert (v.size / PAGE_SIZE) (v.size + 1)
    v.vm_start (v.pos a) [] (by simp only [PAGE_SIZE]; omega) (by rw [hn]; exact hend)
  rw [hn] at hr
  refine ⟨r, ?_, ?_, hsome⟩
  · simp [rvmmap, hok, hr]
  · intro href
    refine hall fun m hm => ?_
    by_contra hins
    rw [Bool.not_eq_true] at hins
    exact href ⟨m, hm, hins⟩

/-- **`rvmmap` AND `rkmmap` STAY INSIDE THE AREA** unless they accept a part
    whose end wraps, and the kernel maps all of it. -/
theorem mmap_inside_iff (a : Area) (v : Vma) (insert : Nat → Nat → Bool)
    (remap : Nat → Nat → Nat → Bool) :
    ((∃ r, rvmmap insert a v = some r ∧ Inside a v r) ↔
      ¬ (argsOk a v = true ∧ Wraps v ∧ ¬ Refuses insert a v)) ∧
    (Inside a v (rkmmap remap a v) ↔
      ¬ (argsOk a v = true ∧ Wraps v ∧ remap v.vm_start (v.pos a) v.size = true)) := by
  cases hok : argsOk a v with
  -- refused: nothing is mapped
  | false =>
    constructor
    · refine iff_of_true ⟨(-EFAULT, []), ?_, ?_⟩ (fun h => nomatch h.1)
      · simp [rvmmap, hok]
      · exact Or.inl (by simp [EFAULT])
    · refine iff_of_true ?_ (fun h => nomatch h.1)
      simp [rkmmap, hok, Inside, EFAULT]
  | true =>
    constructor
    · obtain ⟨r, hr, hall, hsome⟩ := rvmmap_spec insert hok
      rw [hr]
      constructor
      · rintro ⟨r', he, hin⟩ ⟨-, hw, href⟩
        cases he
        rw [hall href] at hin
        exact not_inside_of_wraps hok hw hin
      · intro h
        refine ⟨r, rfl, ?_⟩
        -- a page that Linux refuses ends the loop
        by_cases href : Refuses insert a v
        · exact Or.inl (hsome href)
        · rw [hall href]
          exact rvmmap_inside hok fun hw => h ⟨rfl, hw, href⟩
    · cases hmap : remap v.vm_start (v.pos a) v.size with
      | false =>
        refine iff_of_true ?_ (fun h => nomatch h.2.2)
        simp [rkmmap, hok, hmap, Inside, EAGAIN]
      | true =>
        have hr : rkmmap remap a v = (0, [⟨v.vm_start, v.pos a, v.size⟩]) := by
          simp [rkmmap, hok, hmap]
        rw [hr]
        constructor
        · rintro hin ⟨-, hw, -⟩
          exact not_inside_of_wraps hok hw hin
        · intro h
          exact rkmmap_inside hok fun hw => h ⟨rfl, hw, rfl⟩

/-! ## The page before the area -/

/-- Two pages at 64 KiB. -/
def twoPages : Area where
  mem := 65536
  memsize := 8192
  memsize_lt := by decide
  fits := by decide

/-- One page at the highest offset. -/
def topPage : Vma where
  vm_start := 4096
  vm_end := 8192
  vm_pgoff := 2 ^ 52 - 1
  start_le := by decide
  end_lt := by decide
  pgoff_lt := by decide

/-- The sum of size and offset is 0, and the user gets the page before the
    area. -/
theorem top_page_outside :
    rvmmap (fun _ _ => true) twoPages topPage = some (0, [⟨4096, 61440, 4096⟩]) ∧
    rkmmap (fun _ _ _ => true) twoPages topPage = (0, [⟨4096, 61440, 4096⟩]) ∧
    ¬ Inside twoPages topPage (0, [⟨4096, 61440, 4096⟩]) := by
  have hok : argsOk twoPages topPage = true := by decide
  refine ⟨?_, rfl, ?_⟩
  · obtain ⟨r, hr, hall, -⟩ := rvmmap_spec (fun _ _ => true) hok
    rw [hr, hall fun ⟨m, hm, h⟩ => nomatch h]
    rfl
  rintro (h | ⟨h, -⟩)
  · exact h rfl
  · have h := (h ⟨4096, 61440, 4096⟩ (by simp) 0 (by decide)).1
    exact absurd h (by decide)

end RtaiKvmem
