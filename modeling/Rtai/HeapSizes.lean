import Rtai.HeapLoops
import Rtai.HeapPlaces

/-! # Sizes of blocks

    A request is rounded to a power of two of at most two pages, or to whole
    pages. -/

namespace RtaiHeapSizes

open RtaiHeap RtaiChains RtaiHeapLoops RtaiHeapPlaces

/-- A page is a power of two. -/
structure Geometry (ps shift : Nat) : Prop where
  size : ps = 2 ^ shift
  shift_ge : RTHEAP_MINLOG2 ≤ shift
  shift_le : shift ≤ RTHEAP_MAXLOG2

section Sizes

variable {heap : Rtheap} {n size align : Nat}

theorem Geometry.sixteen (h : Geometry heap.pagesize heap.pageshift) : 16 ∣ heap.pagesize := by
  rw [h.size]
  exact Nat.pow_dvd_pow 2 h.shift_ge

theorem Geometry.pos (h : Geometry heap.pagesize heap.pageshift) : 0 < heap.pagesize := by
  rw [h.size]
  exact Nat.pow_pos (Nat.succ_pos 1)

theorem Geometry.le (h : Geometry heap.pagesize heap.pageshift) : heap.pagesize ≤ 2 ^ 22 := by
  rw [h.size]
  exact Nat.pow_le_pow_right (Nat.succ_pos 1) h.shift_le

theorem roundUp_spec (ha : 0 < align) (hn : n + align ≤ 2 ^ 64) :
    n ≤ roundUp n align ∧ roundUp n align < n + align := by
  have hmod : (n + align - 1) % 2 ^ 64 = n + align - 1 :=
    Nat.mod_eq_of_lt (by omega)
  rw [roundUp, hmod]
  have hle := Nat.div_mul_le_self (n + align - 1) align
  have hlt := Nat.lt_div_mul_add (a := n + align - 1) ha
  exact ⟨by omega, by omega⟩

/-- **What a request is rounded to**: up to a page, or whole pages. -/
theorem roundSize_cases (hg : Geometry heap.pagesize heap.pageshift) (n : Nat) :
    (n ≤ roundSize heap n ∧ roundSize heap n ≤ heap.pagesize) ∨
      roundSize heap n = roundUp n heap.pagesize := by
  rw [roundSize]
  split
  · next hle =>
      have hround : (if n ≤ RTHEAP_MINALIGNSZ then roundUp n RTHEAP_MINALLOCSZ
          else roundUp n RTHEAP_MINALIGNSZ) = roundUp n 16 := by
        split <;> rfl
      have hbound := hg.le
      rw [hround]
      obtain ⟨h1, h2⟩ := roundUp_spec (n := n) (by decide : 0 < 16) (by omega)
      refine Or.inl ⟨h1, ?_⟩
      have h3 : 16 ∣ roundUp n 16 := Nat.dvd_mul_left ..
      obtain ⟨a, ha⟩ := h3
      obtain ⟨b, hb⟩ := hg.sixteen
      omega
  · exact Or.inr rfl

theorem le_roundSize (hg : Geometry heap.pagesize heap.pageshift)
    (hn : n + heap.pagesize ≤ 2 ^ 64) : n ≤ roundSize heap n := by
  rcases roundSize_cases hg n with h | h
  · exact h.1
  · rw [h]
    exact (roundUp_spec hg.pos hn).1

theorem pages_of_roundSize (hg : Geometry heap.pagesize heap.pageshift)
    (h : heap.pagesize < roundSize heap n) : heap.pagesize ∣ roundSize heap n := by
  rcases roundSize_cases hg n with hr | hr
  · omega
  · rw [hr]
    exact Nat.dvd_mul_left ..

/-- **The loop** finds the least power of two, from the least block on. -/
theorem log2Loop_spec {fuel log2size : Nat} (hfuel : size ≤ 2 ^ (log2size + fuel)) :
    log2size ≤ log2Loop size fuel log2size ∧ size ≤ 2 ^ log2Loop size fuel log2size ∧
      (log2Loop size fuel log2size = log2size ∨
        2 ^ (log2Loop size fuel log2size - 1) < size) := by
  induction fuel generalizing log2size with
  | zero => exact ⟨Nat.le_refl _, hfuel, Or.inl rfl⟩
  | succ fuel ih =>
    rw [log2Loop]
    split
    · next hlt =>
        have hfuel' : size ≤ 2 ^ (log2size + 1 + fuel) := by
          rw [Nat.add_assoc, Nat.add_comm 1]
          exact hfuel
        obtain ⟨h1, h2, h3⟩ := ih hfuel'
        refine ⟨by omega, h2, Or.inr ?_⟩
        rcases h3 with h3 | h3
        · rw [h3]
          exact hlt
        · exact h3
    · next hge => exact ⟨Nat.le_refl _, Nat.not_lt.mp hge, Or.inl rfl⟩

theorem log2Size_spec (hg : Geometry heap.pagesize heap.pageshift)
    (hsize : size ≤ heap.pagesize * 2) :
    4 ≤ log2Size size ∧ size ≤ 2 ^ log2Size size ∧ log2Size size ≤ heap.pageshift + 1 := by
  have hfuel : size ≤ 2 ^ (RTHEAP_MINLOG2 + size) := by
    have hlt : size < 2 ^ size := Nat.lt_two_pow_self
    have hle : 2 ^ size ≤ 2 ^ (RTHEAP_MINLOG2 + size) :=
      Nat.pow_le_pow_right (Nat.succ_pos 1) (Nat.le_add_left ..)
    omega
  obtain ⟨h1, h2, h3⟩ := log2Loop_spec hfuel
  refine ⟨h1, h2, ?_⟩
  rcases h3 with h3 | h3
  · have hshift : 4 ≤ heap.pageshift := hg.shift_ge
    have h4 : log2Size size = 4 := h3
    omega
  · by_contra hgt
    rw [hg.size, ← Nat.pow_succ] at hsize
    have hle : 2 ^ (heap.pageshift + 1) ≤ 2 ^ (log2Size size - 1) :=
      Nat.pow_le_pow_right (Nat.succ_pos 1) (by omega)
    exact absurd (Nat.lt_of_le_of_lt hle h3) (Nat.not_lt.mpr hsize)

/-- **A block is as large as it has to be.** -/
theorem blockSize_enough (hg : Geometry heap.pagesize heap.pageshift)
    (hn : n + heap.pagesize ≤ 2 ^ 64) :
    n ≤ blockSize heap n := by
  have hround := le_roundSize hg hn
  simp only [blockSize]
  split
  · next hle => exact Nat.le_trans hround (log2Size_spec hg hle).2.1
  · exact hround

/-- `m` pages of `ps` bytes are `c + 1` blocks: one page, or one block. -/
def Covers (ps bsize m c : Nat) : Prop :=
  (m = 1 ∧ ps = (c + 1) * bsize) ∨ (0 < m ∧ c = 0 ∧ bsize = m * ps)

theorem covers_log2 (hg : Geometry heap.pagesize heap.pageshift) {k : Nat}
    (hk : k ≤ heap.pageshift + 1) : ∃ m c, Covers heap.pagesize (2 ^ k) m c := by
  rcases Nat.lt_or_ge heap.pageshift k with hlt | hle
  · have hk' : k = heap.pageshift + 1 := by omega
    refine ⟨2, 0, Or.inr ⟨Nat.succ_pos 1, rfl, ?_⟩⟩
    rw [hk', hg.size, Nat.pow_succ, Nat.mul_comm]
  · refine ⟨1, 2 ^ (heap.pageshift - k) - 1, Or.inl ⟨rfl, ?_⟩⟩
    have hpos : 0 < 2 ^ (heap.pageshift - k) := Nat.pow_pos (Nat.succ_pos 1)
    rw [Nat.sub_add_cancel hpos, ← Nat.pow_add, Nat.sub_add_cancel hle]
    exact hg.size

/-- A run is as long as it has to be. -/
theorem covers_run {bsize m c n : Nat} (hps : 0 < heap.pagesize)
    (hcovers : Covers heap.pagesize bsize m c)
    (henough : bsize ≤ (n + 1) * heap.pagesize)
    (hleast : n = 0 ∨ n * heap.pagesize < bsize) : n + 1 = m := by
  rcases hcovers with ⟨rfl, hsize⟩ | ⟨hm, -, rfl⟩
  · have hle : 1 * bsize ≤ (c + 1) * bsize :=
      Nat.mul_le_mul_right bsize (Nat.succ_pos c)
    rcases hleast with rfl | hleast
    · rfl
    · have hlt : n * heap.pagesize < 1 * heap.pagesize := by omega
      have hn := Nat.lt_of_mul_lt_mul_right hlt
      omega
  · have hle := Nat.le_of_mul_le_mul_right henough hps
    rcases hleast with rfl | hleast
    · omega
    · have hlt := Nat.lt_of_mul_lt_mul_right hleast
      omega

/-- The blocks are in the pages. -/
theorem covers_within {ps bsize m c p a : Nat} (hcovers : Covers ps bsize m c)
    (ha : a ∈ places bsize p (c + 1)) : p ≤ a ∧ a + bsize ≤ p + m * ps := by
  obtain ⟨j, hj, rfl⟩ := mem_places.mp ha
  rcases hcovers with ⟨rfl, hsize⟩ | ⟨-, rfl, rfl⟩
  · have hle : (j + 1) * bsize ≤ (c + 1) * bsize := Nat.mul_le_mul_right bsize hj
    rw [Nat.add_mul] at hle
    omega
  · have h0 : j = 0 := by omega
    subst h0
    omega

end Sizes

/-! ## Splitting a page -/

section Split

variable {heap : Rtheap} {e : Extent} {mem : Mem} {headpage bsize log2size : Nat}

/-- **The blocks of a page**, or the block that is a range. -/
theorem splitpage_chain (hhead : 0 < headpage) (hbsize : 0 < bsize) {c : Nat}
    (hsmall : bsize < heap.pagesize → heap.pagesize = (c + 1) * bsize)
    (hlarge : ¬ bsize < heap.pagesize → c = 0) :
    Chain 0 (splitpage heap e mem headpage bsize log2size).2 0 headpage
        (places bsize headpage (c + 1)) ∧
      ∀ x, x ∉ places bsize headpage (c + 1) →
        (splitpage heap e mem headpage bsize log2size).2 x = mem x := by
  simp only [splitpage]
  by_cases hlt : bsize < heap.pagesize
  · rw [if_pos hlt]
    have hlim : headpage + heap.pagesize - bsize = headpage + c * bsize := by
      rw [hsmall hlt, Nat.succ_mul]
      omega
    refine ⟨chain_linkUpto hbsize hhead hlim, fun x hx => ?_⟩
    rw [places_snoc, List.mem_append, not_or] at hx
    obtain ⟨hx, hxlast⟩ := hx
    have hne : x ≠ headpage + heap.pagesize - bsize := by
      rw [hlim]
      exact fun he => hxlast (he ▸ List.mem_cons_self ..)
    rw [Function.update_of_ne hne, linkUpto_apply hbsize hlim, if_neg hx]
  · rw [if_neg hlt, hlarge hlt]
    refine ⟨⟨rfl, Nat.ne_of_gt hhead, Function.update_self ..⟩, fun x hx => ?_⟩
    have hne : x ≠ headpage := by
      rintro rfl
      exact hx (List.mem_cons_self ..)
    exact Function.update_of_ne hne ..

/-- **The pages are taken.** -/
theorem splitpage_taken (hg : Geometry heap.pagesize heap.pageshift) {i m : Nat}
    (hat : headpage = e.membase + i * heap.pagesize) (hm : 0 < m)
    (hcont : (m = 1 ∧ bsize ≤ heap.pagesize) ∨ bsize = m * heap.pagesize)
    (hlog : log2size ≠ 1)
    (hfree : ∀ j, i ≤ j → j < i + m → e.pagemap j = RTHEAP_PFREE) :
    ∃ map, (splitpage heap e mem headpage bsize log2size).1 =
        { e with pagemap := map } ∧
      Taken e.pagemap (if log2size ≠ 0 then log2size else RTHEAP_PLIST) i m map := by
  have hpos := hg.pos
  have hnum : (headpage - e.membase) >>> heap.pageshift = i := by
    rw [hat, Nat.add_sub_cancel_left, Nat.shiftRight_eq_div_pow, ← hg.size,
      Nat.mul_div_cancel _ hpos]
  have hpages : ∀ j, i < j ∧ j < i + bsize >>> heap.pageshift ↔ i < j ∧ j < i + m := by
    intro j
    rw [Nat.shiftRight_eq_div_pow, ← hg.size]
    rcases hcont with ⟨rfl, hle⟩ | rfl
    · have hdiv : bsize / heap.pagesize ≤ 1 := by
        refine Nat.le_trans (Nat.div_le_div_right hle) ?_
        rw [Nat.div_self hpos]
      omega
    · rw [Nat.mul_div_cancel _ hpos]
  refine ⟨fun j => if i < j ∧ j < i + m then RTHEAP_PCONT
    else if j = i then (if log2size ≠ 0 then log2size else RTHEAP_PLIST)
    else e.pagemap j, ?_, ?_⟩
  · simp only [splitpage, hnum, hpages]
  · exact {
      some_page := hm
      tag_ne := by
        split
        · exact hlog
        · decide
      free := hfree
      head := by
        rw [if_neg (by omega), if_pos rfl]
      cont := fun j hj hj' => if_pos ⟨hj, hj'⟩
      other := by
        intro j hj
        rw [if_neg (by omega), if_neg (by omega)] }

end Split

end RtaiHeapSizes
