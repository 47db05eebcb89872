import Rtai.HeapStart

/-! # What an extent has room for

    The header is made for the size that the caller asks for, and the pages are
    counted in the size that an extent gets in the end.  `rtheap_init` checks
    the one against the other before it changes the latter. -/

namespace RtaiHeapLayout

open RtaiHeap RtaiHeapSizes RtaiHeapStart

/-! ## The extents that are initialised -/

/-- Those of the loop, also if it ends for want of memory. -/
def addedExtents (core : Nat → Option Area) (suprt : Bool) (heapsize : Nat)
    (heap : Rtheap) : Nat → Nat → Nat → Mem → List Extent
  | 0, _, _, _ => []
  | fuel + 1, n, initSize, mem =>
    if initSize < heapsize then
      match allocExtent suprt (core n) with
      | none => []
      | some area =>
        let (extent, mem) := initExtent heap area mem
        extent :: addedExtents core suprt heapsize heap fuel (n + 1)
          (initSize + heap.extentsize) mem
    else []

/-- The descriptor that they are initialised for. -/
def descriptor (heapaddr large : Option Area) (heapsize pagesize : Nat) (suprt : Bool) :
    Rtheap :=
  newHeap heapsize pagesize (heapArea heapaddr large suprt heapsize).2

/-- The extents of a new heap. -/
def initialised (heapaddr large : Option Area) (core : Nat → Option Area)
    (heapsize pagesize : Nat) (suprt : Bool) (mem : Mem) : List Extent :=
  let heap := descriptor heapaddr large heapsize pagesize suprt
  match (heapArea heapaddr large suprt heapsize).1 with
  | some area => [(initExtent heap area mem).1]
  | none => addedExtents core suprt heapsize heap heapsize 0 0 mem

/-- The page map is between the fields before it and the pages, the pages are in
    the memory of the extent, and there are two of them. -/
structure HoldsPages (heap : Rtheap) (e : Extent) : Prop where
  map : e.extent + pagemapAt + heap.npages ≤ e.membase
  pages : e.membase + heap.npages * heap.pagesize ≤ e.extent + heap.extentsize
  aligned : 16 ∣ e.extent → 16 ∣ e.membase
  two_pages : 2 ≤ heap.npages

/-- The same for all extents, since all have the same header. -/
structure Fits (heap : Rtheap) : Prop where
  map : pagemapAt + heap.npages ≤ heap.hdrsize
  pages : heap.hdrsize + heap.npages * heap.pagesize ≤ heap.extentsize
  two_pages : 2 ≤ heap.npages

section Extents

variable {heapaddr large : Option Area} {core : Nat → Option Area}
  {heapsize pagesize : Nat} {suprt : Bool} {heap heap' : Rtheap} {mem mem' : Mem}
  {e : Extent}

theorem addedExtents_membase {fuel n initSize : Nat}
    (he : e ∈ addedExtents core suprt heapsize heap fuel n initSize mem) :
    e.membase = e.extent + heap.hdrsize := by
  induction fuel generalizing n initSize mem with
  | zero => exact nomatch he
  | succ fuel ih =>
    rw [addedExtents] at he
    split at he
    · cases harea : allocExtent suprt (core n) with
      | none =>
        rw [harea] at he
        exact nomatch he
      | some area =>
        rw [harea] at he
        rcases List.mem_cons.mp he with rfl | he
        · rfl
        · exact ih he
    · exact nomatch he

theorem initialised_membase
    (he : e ∈ initialised heapaddr large core heapsize pagesize suprt mem) :
    e.membase = e.extent + headerSize heapsize pagesize := by
  simp only [initialised] at he
  split at he
  · obtain rfl := List.mem_singleton.mp he
    rfl
  · exact addedExtents_membase he

/-- There are none if the first request fails. -/
theorem initialised_nil (hpos : 0 < heapsize) :
    initialised heapaddr large core heapsize pagesize suprt mem = [] ↔
      (heapArea heapaddr large suprt heapsize).1 = none ∧ core 0 = none := by
  simp only [initialised]
  cases harea : (heapArea heapaddr large suprt heapsize).1 with
  | some area => simp
  | none =>
    obtain ⟨fuel, hfuel⟩ : ∃ fuel, heapsize = fuel + 1 := ⟨heapsize - 1, by omega⟩
    generalize descriptor heapaddr large heapsize pagesize suprt = heap
    -- the first turn of the loop
    have hturn : addedExtents core suprt heapsize heap heapsize 0 0 mem = [] ↔
        allocExtent suprt (core 0) = none := by
      nth_rewrite 2 [hfuel]
      rw [addedExtents, if_pos hpos]
      cases allocExtent suprt (core 0) with
      | none => simp
      | some area => simp
    rw [hturn, allocExtent, Option.map_eq_none_iff]
    simp

theorem holdsPages_iff (he : e ∈ initialised heapaddr large core heapsize pagesize suprt mem)
    (hhdr : heap.hdrsize = headerSize heapsize pagesize) :
    HoldsPages heap e ↔ Fits heap := by
  have hbase := initialised_membase he
  rw [← hhdr] at hbase
  constructor
  · rintro ⟨hmap, hpages, -, htwo⟩
    exact ⟨by omega, by omega, htwo⟩
  · rintro ⟨hmap, hpages, htwo⟩
    refine ⟨by omega, by omega, fun hal => ?_, htwo⟩
    have hdvd : 16 ∣ heap.hdrsize := by
      rw [hhdr]
      exact Nat.dvd_mul_left ..
    rw [hbase]
    exact Nat.dvd_add hal hdvd

theorem initialised_holds : (∀ e ∈ initialised heapaddr large core heapsize pagesize suprt mem,
      HoldsPages (descriptor heapaddr large heapsize pagesize suprt) e) ↔
    initialised heapaddr large core heapsize pagesize suprt mem = [] ∨
      Fits (descriptor heapaddr large heapsize pagesize suprt) := by
  constructor
  · intro hholds
    cases hexts : initialised heapaddr large core heapsize pagesize suprt mem with
    | nil => exact Or.inl rfl
    | cons e exts =>
      have he : e ∈ initialised heapaddr large core heapsize pagesize suprt mem := by
        rw [hexts]
        exact List.mem_cons_self ..
      exact Or.inr ((holdsPages_iff he rfl).mp (hholds e he))
  · rintro (hexts | hfits) e he
    · rw [hexts] at he
      exact nomatch he
    · exact (holdsPages_iff he rfl).mpr hfits

end Extents

/-! ## Sizes -/

section Sizes

variable {heapsize pagesize extentsize : Nat}

/-- The pages of an extent that has room for its header. -/
theorem npages_of_room (hg : Geometry pagesize (Nat.log2 pagesize))
    (hmax : extentsize < 2 ^ 64) (hroom : headerSize heapsize pagesize ≤ extentsize) :
    (newHeap heapsize pagesize extentsize).npages =
      (extentsize - headerSize heapsize pagesize) / pagesize := by
  have hmod : (extentsize + 2 ^ 64 - headerSize heapsize pagesize) % 2 ^ 64 =
      extentsize - headerSize heapsize pagesize := by
    omega
  show ((extentsize + 2 ^ 64 - headerSize heapsize pagesize) % 2 ^ 64) >>>
    Nat.log2 pagesize = _
  rw [hmod, Nat.shiftRight_eq_div_pow, ← hg.size]

/-- **Extents that are no longer than the heap.** -/
theorem fits_shorter (hg : Geometry pagesize (Nat.log2 pagesize))
    (hmax : heapsize ≤ RTHEAP_MAXEXTSZ) (hle : extentsize ≤ heapsize) :
    Fits (newHeap heapsize pagesize extentsize) ↔
      headerSize heapsize pagesize + 2 * pagesize ≤ extentsize := by
  have hps : 0 < pagesize := by
    rw [hg.size]
    exact Nat.pow_pos (Nat.succ_pos 1)
  have hbig : RTHEAP_MAXEXTSZ = 2 ^ 31 - 1 := rfl
  constructor
  · rintro ⟨-, hpages, htwo⟩
    have hpages' : headerSize heapsize pagesize +
        (newHeap heapsize pagesize extentsize).npages * pagesize ≤ extentsize := hpages
    have htwice := Nat.mul_le_mul_right pagesize htwo
    omega
  · intro hroom
    have hnp := @npages_of_room heapsize pagesize extentsize hg (by omega) (by omega)
    have hdiv := Nat.div_mul_le_self (extentsize - headerSize heapsize pagesize) pagesize
    refine ⟨?_, ?_, ?_⟩
    · rw [hnp]
      exact Nat.le_of_lt (@map_in_header heapsize pagesize hps _ (by omega))
    · rw [hnp]
      show headerSize heapsize pagesize + _ * pagesize ≤ extentsize
      omega
    · rw [hnp, Nat.le_div_iff_mul_le hps]
      omega

/-- **Extents that are longer.** -/
theorem fits_longer (hg : Geometry pagesize (Nat.log2 pagesize))
    (hroom : headerSize heapsize pagesize + 2 * pagesize ≤ heapsize)
    (hle : heapsize ≤ extentsize) (hmax : extentsize < 2 ^ 64) :
    Fits (newHeap heapsize pagesize extentsize) ↔
      extentsize + 39 * pagesize < headerSize heapsize pagesize * (pagesize + 1) := by
  have hps : 0 < pagesize := by
    rw [hg.size]
    exact Nat.pow_pos (Nat.succ_pos 1)
  have hnp := @npages_of_room heapsize pagesize extentsize hg hmax (by omega)
  have hdiv := Nat.div_mul_le_self (extentsize - headerSize heapsize pagesize) pagesize
  have hat : pagemapAt = 40 := rfl
  have hge : 48 ≤ headerSize heapsize pagesize :=
    Nat.le_trans (Nat.le_add_right ..) (headerSize_ge heapsize pagesize)
  -- the map ends before the pages
  have hmap : 40 + (extentsize - headerSize heapsize pagesize) / pagesize ≤
      headerSize heapsize pagesize ↔
      extentsize + 39 * pagesize < headerSize heapsize pagesize * (pagesize + 1) := by
    generalize headerSize heapsize pagesize = hdrsize at hroom hge ⊢
    obtain ⟨k, rfl⟩ : ∃ k, hdrsize = k + 39 := ⟨hdrsize - 39, by omega⟩
    have hlt := @Nat.div_lt_iff_lt_mul pagesize (extentsize - (k + 39)) k hps
    rw [Nat.mul_add, Nat.mul_one, Nat.add_mul]
    omega
  have htwo : 2 ≤ (extentsize - headerSize heapsize pagesize) / pagesize := by
    rw [Nat.le_div_iff_mul_le hps]
    omega
  rw [← hmap, ← hnp]
  constructor
  · intro h
    exact h.map
  · intro h
    refine ⟨h, ?_, ?_⟩
    · rw [hnp]
      show headerSize heapsize pagesize + _ * pagesize ≤ extentsize
      omega
    · rw [hnp]
      exact htwo

end Sizes

/-! ## What the kernel gives -/

/-- The heap is in an area of its caller, or its extents are of `vmalloc` or of
    one large area, or there are none.  Else they are of `KMALLOC_LIMIT` bytes,
    and the header has room for the map of so many pages, or leaves room for two
    of them. -/
def LayoutFits (heapaddr large : Option Area) (core : Nat → Option Area)
    (heapsize pagesize : Nat) (suprt : Bool) : Prop :=
  heapaddr.isSome ∨ suprt = false ∨ (KMALLOC_LIMIT < heapsize ∧ large.isSome) ∨ core 0 = none ∨
    (heapsize ≤ KMALLOC_LIMIT ∧ KMALLOC_LIMIT + 39 * pagesize <
      headerSize heapsize pagesize * (pagesize + 1)) ∨
    (KMALLOC_LIMIT < heapsize ∧ headerSize heapsize pagesize + 2 * pagesize ≤ KMALLOC_LIMIT)

section Init

variable {heapaddr large : Option Area} {core : Nat → Option Area}
  {heapsize pagesize : Nat} {suprt : Bool} {mem : Mem}

/-- How long an extent is. -/
theorem heapArea_cases (heapaddr large : Option Area) (heapsize : Nat) (suprt : Bool) :
    ((heapaddr.isSome ∨ suprt = false ∨ (KMALLOC_LIMIT < heapsize ∧ large.isSome)) ∧
      (heapArea heapaddr large suprt heapsize).2 = heapsize) ∨
    (¬ (heapaddr.isSome ∨ suprt = false ∨ (KMALLOC_LIMIT < heapsize ∧ large.isSome)) ∧
      heapArea heapaddr large suprt heapsize = (none, KMALLOC_LIMIT)) := by
  rw [heapArea]
  by_cases hall : heapaddr.isNone ∧ suprt = true
  · obtain ⟨hnone, rfl⟩ := hall
    have haddr : ¬ heapaddr.isSome = true := by
      rw [Option.isNone_iff_eq_none.mp hnone]
      exact Bool.false_ne_true
    rw [if_pos ⟨hnone, rfl⟩]
    by_cases hsmall : heapsize ≤ KMALLOC_LIMIT
    · rw [if_pos hsmall]
      refine Or.inr ⟨?_, rfl⟩
      rintro (h | h | ⟨h, -⟩)
      · exact haddr h
      · exact Bool.noConfusion h
      · exact absurd h (Nat.not_lt.mpr hsmall)
    · rw [if_neg hsmall]
      cases large with
      | none =>
        refine Or.inr ⟨?_, rfl⟩
        rintro (h | h | ⟨-, h⟩)
        · exact haddr h
        · exact Bool.noConfusion h
        · exact Bool.noConfusion h
      | some area =>
        exact Or.inl ⟨Or.inr (Or.inr ⟨Nat.not_le.mp hsmall, rfl⟩), rfl⟩
  · rw [if_neg hall]
    refine Or.inl ⟨?_, rfl⟩
    cases heapaddr with
    | none =>
      cases suprt with
      | false => exact Or.inr (Or.inl rfl)
      | true => exact absurd ⟨rfl, rfl⟩ hall
    | some area => exact Or.inl rfl

/-- **Each extent holds its page map and its pages** if and only if the sizes
    that the header is made for are the sizes of the extents, or are near
    enough. -/
theorem layout_iff (h : rtheapInit heapaddr large core heapsize pagesize suprt mem ≠
      .error RTHEAP_PARAM) :
    (∀ e ∈ initialised heapaddr large core heapsize pagesize suprt mem,
      HoldsPages (descriptor heapaddr large heapsize pagesize suprt) e) ↔
    LayoutFits heapaddr large core heapsize pagesize suprt := by
  obtain ⟨hg, hmax, hroom⟩ := accepted_spec h
  have hps : 0 < pagesize := by
    rw [hg.size]
    exact Nat.pow_pos (Nat.succ_pos 1)
  have hbig : RTHEAP_MAXEXTSZ = 2 ^ 31 - 1 := rfl
  have hlimit : KMALLOC_LIMIT = 2 ^ 17 := rfl
  have hnil := @initialised_nil heapaddr large core heapsize pagesize suprt mem (by omega)
  rw [initialised_holds, hnil, LayoutFits, descriptor]
  -- the size asked for is kept, or `KMALLOC_LIMIT` takes its place
  rcases heapArea_cases heapaddr large heapsize suprt with ⟨hkind, hsize⟩ | ⟨hkind, hsize⟩
  · rw [hsize]
    constructor
    · intro
      rcases hkind with h | h | h
      · exact Or.inl h
      · exact Or.inr (Or.inl h)
      · exact Or.inr (Or.inr (Or.inl h))
    · intro
      exact Or.inr ((fits_shorter hg hmax (Nat.le_refl _)).mpr hroom)
  · rw [hsize]
    obtain ⟨haddr, hkind⟩ := not_or.mp hkind
    obtain ⟨hsuprt, hlarge⟩ := not_or.mp hkind
    have hsmaller : heapsize ≤ KMALLOC_LIMIT →
        (Fits (newHeap heapsize pagesize KMALLOC_LIMIT) ↔ KMALLOC_LIMIT + 39 * pagesize <
          headerSize heapsize pagesize * (pagesize + 1)) :=
      fun hle => fits_longer hg hroom hle (by omega)
    have hlarger : KMALLOC_LIMIT < heapsize → (Fits (newHeap heapsize pagesize KMALLOC_LIMIT) ↔
          headerSize heapsize pagesize + 2 * pagesize ≤ KMALLOC_LIMIT) :=
      fun hlt => fits_shorter hg hmax (Nat.le_of_lt hlt)
    constructor
    · rintro (⟨-, hcore⟩ | hfits)
      · exact Or.inr (Or.inr (Or.inr (Or.inl hcore)))
      · rcases Nat.lt_or_ge KMALLOC_LIMIT heapsize with hlt | hle
        · exact Or.inr (Or.inr (Or.inr (Or.inr (Or.inr ⟨hlt, (hlarger hlt).mp hfits⟩))))
        · exact Or.inr (Or.inr (Or.inr (Or.inr (Or.inl ⟨hle, (hsmaller hle).mp hfits⟩))))
    · rintro (h | h | h | hcore | ⟨hle, hmap⟩ | ⟨hlt, hpages⟩)
      · exact absurd h haddr
      · exact absurd h hsuprt
      · exact absurd h hlarge
      · exact Or.inl ⟨rfl, hcore⟩
      · exact Or.inr ((hsmaller hle).mpr hmap)
      · exact Or.inr ((hlarger hlt).mpr hpages)

end Init

/-- Four pages of 16 bytes in an area of the caller. -/
theorem layout_of_four : (descriptor (some ⟨1024, fun _ => 0⟩) none 128 16 false).npages = 4 ∧
      ∀ e ∈ initialised (some ⟨1024, fun _ => 0⟩) none (fun _ => none) 128 16 false
        fun _ => 0, HoldsPages (descriptor (some ⟨1024, fun _ => 0⟩) none 128 16 false) e := by
  refine ⟨rfl, (layout_iff fun h => ?_).mpr (Or.inl rfl)⟩
  obtain ⟨heap, mem, hok⟩ : ∃ heap mem, rtheapInit (some ⟨1024, fun _ => 0⟩) none
      (fun _ => none) 128 16 false (fun _ => 0) = .ok (heap, mem) := ⟨_, _, rfl⟩
  rw [hok] at h
  exact nomatch h

/-- What the kernel gives for each request of 128 kB. -/
def kernelArea (n : Nat) : Option Area := some ⟨(n + 1) * 2 ^ 17, fun _ => 0⟩

/-- **A PAGE MAP THAT IS TOO LONG**: a heap of three pages of 4 kB gets an extent of
    128 kB, and the map of its 31 pages is in 24 bytes of a header of 64 bytes.
    And without memory for all of it at once, a heap of three pages of 128 kB
    gets extents that have room for none. -/
theorem map_too_long :
    ((∃ heap mem, rtheapInit none none kernelArea (3 * 4096) 4096 true (fun _ => 0) =
        .ok (heap, mem) ∧ heap.npages = 31 ∧ heap.hdrsize = 64) ∧
      ¬ ∀ e ∈ initialised none none kernelArea (3 * 4096) 4096 true fun _ => 0,
        HoldsPages (descriptor none none (3 * 4096) 4096 true) e) ∧
    (∃ heap mem, rtheapInit none none kernelArea (3 * 2 ^ 17) (2 ^ 17) true (fun _ => 0) =
        .ok (heap, mem) ∧ heap.npages = 0) ∧
      ¬ ∀ e ∈ initialised none none kernelArea (3 * 2 ^ 17) (2 ^ 17) true fun _ => 0,
        HoldsPages (descriptor none none (3 * 2 ^ 17) (2 ^ 17) true) e := by
  have hsome : ∀ heapsize pagesize, 0 < heapsize →
      (∀ e ∈ initialised none none kernelArea heapsize pagesize true fun _ => 0,
        HoldsPages (descriptor none none heapsize pagesize true) e) →
      Fits (descriptor none none heapsize pagesize true) := by
    intro heapsize pagesize hpos hholds
    rcases initialised_holds.mp hholds with hexts | hfits
    · exact nomatch ((initialised_nil hpos).mp hexts).2
    · exact hfits
  refine ⟨⟨⟨_, _, rfl, rfl, rfl⟩, fun hholds => ?_⟩, ⟨_, _, rfl, rfl⟩, fun hholds => ?_⟩
  · have hmap := (hsome _ _ (by decide) hholds).map
    exact absurd hmap (by decide)
  · have htwo := (hsome _ _ (by decide) hholds).two_pages
    exact absurd htwo (by decide)

end RtaiHeapLayout
