import Rtai.Heap

/-! # What a page belongs to

    The page map says it: an entry that is not `RTHEAP_PCONT` is the head of a
    free page, of a page of blocks or of a run, and the entries behind it that
    are `RTHEAP_PCONT` go with it.  A byte is thus in no more than one free
    page or block. -/

namespace RtaiHeapPlaces

open RtaiHeap

/-- The size of a free page or of a block of a bucket. -/
def unitSize (ps tag : Nat) : Nat := if tag = RTHEAP_PFREE then ps else 2 ^ tag

/-- A free page or a block, `off` bytes into the `m` pages from page `i` on. -/
structure Placed (ps np : Nat) (map : Nat → Nat) (tag i m off s : Nat) : Prop where
  pages : i + m ≤ np
  head : map i = tag
  head_ne : tag ≠ RTHEAP_PCONT
  cont : ∀ j, i < j → j < i + m → map j = RTHEAP_PCONT
  stop : i + m < np → map (i + m) ≠ RTHEAP_PCONT
  first : off < ps
  fits : off + s ≤ m * ps
  pos : 0 < s
  unit : off % s = 0
  size : tag ≠ RTHEAP_PLIST → s = unitSize ps tag
  run : tag = RTHEAP_PLIST → off = 0 ∧ s = m * ps

section Pages

variable {ps np : Nat} {map map' : Nat → Nat} {tag tag' i i' m m' off off' s s' : Nat}

theorem Placed.some_page (h : Placed ps np map tag i m off s) : 0 < m := by
  have hfits := h.fits
  have hpos := h.pos
  rcases Nat.eq_zero_or_pos m with hm | hm
  · subst hm
    omega
  · exact hm

/-- A page has one head. -/
theorem same_head (h : Placed ps np map tag i m off s)
    (h' : Placed ps np map tag' i' m' off' s') {j : Nat} (hj : i ≤ j ∧ j < i + m)
    (hj' : i' ≤ j ∧ j < i' + m') : i = i' := by
  rcases Nat.lt_trichotomy i i' with hlt | heq | hlt
  · have hcont := h.cont i' hlt (by omega)
    exact absurd (h'.head.symm.trans hcont) h'.head_ne
  · exact heq
  · have hcont := h'.cont i hlt (by omega)
    exact absurd (h.head.symm.trans hcont) h.head_ne

/-- The page of a byte. -/
theorem Placed.page_of (h : Placed ps np map tag i m off s) {y : Nat}
    (hy : i * ps + off ≤ y ∧ y < i * ps + off + s) : i ≤ y / ps ∧ y / ps < i + m := by
  have hps : 0 < ps := Nat.lt_of_le_of_lt (Nat.zero_le _) h.first
  have hfits := h.fits
  constructor
  · rw [Nat.le_div_iff_mul_le hps]
    omega
  · rw [Nat.div_lt_iff_lt_mul hps, Nat.add_mul]
    omega

/-- Where a unit of some size starts. -/
theorem unit_eq {a b s y : Nat} (ha : a % s = 0) (hb : b % s = 0)
    (hay : a ≤ y ∧ y < a + s) (hby : b ≤ y ∧ y < b + s) : a = b := by
  obtain ⟨c, rfl⟩ := Nat.dvd_of_mod_eq_zero ha
  obtain ⟨d, rfl⟩ := Nat.dvd_of_mod_eq_zero hb
  rcases Nat.lt_trichotomy c d with hlt | heq | hlt
  · have hle : s * c + s ≤ s * d := Nat.mul_le_mul (Nat.le_refl s) hlt
    omega
  · rw [heq]
  · have hle : s * d + s ≤ s * c := Nat.mul_le_mul (Nat.le_refl s) hlt
    omega

/-- **A byte has one place.** -/
theorem same_place (h : Placed ps np map tag i m off s)
    (h' : Placed ps np map tag' i' m' off' s') {y : Nat}
    (hy : i * ps + off ≤ y ∧ y < i * ps + off + s)
    (hy' : i' * ps + off' ≤ y ∧ y < i' * ps + off' + s') :
    i = i' ∧ tag = tag' ∧ off = off' := by
  have hi := same_head h h' (h.page_of hy) (h'.page_of hy')
  subst hi
  have htag := h.head.symm.trans h'.head
  subst htag
  refine ⟨rfl, rfl, ?_⟩
  by_cases hrun : tag = RTHEAP_PLIST
  · exact (h.run hrun).1.trans (h'.run hrun).1.symm
  · have hs := (h.size hrun).trans (h'.size hrun).symm
    subst hs
    exact unit_eq h.unit h'.unit (y := y - i * ps) (by omega) (by omega)

/-- Another page map, the same for these pages. -/
theorem Placed.congr (h : Placed ps np map tag i m off s)
    (hsame : ∀ j, i ≤ j → j < i + m → map' j = map j)
    (hstop : i + m < np → map' (i + m) ≠ RTHEAP_PCONT) :
    Placed ps np map' tag i m off s := by
  have hm := h.some_page
  exact {
    pages := h.pages
    head := (hsame i (Nat.le_refl i) (by omega)).trans h.head
    head_ne := h.head_ne
    cont := fun j hj hj' => (hsame j (by omega) hj').trans (h.cont j hj hj')
    stop := hstop
    first := h.first
    fits := h.fits
    pos := h.pos
    unit := h.unit
    size := h.size
    run := h.run }

/-- The page map after pages have been taken. -/
structure Taken (map : Nat → Nat) (tag i m : Nat) (map' : Nat → Nat) : Prop where
  some_page : 0 < m
  tag_ne : tag ≠ RTHEAP_PCONT
  free : ∀ j, i ≤ j → j < i + m → map j = RTHEAP_PFREE
  head : map' i = tag
  cont : ∀ j, i < j → j < i + m → map' j = RTHEAP_PCONT
  other : ∀ j, j < i ∨ i + m ≤ j → map' j = map j

/-- **What is taken** was free, and all else stays where it is. -/
theorem Placed.taken (h : Placed ps np map tag i m off s) (ht : Taken map tag' i' m' map')
    (hfree : tag = RTHEAP_PFREE → i < i' ∨ i' + m' ≤ i) :
    Placed ps np map' tag i m off s := by
  have hm := h.some_page
  have hm' := ht.some_page
  have hapart : ∀ j, i ≤ j → j < i + m → j < i' ∨ i' + m' ≤ j := by
    intro j hj hj'
    by_contra hin
    have hj0 := ht.free j (by omega) (by omega)
    rcases Nat.eq_or_lt_of_le hj with rfl | hlt
    · have htag : tag = RTHEAP_PFREE := h.head.symm.trans hj0
      exact hin (hfree htag)
    · exact absurd (hj0.symm.trans (h.cont j hlt hj')) (by decide)
  refine h.congr (fun j hj hj' => ht.other j (hapart j hj hj')) fun hlt => ?_
  by_cases hout : i + m < i' ∨ i' + m' ≤ i + m
  · rw [ht.other _ hout]
    exact h.stop hlt
  · rcases Nat.eq_or_lt_of_le (show i' ≤ i + m by omega) with heq | hgt
    · rw [← heq, ht.head]
      exact ht.tag_ne
    · -- the page before is taken, and is not free
      have hlast := hapart (i + m - 1) (by omega) (by omega)
      omega

/-- The page behind the ones that are taken. -/
theorem Taken.stop (ht : Taken map tag' i' m' map')
    (hlast : Placed ps np map RTHEAP_PFREE (i' + m' - 1) 1 0 ps)
    (hlt : i' + m' < np) : map' (i' + m') ≠ RTHEAP_PCONT := by
  have hm := ht.some_page
  have hnext : i' + m' - 1 + 1 = i' + m' := by omega
  rw [ht.other _ (Or.inr (Nat.le_refl _)), ← hnext]
  exact hlast.stop (by omega)

/-- What is made of the pages. -/
theorem Taken.placed (ht : Taken map tag' i' m' map')
    (hlast : Placed ps np map RTHEAP_PFREE (i' + m' - 1) 1 0 ps) (hfirst : off < ps)
    (hfits : off + s ≤ m' * ps) (hpos : 0 < s) (hunit : off % s = 0)
    (hsize : tag' ≠ RTHEAP_PLIST → s = unitSize ps tag')
    (hrun : tag' = RTHEAP_PLIST → off = 0 ∧ s = m' * ps) :
    Placed ps np map' tag' i' m' off s where
  pages := by
    have hpages := hlast.pages
    have hm := ht.some_page
    omega
  head := ht.head
  head_ne := ht.tag_ne
  cont := ht.cont
  stop := ht.stop hlast
  first := hfirst
  fits := hfits
  pos := hpos
  unit := hunit
  size := hsize
  run := hrun

/-- **A run that is given back** is no longer a run, and all else stays where
    it is. -/
theorem Placed.freed (h : Placed ps np map tag i m off s)
    (hrun : Placed ps np map RTHEAP_PLIST i' m' 0 s') (hne : i ≠ i')
    (hfree : ∀ j, i' ≤ j → j < i' + m' → map' j = RTHEAP_PFREE)
    (hother : ∀ j, j < i' ∨ i' + m' ≤ j → map' j = map j) :
    Placed ps np map' tag i m off s := by
  refine h.congr (fun j hj hj' => hother j ?_) fun hlt => ?_
  · by_contra hin
    exact hne (same_head h hrun ⟨hj, hj'⟩ (by omega))
  · by_cases hin : i' ≤ i + m ∧ i + m < i' + m'
    · rw [hfree _ hin.1 hin.2]
      decide
    · rw [hother _ (by omega)]
      exact h.stop hlt

/-- Its pages are free. -/
theorem Placed.free_page (hrun : Placed ps np map RTHEAP_PLIST i' m' 0 s')
    (hfree : ∀ j, i' ≤ j → j < i' + m' → map' j = RTHEAP_PFREE)
    (hother : ∀ j, j < i' ∨ i' + m' ≤ j → map' j = map j) {j : Nat}
    (hj : i' ≤ j) (hj' : j < i' + m') :
    Placed ps np map' RTHEAP_PFREE j 1 0 ps where
  pages := by
    have := hrun.pages
    omega
  head := hfree j hj hj'
  head_ne := by decide
  cont := by
    intro k hk hk'
    omega
  stop := by
    intro hlt
    rcases Nat.eq_or_lt_of_le (show j + 1 ≤ i' + m' by omega) with heq | hmore
    · rw [heq, hother _ (Or.inr (Nat.le_refl _))]
      exact hrun.stop (by omega)
    · rw [hfree _ (by omega) hmore]
      decide
  first := hrun.first
  fits := by omega
  pos := hrun.first
  unit := Nat.zero_mod ps
  size := fun _ => rfl
  run := fun h => absurd h (by decide)

end Pages

/-! ## Extents -/

/-- The pages of an extent of `len` bytes, which are aligned as the extent is. -/
structure Pages (ps np len : Nat) (e : Extent) : Prop where
  base : 0 < e.membase
  lim : e.memlim = e.membase + np * ps
  room : e.memlim ≤ e.extent + len
  aligned : 16 ∣ e.extent → 16 ∣ e.membase

/-- No page of one extent is in another. -/
def ApartFrom (e e' : Extent) : Prop :=
  e.memlim ≤ e'.membase ∨ e'.memlim ≤ e.membase

/-- A free page or a block of `s` bytes at an address. -/
def InHeap (ps np : Nat) (exts : List Extent) (tag a s : Nat) : Prop :=
  ∃ e ∈ exts, ∃ i m off, Placed ps np e.pagemap tag i m off s ∧ a = e.membase + (i * ps + off)

section Extents

variable {ps np len : Nat} {exts pre post : List Extent} {e e' : Extent}
  {tag tag' a a' s s' x : Nat}

/-- A block is in the pages of its extent. -/
theorem Placed.inside {map : Nat → Nat} {i m off : Nat}
    (h : Placed ps np map tag i m off s) : i * ps + off + s ≤ np * ps := by
  have hfits := h.fits
  have hle := Nat.mul_le_mul_right ps h.pages
  rw [Nat.add_mul] at hle
  omega

/-- **A byte of the heap** is in one free page or block. -/
theorem owner_unique (hareas : ∀ e ∈ exts, Pages ps np len e)
    (hapart : exts.Pairwise ApartFrom) (h : InHeap ps np exts tag a s)
    (h' : InHeap ps np exts tag' a' s') (hx : a ≤ x ∧ x < a + s)
    (hx' : a' ≤ x ∧ x < a' + s') : a = a' ∧ tag = tag' := by
  obtain ⟨e, he, i, m, off, hp, rfl⟩ := h
  obtain ⟨e', he', i', m', off', hp', rfl⟩ := h'
  have hsame : e = e' := by
    by_contra hne
    have : Std.Symm ApartFrom := ⟨fun _ _ h => Or.symm h⟩
    have hin := hp.inside
    have hin' := hp'.inside
    have hlim := (hareas e he).lim
    have hlim' := (hareas e' he').lim
    rcases hapart.forall he he' hne with h | h <;> omega
  subst hsame
  obtain ⟨rfl, rfl, rfl⟩ := same_place hp hp' (y := x - e.membase) (by omega) (by omega)
  exact ⟨rfl, rfl⟩

theorem pages_replace (h : ∀ d ∈ pre ++ e :: post, Pages ps np len d)
    (hext : e'.extent = e.extent) (hbase : e'.membase = e.membase)
    (hlim : e'.memlim = e.memlim) : ∀ d ∈ pre ++ e' :: post, Pages ps np len d := by
  intro d hd
  rcases List.mem_append.mp hd with hd | hd
  · exact h d (List.mem_append_left _ hd)
  · cases hd with
    | head =>
      have he := h e (List.mem_append_right _ (List.mem_cons_self ..))
      exact ⟨hbase ▸ he.base, by rw [hlim, hbase]; exact he.lim,
        by rw [hlim, hext]; exact he.room, by rw [hext, hbase]; exact he.aligned⟩
    | tail _ hd => exact h d (List.mem_append_right _ (List.mem_cons_of_mem _ hd))

theorem apart_replace (h : (pre ++ e :: post).Pairwise ApartFrom)
    (hbase : e'.membase = e.membase) (hlim : e'.memlim = e.memlim) :
    (pre ++ e' :: post).Pairwise ApartFrom := by
  obtain ⟨hpre, hpost, hcross⟩ := List.pairwise_append.mp h
  obtain ⟨he, hpost⟩ := List.pairwise_cons.mp hpost
  have hright : ∀ d, ApartFrom e d → ApartFrom e' d := by
    intro d hd
    rw [ApartFrom, hbase, hlim]
    exact hd
  have hleft : ∀ d, ApartFrom d e → ApartFrom d e' := by
    intro d hd
    rw [ApartFrom, hbase, hlim]
    exact hd
  refine List.pairwise_append.mpr ⟨hpre, List.pairwise_cons.mpr
    ⟨fun d hd => hright d (he d hd), hpost⟩, fun d hd d' hd' => ?_⟩
  cases hd' with
  | head => exact hleft d (hcross d hd e (List.mem_cons_self ..))
  | tail _ hd' => exact hcross d hd d' (List.mem_cons_of_mem _ hd')

/-- Another page map for one of the extents. -/
theorem InHeap.replace (h : InHeap ps np (pre ++ e :: post) tag a s)
    (hbase : e'.membase = e.membase)
    (hkeep : ∀ i m off, Placed ps np e.pagemap tag i m off s →
      a = e.membase + (i * ps + off) → Placed ps np e'.pagemap tag i m off s) :
    InHeap ps np (pre ++ e' :: post) tag a s := by
  obtain ⟨d, hd, i, m, off, hp, ha⟩ := h
  rcases List.mem_append.mp hd with hd | hd
  · exact ⟨d, List.mem_append_left _ hd, i, m, off, hp, ha⟩
  · cases hd with
    | head =>
      refine ⟨e', List.mem_append_right _ (List.mem_cons_self ..), i, m, off,
        hkeep i m off hp ha, ?_⟩
      rw [hbase]
      exact ha
    | tail _ hd =>
      exact ⟨d, List.mem_append_right _ (List.mem_cons_of_mem _ hd), i, m, off, hp, ha⟩

end Extents

end RtaiHeapPlaces
