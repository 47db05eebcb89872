import Rtai.HeapInv

/-! # rtheap_init makes a heap

    The header of an extent has room for the map of its pages, and the pages
    are in the extent.  All pages are free, in order. -/

namespace RtaiHeapStart

open RtaiHeap RtaiChains RtaiHeapLoops RtaiHeapPlaces RtaiHeapSizes RtaiHeapInv

/-- What the descriptor is like if an extent has room for its header and a
    page. -/
structure Ready (heap : Rtheap) : Prop where
  geometry : Geometry heap.pagesize heap.pageshift
  hdr_pos : 0 < heap.hdrsize
  hdr_aligned : 16 ∣ heap.hdrsize
  npages : heap.hdrsize + heap.npages * heap.pagesize ≤ heap.extentsize
  some_page : 0 < heap.npages
  npages_lt : heap.npages < 2 ^ 31
  header : pagemapAt + heap.npages < heap.hdrsize

section Parameters

variable {heapsize pagesize extentsize : Nat}

/-- **The parameters** that are accepted. -/
theorem goodParams_spec (h : goodParams heapsize pagesize = true) :
    Geometry pagesize (Nat.log2 pagesize) ∧ heapsize ≤ RTHEAP_MAXEXTSZ := by
  simp only [goodParams, decide_eq_true_eq, not_or] at h
  obtain ⟨h1, h2, h3, -, h5, -⟩ := h
  have hge : 16 ≤ pagesize := Nat.not_lt.mp h1
  have hle : pagesize ≤ 2 ^ 22 := Nat.not_lt.mp h2
  have hne : pagesize ≠ 0 := by omega
  obtain ⟨k, rfl⟩ :=
    (Nat.and_sub_one_eq_zero_iff_isPowerOfTwo hne).mp (Decidable.not_not.mp h3)
  rw [Nat.log2_two_pow]
  refine ⟨⟨rfl, ?_, ?_⟩, Nat.not_lt.mp h5⟩
  · exact (Nat.pow_le_pow_iff_right (Nat.lt_succ_self 1)).mp hge
  · exact (Nat.pow_le_pow_iff_right (Nat.lt_succ_self 1)).mp hle

theorem headerSize_ge (heapsize pagesize : Nat) :
    48 + (heapsize - 48) / (pagesize + 1) ≤ headerSize heapsize pagesize := by
  have hval : headerSize heapsize pagesize =
      (48 + (heapsize - 48) / (pagesize + 1) + 16 - 1) / 16 * 16 := rfl
  rw [hval]
  omega

/-- **The map is in the header**, with a byte behind it. -/
theorem map_in_header (hps : 0 < pagesize) {np : Nat}
    (hnp : headerSize heapsize pagesize + np * pagesize ≤ heapsize) :
    pagemapAt + np < headerSize heapsize pagesize := by
  have hhdr := headerSize_ge heapsize pagesize
  have hlt := Nat.lt_div_mul_add (a := heapsize - 48) (Nat.succ_pos pagesize)
  generalize (heapsize - 48) / (pagesize + 1) = q at hhdr hlt
  have hat : pagemapAt = 40 := rfl
  rw [hat]
  by_contra hno
  -- nine pages more than bytes in the map
  have hle : (q + 8) * pagesize ≤ np * pagesize :=
    Nat.mul_le_mul_right pagesize (by omega)
  rw [Nat.add_mul] at hle
  rw [Nat.succ_eq_add_one, Nat.mul_add, Nat.mul_one] at hlt
  omega

theorem newHeap_ready (hg : Geometry pagesize (Nat.log2 pagesize))
    (hmax : heapsize ≤ RTHEAP_MAXEXTSZ) (hext : extentsize ≤ heapsize)
    (hroom : headerSize heapsize pagesize + pagesize ≤ extentsize) :
    Ready (newHeap heapsize pagesize extentsize) := by
  have hpos : 48 ≤ headerSize heapsize pagesize :=
    Nat.le_trans (Nat.le_add_right ..) (headerSize_ge heapsize pagesize)
  have hbig : RTHEAP_MAXEXTSZ = 2 ^ 31 - 1 := rfl
  have hps : 0 < pagesize := by
    rw [hg.size]
    exact Nat.pow_pos (Nat.succ_pos 1)
  have hmod : (extentsize + 2 ^ 64 - headerSize heapsize pagesize) % 2 ^ 64 =
      extentsize - headerSize heapsize pagesize := by
    omega
  have hnp : (newHeap heapsize pagesize extentsize).npages =
      (extentsize - headerSize heapsize pagesize) / pagesize := by
    show ((extentsize + 2 ^ 64 - headerSize heapsize pagesize) % 2 ^ 64) >>>
      Nat.log2 pagesize = _
    rw [hmod, Nat.shiftRight_eq_div_pow, ← hg.size]
  have hle := Nat.div_mul_le_self (extentsize - headerSize heapsize pagesize) pagesize
  have hself := Nat.div_le_self (extentsize - headerSize heapsize pagesize) pagesize
  exact {
    geometry := hg
    hdr_pos := by
      show 0 < headerSize heapsize pagesize
      omega
    hdr_aligned := Nat.dvd_mul_left ..
    npages := by
      rw [hnp]
      show headerSize heapsize pagesize + _ * pagesize ≤ extentsize
      omega
    some_page := by
      rw [hnp]
      exact Nat.div_pos (by omega) hps
    npages_lt := by
      rw [hnp]
      omega
    header := by
      rw [hnp]
      exact @map_in_header heapsize pagesize hps _ (by omega) }

end Parameters

section Extents

variable {heap : Rtheap} {mem : Mem} {xs : List (Extent × List Nat)} {area : Area}

/-- **init_extent**: the loop ends at the last page. -/
theorem initExtent_eq (hr : Ready heap) (area : Area) (mem : Mem) {n : Nat}
    (hn : heap.npages = n + 1) : initExtent heap area mem =
      ({ extent := area.addr
         membase := area.addr + heap.hdrsize
         memlim := area.addr + heap.hdrsize + n * heap.pagesize + heap.pagesize
         freelist := area.addr + heap.hdrsize
         pagemap := fun j =>
           if j < heap.npages then RTHEAP_PFREE else area.bytes (pagemapAt + j) },
        Function.update (linkUpto heap.pagesize
          (area.addr + heap.hdrsize + n * heap.pagesize) (area.addr + heap.hdrsize) mem)
          (area.addr + heap.hdrsize + n * heap.pagesize) 0) := by
  have hlt := hr.npages_lt
  have hlast : ((heap.npages : Int) - 1).bmod (2 ^ 32) = n := by
    have hsub : (heap.npages : Int) - 1 = n := by omega
    rw [hsub]
    exact Int.bmod_eq_of_le (by omega) (by omega)
  have hle : ∀ j : Nat, (j : Int) ≤ (n : Int) ↔ j < heap.npages := by
    intro j
    omega
  simp only [initExtent, hlast, Int.toNat_natCast, hle]

/-- **A new extent.** -/
theorem add_extent (hr : Ready heap) (J : Inv heap mem [] xs fun _ => [])
    (hapart : ∀ e ∈ heap.extents, e.memlim ≤ area.addr + heap.hdrsize ∨
      area.addr + heap.hdrsize + heap.npages * heap.pagesize ≤ e.membase) :
    Inv { heap with extents := heap.extents ++ [(initExtent heap area mem).1] }
      (initExtent heap area mem).2 []
      (xs ++ [((initExtent heap area mem).1,
        places heap.pagesize (area.addr + heap.hdrsize) heap.npages)]) fun _ => [] := by
  have hps := J.geometry.pos
  have hhdr := hr.hdr_pos
  obtain ⟨n, hn⟩ : ∃ n, heap.npages = n + 1 :=
    ⟨heap.npages - 1, (Nat.sub_add_cancel hr.some_page).symm⟩
  rw [initExtent_eq hr area mem hn]
  have hlim : area.addr + heap.hdrsize + n * heap.pagesize + heap.pagesize =
      area.addr + heap.hdrsize + heap.npages * heap.pagesize := by
    rw [hn, Nat.succ_mul, Nat.add_assoc]
  rw [hlim]
  have hchain := @chain_linkUpto heap.pagesize
    (area.addr + heap.hdrsize + n * heap.pagesize) (area.addr + heap.hdrsize) n 0 mem
    hps (by omega) rfl
  rw [← hn] at hchain
  generalize hmem' : Function.update (linkUpto heap.pagesize
    (area.addr + heap.hdrsize + n * heap.pagesize) (area.addr + heap.hdrsize) mem)
    (area.addr + heap.hdrsize + n * heap.pagesize) 0 = mem' at hchain
  have hkept : ∀ x, x ∉ places heap.pagesize (area.addr + heap.hdrsize) heap.npages →
      mem' x = mem x := by
    intro x hx
    rw [hn, places_snoc, List.mem_append, not_or] at hx
    have hne : x ≠ area.addr + heap.hdrsize + n * heap.pagesize := fun he =>
      hx.2 (he ▸ List.mem_cons_self ..)
    rw [← hmem', Function.update_of_ne hne, linkUpto_apply hps rfl, if_neg hx.1]
  have hplaced : ∀ j, j < heap.npages → Placed heap.pagesize heap.npages
      (fun j => if j < heap.npages then RTHEAP_PFREE else area.bytes (pagemapAt + j))
      RTHEAP_PFREE j 1 0 heap.pagesize := by
    intro j hj
    exact {
      pages := hj
      head := if_pos hj
      head_ne := by decide
      cont := fun k hk hk' => absurd hk' (by omega)
      stop := by
        intro hlt
        rw [if_pos hlt]
        decide
      first := hps
      fits := by omega
      pos := hps
      unit := Nat.zero_mod _
      size := fun _ => rfl
      run := fun h => absurd h (by decide) }
  -- only the new extent has something to show
  refine { J with
    exts := ?_
    pages := fun e he => ?_
    apart := ?_
    free := fun x hx => ?_
    bucket := fun c => ?_
    bucket_placed := fun _ _ h => nomatch h
    live_placed := fun _ h => nomatch h }
  · rw [List.map_append, ← J.exts]
    rfl
  · rcases List.mem_append.mp he with he | he
    · exact J.pages e he
    · obtain rfl := List.mem_singleton.mp he
      have hroom := hr.npages
      refine ⟨?_, rfl, ?_, fun h => Nat.dvd_add h hr.hdr_aligned⟩
      · show 0 < area.addr + heap.hdrsize
        omega
      · show area.addr + heap.hdrsize + heap.npages * heap.pagesize ≤
          area.addr + heap.extentsize
        omega
  · refine List.pairwise_append.mpr ⟨J.apart, List.pairwise_singleton .., ?_⟩
    intro d hd e he
    obtain rfl := List.mem_singleton.mp he
    exact hapart d hd
  · rcases List.mem_append.mp hx with hx | hx
    · refine { J.free x hx with
        chain := chain_congr (J.free x hx).chain fun q hq => hkept q fun hin => ?_ }
      obtain ⟨i, hi, rfl⟩ := (J.free x hx).placed q hq
      obtain ⟨j, hj, he⟩ := mem_places.mp hin
      have hin := hi.inside
      have hin' := (hplaced j hj).inside
      have hlim' := (J.pages x.1 (J.ext_mem hx)).lim
      rcases hapart x.1 (J.ext_mem hx) with h | h <;> omega
    · obtain rfl := List.mem_singleton.mp hx
      refine ⟨hchain, places_sorted hps _ _, fun q hq => ?_⟩
      obtain ⟨j, hj, rfl⟩ := mem_places.mp hq
      exact ⟨j, hplaced j hj, rfl⟩
  · exact J.bucket c

end Extents

section Init

variable {heapaddr large : Option Area} {core : Nat → Option Area}
  {heapsize pagesize : Nat} {suprt : Bool} {heap heap' : Rtheap} {mem mem' : Mem}

/-- An extent is no longer than the heap. -/
theorem heapArea_le (hkind : heapaddr.isNone → suprt = true → KMALLOC_LIMIT < heapsize) :
    (heapArea heapaddr large suprt heapsize).2 ≤ heapsize := by
  rw [heapArea]
  by_cases hall : heapaddr.isNone ∧ suprt = true
  · rw [if_pos hall]
    have hlt := hkind hall.1 hall.2
    rw [if_neg (Nat.not_le.mpr hlt)]
    cases allocExtent suprt large with
    | none => exact Nat.le_of_lt hlt
    | some area => exact Nat.le_refl heapsize
  · rw [if_neg hall]

theorem allocExtent_addr {got : Option Area} {area : Area}
    (h : allocExtent suprt got = some area) :
    ∃ area₀, got = some area₀ ∧ area.addr = area₀.addr := by
  obtain ⟨area₀, rfl, rfl⟩ := Option.map_eq_some_iff.mp h
  refine ⟨area₀, rfl, ?_⟩
  split <;> rfl

/-- Other extents do not matter to what the descriptor is like. -/
theorem Ready.extents (hr : Ready heap) (exts : List Extent) :
    Ready { heap with extents := exts } :=
  ⟨hr.geometry, hr.hdr_pos, hr.hdr_aligned, hr.npages, hr.some_page, hr.npages_lt, hr.header⟩

/-- An empty heap. -/
theorem inv_new (hr : Ready heap) (hexts : heap.extents = [])
    (hbuckets : ∀ c, heap.buckets c = 0) (hu : heap.ubytes = 0) (mem : Mem) :
    Inv heap mem [] [] fun _ => [] where
  geometry := hr.geometry
  header := hr.header
  exts := hexts
  pages := by
    intro e he
    rw [hexts] at he
    exact nomatch he
  apart := by
    rw [hexts]
    exact List.Pairwise.nil
  free := fun _ h => nomatch h
  bucket := hbuckets
  bucket_nodup := fun _ => List.nodup_nil
  bucket_placed := fun _ _ h => nomatch h
  live_placed := fun _ h => nomatch h
  live_addr := List.nodup_nil
  live_bucket := fun _ h => nomatch h
  enough := fun _ h => nomatch h
  ubytes := hu

/-- All pages are free. -/
def Fresh (heap : Rtheap) (xs : List (Extent × List Nat)) : Prop :=
  ∀ x ∈ xs, ∀ j, j < heap.npages → x.1.pagemap j = RTHEAP_PFREE ∧
    x.1.membase + j * heap.pagesize ∈ x.2

/-- A new extent is. -/
theorem fresh_extent (hr : Ready heap) (area : Area) (mem : Mem) {j : Nat}
    (hj : j < heap.npages) : (initExtent heap area mem).1.pagemap j = RTHEAP_PFREE ∧
      (initExtent heap area mem).1.membase + j * heap.pagesize ∈
        places heap.pagesize (area.addr + heap.hdrsize) heap.npages := by
  obtain ⟨n, hn⟩ : ∃ n, heap.npages = n + 1 :=
    ⟨heap.npages - 1, (Nat.sub_add_cancel hr.some_page).symm⟩
  rw [initExtent_eq hr area mem hn]
  exact ⟨if_pos hj, mem_places.mpr ⟨j, hj, rfl⟩⟩

/-- **The loop** adds one extent after another. -/
theorem addExtents_inv {fuel n initSize : Nat} {xs : List (Extent × List Nat)}
    (hr : Ready heap) (J : Inv heap mem [] xs fun _ => []) (hfresh : Fresh heap xs)
    (hcore : ∀ i j area area', i < j → core i = some area → core j = some area' →
      area.addr + heap.extentsize ≤ area'.addr ∨ area'.addr + heap.extentsize ≤ area.addr)
    (hprev : ∀ e ∈ heap.extents, ∃ j area, j < n ∧ core j = some area ∧
      e.membase = area.addr + heap.hdrsize)
    (h : addExtents core suprt heapsize fuel n initSize heap mem = .ok (heap', mem')) :
    ∃ xs', Inv heap' mem' [] xs' (fun _ => []) ∧ Fresh heap' xs' := by
  induction fuel generalizing n initSize heap mem xs with
  | zero =>
    cases h
    exact ⟨xs, J, hfresh⟩
  | succ fuel ih =>
    rw [addExtents] at h
    by_cases hmore : initSize < heapsize
    · rw [if_pos hmore] at h
      cases harea : allocExtent suprt (core n) with
      | none =>
        rw [harea] at h
        exact nomatch h
      | some area =>
        rw [harea] at h
        obtain ⟨area₀, hcore₀, haddr⟩ := allocExtent_addr harea
        have hnp := hr.npages
        have hnew := @add_extent heap mem xs area hr J fun e he => by
          obtain ⟨j, area', hj, hcore', hbase⟩ := hprev e he
          have hlim := (J.pages e he).lim
          rcases hcore j n area' area₀ hj hcore' hcore₀ with h | h <;> omega
        refine ih (hr.extents _) hnew (fun x hx j hj => ?_) hcore (fun e he => ?_) h
        · rcases List.mem_append.mp hx with hx | hx
          · exact hfresh x hx j hj
          · obtain rfl := List.mem_singleton.mp hx
            exact fresh_extent hr area mem hj
        · rcases List.mem_append.mp he with he | he
          · obtain ⟨j, area', hj, hrest⟩ := hprev e he
            exact ⟨j, area', by omega, hrest⟩
          · obtain rfl := List.mem_singleton.mp he
            refine ⟨n, area₀, Nat.lt_succ_self n, hcore₀, ?_⟩
            rw [← haddr]
            rfl
    · rw [if_neg hmore] at h
      cases h
      exact ⟨xs, J, hfresh⟩

/-- **rtheap_init** with a descriptor that is ready. -/
theorem rtheapInit_fresh (hinit : rtheapInit heapaddr large core heapsize pagesize suprt mem =
      .ok (heap', mem'))
    (hr : Ready (newHeap heapsize pagesize (heapArea heapaddr large suprt heapsize).2))
    (hcore : ∀ i j area area', i < j → core i = some area → core j = some area' →
      area.addr + (heapArea heapaddr large suprt heapsize).2 ≤ area'.addr ∨
        area'.addr + (heapArea heapaddr large suprt heapsize).2 ≤ area.addr) :
    ∃ xs, Inv heap' mem' [] xs (fun _ => []) ∧ Fresh heap' xs := by
  rw [rtheapInit] at hinit
  split at hinit
  · exact nomatch hinit
  split at hinit
  · exact nomatch hinit
  generalize heapArea heapaddr large suprt heapsize = a at hinit hcore hr
  obtain ⟨addr, extentsize⟩ := a
  have J := inv_new hr rfl (fun _ => rfl) rfl mem
  cases addr with
  | some area =>
    cases hinit
    refine ⟨_, add_extent hr J fun e he => (nomatch he), fun x hx j hj => ?_⟩
    obtain rfl := List.mem_singleton.mp hx
    exact fresh_extent hr area mem hj
  | none =>
    exact addExtents_inv hr J (fun _ hx => nomatch hx) hcore (fun e he => nomatch he) hinit

/-- What is accepted. -/
theorem accepted_spec (h : rtheapInit heapaddr large core heapsize pagesize suprt mem ≠
      .error RTHEAP_PARAM) :
    Geometry pagesize (Nat.log2 pagesize) ∧ heapsize ≤ RTHEAP_MAXEXTSZ ∧
      headerSize heapsize pagesize + 2 * pagesize ≤ heapsize := by
  rw [rtheapInit] at h
  split at h
  · exact absurd rfl h
  next hgood =>
    split at h
    · exact absurd rfl h
    next hroom =>
      obtain ⟨hg, hmax⟩ := goodParams_spec (not_not.mp hgood)
      exact ⟨hg, hmax, Nat.not_lt.mp hroom⟩

theorem accepted_of_init (hinit : rtheapInit heapaddr large core heapsize pagesize suprt mem =
      .ok (heap', mem')) :
    rtheapInit heapaddr large core heapsize pagesize suprt mem ≠ .error RTHEAP_PARAM := by
  rw [hinit]
  exact nofun

/-- **rtheap_init** -/
theorem rtheapInit_inv (hinit : rtheapInit heapaddr large core heapsize pagesize suprt mem =
      .ok (heap', mem'))
    (hkind : heapaddr.isNone → suprt = true → KMALLOC_LIMIT < heapsize)
    (hcore : ∀ i j area area', i < j → core i = some area → core j = some area' →
      area.addr + (heapArea heapaddr large suprt heapsize).2 ≤ area'.addr ∨
        area'.addr + (heapArea heapaddr large suprt heapsize).2 ≤ area.addr)
    (hroom : headerSize heapsize pagesize + pagesize ≤
      (heapArea heapaddr large suprt heapsize).2) :
    ∃ xs, Inv heap' mem' [] xs fun _ => [] := by
  obtain ⟨hg, hmax, -⟩ := accepted_spec (accepted_of_init hinit)
  have hr := newHeap_ready hg hmax (@heapArea_le heapaddr large heapsize suprt hkind) hroom
  obtain ⟨xs, J, -⟩ := rtheapInit_fresh hinit hr hcore
  exact ⟨xs, J⟩

end Init

end RtaiHeapStart
