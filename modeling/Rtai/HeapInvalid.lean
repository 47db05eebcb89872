import Rtai.HeapComplete

/-! # rtheap_free of what is no block

    Whether a pointer is a block is read off one byte of the page map, and that
    byte does not tell a block that has been freed from one that has not.  A
    pointer into no extent is taken for one into the last. -/

namespace RtaiHeapInvalid

open RtaiRuns RtaiHeap RtaiHeapPlaces
open RtaiHeapInv RtaiHeapFree RtaiHeapSound RtaiHeapComplete

/-- `boffset` for a block before or behind an extent. -/
def boffset (heap : Rtheap) (extent : Extent) (block : Nat) : Nat :=
  (((block : Int) - extent.membase) % heap.pagesize).toNat

/-- `rtheap_free` of any pointer.  `list_for_each` does not leave `holder` as NULL,
    and so for a block in no extent the byte `pagemap[pagenum]` is one of other
    memory: `stray`, or none if there is no memory.  The result is none if it
    does not return, or writes where no block is. -/
def rtheapFreeAny (stray : Option Nat) (heap : Rtheap) (mem : Mem) (block : Nat) :
    Option (Int × Rtheap × Mem) :=
  match findExtent block heap.extents with
  | some _ => rtheapFree heap mem block
  | none => do
      let extent ← heap.extents.getLast?
      let tag ← stray
      if tag = RTHEAP_PFREE ∨ tag = RTHEAP_PCONT then some (RTHEAP_PARAM, heap, mem)
      else if tag = RTHEAP_PLIST then none
      -- a shift of an int takes five bits of the byte
      else if boffset heap extent block % 2 ^ (tag % 32) ≠ 0 then
        some (RTHEAP_PARAM, heap, mem)
      else none

/-- The address is within the heap. -/
def InExtent (heap : Rtheap) (block : Nat) : Prop :=
  ∃ e ∈ heap.extents, e.membase ≤ block ∧ block < e.memlim

/-- The byte is one of a free page or of a page that is no head, or the block is
    not aligned as it would have to be. -/
def StrayRejects (stray : Option Nat) (heap : Rtheap) (block : Nat) : Prop :=
  ∃ extent tag, heap.extents.getLast? = some extent ∧ stray = some tag ∧
    (tag = RTHEAP_PFREE ∨ tag = RTHEAP_PCONT ∨
      (tag ≠ RTHEAP_PLIST ∧ boffset heap extent block % 2 ^ (tag % 32) ≠ 0))

/-- The pointer is in an extent, but no free block of a bucket and not in the first
    page of a run that a user has; or the byte happens to be one of those. -/
def Rejected (stray : Option Nat) (st : St) (block : Nat) : Prop :=
  (InExtent st.heap block ∧ (∀ c, ¬ FreeBlock st.heap st.mem c block) ∧
    ∀ b ∈ st.live, 2 * st.heap.pagesize < b.size →
      ¬ (b.addr < block ∧ block < b.addr + st.heap.pagesize)) ∨
  (¬ InExtent st.heap block ∧ StrayRejects stray st.heap block)

section Free

variable {heap : Rtheap} {mem : Mem} {live : List Block}
  {xs : List (Extent × List Nat)} {B : Nat → List Nat} {stray : Option Nat}
  {block tag i m off s : Nat} {e d : Extent}

theorem findExtent_none {exts : List Extent} :
    findExtent block exts = none ↔ ¬ ∃ e ∈ exts, e.membase ≤ block ∧ block < e.memlim := by
  constructor
  · rintro hnone hin
    obtain ⟨_, _, _, hfind, -⟩ := findExtent_spec hin
    rw [hnone] at hfind
    cases hfind
  · intro hout
    induction exts with
    | nil => rfl
    | cons e exts ih =>
      have hrest : findExtent block exts = none := by
        refine ih ?_
        rintro ⟨d, hd, h⟩
        exact hout ⟨d, List.mem_cons_of_mem _ hd, h⟩
      rw [findExtent, if_neg fun h => hout ⟨e, List.mem_cons_self .., h⟩, hrest]
      rfl

/-- **A pointer into no extent.** -/
theorem freeAny_outside (hout : ¬ InExtent heap block) :
    rtheapFreeAny stray heap mem block = some (RTHEAP_PARAM, heap, mem) ↔
      StrayRejects stray heap block := by
  rw [rtheapFreeAny, findExtent_none.mpr hout]
  dsimp only [Option.bind_eq_bind]
  constructor
  · intro h
    obtain ⟨extent, hlast, h⟩ := Option.bind_eq_some_iff.mp h
    obtain ⟨tag, hstray, h⟩ := Option.bind_eq_some_iff.mp h
    refine ⟨extent, tag, hlast, hstray, ?_⟩
    split at h
    · next htag =>
        rcases htag with htag | htag
        · exact Or.inl htag
        · exact Or.inr (Or.inl htag)
    split at h
    · exact nomatch h
    next hlist =>
      split at h
      · next hoff => exact Or.inr (Or.inr ⟨hlist, hoff⟩)
      · exact nomatch h
  · rintro ⟨extent, tag, hlast, hstray, hrejects⟩
    rw [hlast, hstray, Option.bind_some, Option.bind_some]
    rcases hrejects with htag | htag | ⟨hlist, hoff⟩
    · exact if_pos (Or.inl htag)
    · exact if_pos (Or.inr htag)
    · by_cases htag : tag = RTHEAP_PFREE ∨ tag = RTHEAP_PCONT
      · exact if_pos htag
      · rw [if_neg htag, if_neg hlist, if_pos hoff]

/-- The page of a pointer. -/
theorem page_of (J : Inv heap mem live xs B) (he : e ∈ heap.extents)
    (hd : d ∈ heap.extents) (hp : Placed heap.pagesize heap.npages d.pagemap tag i m off s)
    (hin : e.membase ≤ block ∧ block < e.memlim)
    (hpage : d.membase + i * heap.pagesize ≤ block ∧
      block < d.membase + i * heap.pagesize + heap.pagesize) :
    d = e ∧ (block - e.membase) / heap.pagesize = i := by
  have hps := J.geometry.pos
  have hm := hp.some_page
  have hpages := hp.pages
  have hle : (i + 1) * heap.pagesize ≤ heap.npages * heap.pagesize :=
    Nat.mul_le_mul_right _ (by omega)
  rw [Nat.succ_mul] at hle
  have hlim := (J.pages d hd).lim
  have hsame : d = e := by
    by_contra hne
    have : Std.Symm ApartFrom := ⟨fun _ _ h => Or.symm h⟩
    rcases J.apart.forall hd he hne with h | h <;> omega
  subst hsame
  refine ⟨rfl, ?_⟩
  rw [Nat.div_eq_iff hps]
  omega

/-- **A pointer into an extent** that no user's block starts at. -/
theorem free_inside (J : Inv heap mem live xs B)
    (hc : Complete heap.pagesize heap.npages live xs B) (hin : InExtent heap block)
    (hblock : ∀ b ∈ live, b.addr ≠ block) :
    rtheapFree heap mem block = some (RTHEAP_PARAM, heap, mem) ↔
      (∀ c, block ∉ B c) ∧ ∀ b ∈ live, 2 * heap.pagesize < b.size →
        ¬ (b.addr < block ∧ block < b.addr + heap.pagesize) := by
  obtain ⟨pre, e, post, hfind, hexts, hge, hlt⟩ := findExtent_spec hin
  have he : e ∈ heap.extents := by
    rw [hexts]
    exact List.mem_append_right _ (List.mem_cons_self ..)
  have hmem := he
  rw [J.exts] at hmem
  obtain ⟨x, hx, rfl⟩ := List.mem_map.mp hmem
  have hps := J.geometry.pos
  have hlim := (J.pages x.1 he).lim
  -- its page, and where it is in it
  obtain ⟨j, off, hoff, hat⟩ : ∃ j off, off < heap.pagesize ∧
      block = x.1.membase + (j * heap.pagesize + off) := by
    refine ⟨(block - x.1.membase) / heap.pagesize, (block - x.1.membase) % heap.pagesize,
      Nat.mod_lt _ hps, ?_⟩
    rw [Nat.mul_comm, Nat.div_add_mod]
    omega
  have hj : j < heap.npages := by
    refine Nat.lt_of_mul_lt_mul_right (a := heap.pagesize) ?_
    omega
  have hdiv : (block - x.1.membase) / heap.pagesize = j := by
    rw [Nat.div_eq_iff hps]
    omega
  obtain ⟨hnum, hbo⟩ := @page_of_block heap x.1 j off J.geometry hoff
  rw [← hat] at hnum hbo
  have hacc := hc x hx j hj
  -- blocks of buckets and runs that have the pointer in their page
  have hbucket : ∀ c, block ∈ B c → x.1.pagemap j = c + RTHEAP_MINLOG2 ∧
      off % 2 ^ (c + RTHEAP_MINLOG2) = 0 := by
    intro c hb
    obtain ⟨d, hd, i, m, off', hp, hat'⟩ := J.bucket_placed c block hb
    have hfirst := hp.first
    obtain ⟨rfl, hi⟩ := page_of J he hd hp ⟨hge, hlt⟩ (by omega)
    rw [hdiv] at hi
    subst hi
    have hoff' : off = off' := by omega
    subst hoff'
    exact ⟨hp.head, hp.unit⟩
  have hrun : ∀ b ∈ live, 2 * heap.pagesize < b.size → b.addr < block →
      block < b.addr + heap.pagesize → x.1.pagemap j = RTHEAP_PLIST := by
    intro b hb hsize hlo hhi
    obtain ⟨tag, htag, d, hd, i, m, off', hp, hat'⟩ := J.live_placed b hb
    rcases htag with ⟨rfl, -⟩ | ⟨-, hle⟩
    · obtain ⟨rfl, -⟩ := hp.run rfl
      obtain ⟨rfl, hi⟩ := page_of J he hd hp ⟨hge, hlt⟩ (by omega)
      rw [hdiv] at hi
      subst hi
      exact hp.head
    · omega
  rw [rtheapFree, hfind]
  dsimp only [Option.bind_eq_bind, Option.bind_some]
  rw [hnum, hbo]
  have hfour : ∀ c, c + RTHEAP_MINLOG2 ≠ RTHEAP_PFREE ∧ c + RTHEAP_MINLOG2 ≠ RTHEAP_PCONT ∧
      c + RTHEAP_MINLOG2 ≠ RTHEAP_PLIST := by
    intro c
    refine ⟨?_, ?_, ?_⟩
    · show c + 4 ≠ 0
      omega
    · show c + 4 ≠ 1
      omega
    · show c + 4 ≠ 2
      omega
  by_cases hno : x.1.pagemap j = RTHEAP_PFREE ∨ x.1.pagemap j = RTHEAP_PCONT
  · rw [if_pos hno]
    refine ⟨fun _ => ⟨fun c hb => ?_, fun b hb hsize hpage => ?_⟩, fun _ => rfl⟩
    · rw [(hbucket c hb).1] at hno
      exact hno.elim (hfour c).1 (hfour c).2.1
    · rw [hrun b hb hsize hpage.1 hpage.2] at hno
      exact absurd hno (by decide)
  rw [if_neg hno]
  by_cases hlist : x.1.pagemap j = RTHEAP_PLIST
  · -- the offset is not looked at
    rw [if_pos hlist]
    constructor
    · intro h
      obtain ⟨⟨bsize, e', mem'⟩, -, h⟩ := Option.bind_eq_some_iff.mp h
      cases h
    · rintro ⟨-, hnone⟩
      obtain ⟨b, hb, hsize, haddr⟩ := hacc.run hlist
      have hne := hblock b hb
      exact absurd ⟨by omega, by omega⟩ (hnone b hb hsize)
  rw [if_neg hlist]
  obtain ⟨c, hc4⟩ : ∃ c, x.1.pagemap j = c + RTHEAP_MINLOG2 := by
    refine ⟨x.1.pagemap j - 4, ?_⟩
    have h0 : x.1.pagemap j ≠ 0 := fun h => hno (Or.inl h)
    have h1 : x.1.pagemap j ≠ 1 := fun h => hno (Or.inr h)
    have h2 : x.1.pagemap j ≠ 2 := hlist
    have h3 := hacc.kind
    show x.1.pagemap j = x.1.pagemap j - 4 + 4
    omega
  by_cases hunit : off % 2 ^ x.1.pagemap j ≠ 0
  · rw [if_pos hunit]
    refine ⟨fun _ => ⟨fun c' hb => ?_, fun b hb hsize hpage => ?_⟩, fun _ => rfl⟩
    · obtain ⟨htag, hoff'⟩ := hbucket c' hb
      rw [htag] at hunit
      exact hunit hoff'
    · exact hlist (hrun b hb hsize hpage.1 hpage.2)
  · -- nothing tells that it has been freed
    rw [if_neg hunit]
    constructor
    · intro h
      cases h
    · rintro ⟨hnone, -⟩
      have hunit' := not_not.mp hunit
      rw [hc4] at hunit'
      have hknown := hacc.blocks c hc4 off hoff hunit'
      rw [Nat.add_assoc, ← hat] at hknown
      rcases hknown with hin | ⟨b, hb, -, -, haddr⟩
      · exact absurd hin (hnone c)
      · exact absurd haddr (hblock b hb)

end Free

/-- **Invalid frees are rejected** if and only if the pointer is into an extent and is
    no block that has been freed and not in the first page of a run, or the byte
    that is read for a pointer into no extent happens to be one that is rejected:
    in every state that a run reaches, and for every pointer that no user's block
    starts at. -/
theorem invalid_free_iff (heapaddr large : Option Area) (core : Nat → Option Area)
    (heapsize pagesize : Nat) (suprt : Bool) (mem₀ : Mem) {heap : Rtheap} {mem : Mem}
    (hinit : rtheapInit heapaddr large core heapsize pagesize suprt mem₀ = .ok (heap, mem))
    (hcore : ∀ i j area area', i < j → core i = some area → core j = some area' →
      area.addr + (heapArea heapaddr large suprt heapsize).2 ≤ area'.addr ∨
        area'.addr + (heapArea heapaddr large suprt heapsize).2 ≤ area.addr)
    (hroom : HasRoom heapaddr large heapsize pagesize suprt)
    {st : St} (h : Reach step Exact ⟨heap, mem, []⟩ st) (stray : Option Nat) {block : Nat}
    (hblock : ∀ b ∈ st.live, b.addr ≠ block) :
    rtheapFreeAny stray st.heap st.mem block = some (RTHEAP_PARAM, st.heap, st.mem) ↔
      Rejected stray st block := by
  obtain ⟨xs, B, J, hc⟩ := kept_run h (kept_init hinit hcore hroom)
  by_cases hin : InExtent st.heap block
  · have hbare : ∀ b ∈ st.live.map bare, b.addr ≠ block := by
      intro b hb
      obtain ⟨d, hd, rfl⟩ := List.mem_map.mp hb
      exact hblock d hd
    have hinside := free_inside J hc hin hbare
    obtain ⟨pre, e, post, hfind, -⟩ := findExtent_spec hin
    -- the search stops at an extent, so `stray` is not read
    rw [rtheapFreeAny, hfind]
    dsimp only
    rw [hinside, Rejected]
    constructor
    · rintro ⟨hbuckets, hruns⟩
      refine Or.inl ⟨hin, fun c hb => hbuckets c ((freeBlock_iff J c block).mp hb),
        fun b hb => hruns (bare b) (List.mem_map_of_mem hb)⟩
    · rintro (⟨-, hbuckets, hruns⟩ | ⟨hout, -⟩)
      · refine ⟨fun c hb => hbuckets c ((freeBlock_iff J c block).mpr hb), fun b hb => ?_⟩
        obtain ⟨d, hd, rfl⟩ := List.mem_map.mp hb
        exact hruns d hd
      · exact absurd hin hout
  · rw [freeAny_outside hin, Rejected]
    constructor
    · exact fun hstray => Or.inr ⟨hin, hstray⟩
    · rintro (⟨hin', -⟩ | ⟨-, hstray⟩)
      · exact absurd hin' hin
      · exact hstray

/-- A small block is taken.  Its middle and a free page are rejected, and so is NULL
    where the byte is 0. -/
theorem invalid_free_middle : ∃ heap mem st, fourPages 0 = .ok (heap, mem) ∧
    Reach step Exact ⟨heap, mem, []⟩ st ∧ st.live = [⟨1088, 10, 16⟩] ∧
    Rejected (some 0) st 1096 ∧ Rejected (some 0) st 1104 ∧ Rejected (some 0) st 0 := by
  obtain ⟨heap, mem, st, hinit, hplay, hlive, hmiddle, hpage, hnull⟩ : ∃ heap mem st,
      fourPages 0 = .ok (heap, mem) ∧
      play step Exact ⟨heap, mem, []⟩ [.alloc 10] = some st ∧
      st.live = [⟨1088, 10, 16⟩] ∧
      rtheapFreeAny (some 0) st.heap st.mem 1096 = some (RTHEAP_PARAM, st.heap, st.mem) ∧
      rtheapFreeAny (some 0) st.heap st.mem 1104 = some (RTHEAP_PARAM, st.heap, st.mem) ∧
      rtheapFreeAny (some 0) st.heap st.mem 0 = some (RTHEAP_PARAM, st.heap, st.mem) :=
    ⟨_, _, _, rfl, rfl, rfl, rfl, rfl, rfl⟩
  have hreach := reach_of_play hplay
  have hother : ∀ block, block ≠ 1088 → ∀ b ∈ st.live, b.addr ≠ block := by
    intro block hne b hb
    rw [hlive] at hb
    obtain rfl := List.mem_singleton.mp hb
    exact Ne.symm hne
  have hiff := fun block hne =>
    @invalid_free_iff (some ⟨1024, fun _ => 0⟩) none (fun _ => none) 128 16 false (fun _ => 0)
      heap mem hinit nofun ⟨by decide, fun h => absurd h (by decide)⟩ st hreach (some 0)
      block (hother block hne)
  exact ⟨heap, mem, st, hinit, hreach, hlive, (hiff 1096 (by decide)).mp hmiddle,
    (hiff 1104 (by decide)).mp hpage, (hiff 0 (by decide)).mp hnull⟩

/-- **INVALID FREES THAT SUCCEED**: of a block that has been freed, and of a pointer into
    the first page of a run.  And NULL is not rejected where the byte is 4. -/
theorem invalid_frees_accepted : ∃ heap mem st, fourPages 0 = .ok (heap, mem) ∧
    Reach step Exact ⟨heap, mem, []⟩ st ∧ st.live = [⟨1104, 40, 48⟩] ∧
    (rtheapFreeAny none st.heap st.mem 1088).map Prod.fst = some 0 ∧
    (rtheapFreeAny none st.heap st.mem 1112).map Prod.fst = some 0 ∧
    rtheapFreeAny (some 4) st.heap st.mem 0 = none ∧
    ¬ ∀ stray block, (∀ b ∈ st.live, b.addr ≠ block) →
      rtheapFreeAny stray st.heap st.mem block = some (RTHEAP_PARAM, st.heap, st.mem) := by
  obtain ⟨heap, mem, st, hinit, hplay, hlive, htwice, hinner, hnull⟩ : ∃ heap mem st,
      fourPages 0 = .ok (heap, mem) ∧
      play step Exact ⟨heap, mem, []⟩ [.alloc 10, .alloc 40, .free ⟨1088, 10, 16⟩] = some st ∧
      st.live = [⟨1104, 40, 48⟩] ∧
      (rtheapFreeAny none st.heap st.mem 1088).map Prod.fst = some 0 ∧
      (rtheapFreeAny none st.heap st.mem 1112).map Prod.fst = some 0 ∧
      rtheapFreeAny (some 4) st.heap st.mem 0 = none :=
    ⟨_, _, _, rfl, rfl, rfl, rfl, rfl, rfl⟩
  refine ⟨heap, mem, st, hinit, reach_of_play hplay, hlive, htwice, hinner, hnull,
    fun hall => ?_⟩
  have hrejected := hall none 1088 fun b hb => by
    rw [hlive] at hb
    obtain rfl := List.mem_singleton.mp hb
    decide
  rw [hrejected] at htwice
  have hzero : some RTHEAP_PARAM = some 0 := htwice
  exact absurd hzero (by decide)

end RtaiHeapInvalid
