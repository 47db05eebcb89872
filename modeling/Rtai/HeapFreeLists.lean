import Rtai.HeapFirstFit

/-! # The free lists

    In every heap the free list of an extent is the list of its free pages, in
    order.  So a range is the lowest one of the first extent that has one, and
    when all blocks of more than two pages are released, the lists are what they
    were. -/

namespace RtaiHeapFreeLists

open RtaiRuns RtaiHeap RtaiChains RtaiHeapLoops RtaiHeapPlaces RtaiHeapSizes
open RtaiHeapInv RtaiHeapAlloc RtaiHeapSound
open RtaiHeapComplete RtaiHeapFirstFit

/-- The pages that the page map has as free, in order. -/
def freePages (heap : Rtheap) (e : Extent) : List Nat :=
  ((List.range heap.npages).filter fun j => e.pagemap j = RTHEAP_PFREE).map
    fun j => e.membase + j * heap.pagesize

/-- Page `i` is the first of enough contiguous free pages. -/
def FreeRun (heap : Rtheap) (e : Extent) (bsize i : Nat) : Prop :=
  ∃ m, 0 < m ∧ bsize ≤ m * heap.pagesize ∧ i + m ≤ heap.npages ∧
    ∀ j, i ≤ j → j < i + m → e.pagemap j = RTHEAP_PFREE

/-- The free lists are what the page maps have. -/
def Listed (st : St) : Prop :=
  ∀ e ∈ st.heap.extents, Chain 0 st.mem 0 e.freelist (freePages st.heap e) ∧
    (freePages st.heap e).Pairwise (· < ·)

/-- There is a range if and only if an extent has enough contiguous free pages,
    and it is the lowest one of the first such extent.  It is as long as the
    size has pages, and its pages are no longer free. -/
def FirstFit (heap : Rtheap) (mem : Mem) (bsize log2size : Nat) : Prop :=
  (getFreeRange heap mem bsize log2size heap.extents 0 = some none ∧
    ∀ e ∈ heap.extents, ∀ i, ¬ FreeRun heap e bsize i) ∨
  ∃ exts mem' pre e post i, getFreeRange heap mem bsize log2size heap.extents 0 =
      some (some (e.membase + i * heap.pagesize, exts, mem')) ∧
    heap.extents = pre ++ e :: post ∧ FreeRun heap e bsize i ∧
    (∀ d ∈ pre, ∀ j, ¬ FreeRun heap d bsize j) ∧ (∀ j, j < i → ¬ FreeRun heap e bsize j) ∧
    ∀ m c, 0 < bsize → log2size ≠ 1 → Covers heap.pagesize bsize m c →
      ∃ e', exts = pre ++ e' :: post ∧ Taken e.pagemap
        (if log2size ≠ 0 then log2size else RTHEAP_PLIST) i m e'.pagemap

/-- No page is split for a bucket: it has a block, or the size is of more than two
    pages. -/
def NoSplit (heap : Rtheap) : Act → Prop
  | .alloc n => n = 0 ∨ heap.pagesize * 2 < roundSize heap n ∨
      heap.buckets (log2Size (roundSize heap n) - RTHEAP_MINLOG2) ≠ 0
  | _ => True

/-- A free that gives back what was taken. -/
def Calm (st : St) (a : Act) : Prop := NoSplit st.heap a ∧ Exact st a

/-- Users have the same blocks of more than two pages. -/
def SameLarge (st st' : St) : Prop :=
  ∀ b, 2 * st.heap.pagesize < b.size → (b ∈ st'.live ↔ b ∈ st.live)

/-- The free pages are as they were. -/
def Restored (st st' : St) : Prop :=
  st'.heap.extents.map (freePages st'.heap) = st.heap.extents.map (freePages st.heap)

section Lists

variable {heap heap' : Rtheap} {mem : Mem} {live live' : List Block}
  {xs xs' : List (Extent × List Nat)} {B B' : Nat → List Nat}
  {x : Extent × List Nat} {bsize i j p : Nat}

theorem mem_freePages {e : Extent} {q : Nat} : q ∈ freePages heap e ↔
    ∃ j, j < heap.npages ∧ e.pagemap j = RTHEAP_PFREE ∧ q = e.membase + j * heap.pagesize := by
  rw [freePages, List.mem_map]
  constructor
  · rintro ⟨j, hj, rfl⟩
    obtain ⟨hlt, htag⟩ := List.mem_filter.mp hj
    exact ⟨j, List.mem_range.mp hlt, of_decide_eq_true htag, rfl⟩
  · rintro ⟨j, hj, htag, rfl⟩
    exact ⟨j, List.mem_filter.mpr ⟨List.mem_range.mpr hj, decide_eq_true htag⟩, rfl⟩

theorem freePages_sorted (hps : 0 < heap.pagesize) (e : Extent) :
    (freePages heap e).Pairwise (· < ·) := by
  rw [freePages, List.pairwise_map]
  refine (List.pairwise_lt_range.filter _).imp fun {i j} hij => ?_
  have hlt : i * heap.pagesize < j * heap.pagesize := Nat.mul_lt_mul_of_pos_right hij hps
  omega

/-- **A page is in the list** if and only if the map has it as free. -/
theorem mem_list_iff (J : Inv heap mem live xs B)
    (hc : Complete heap.pagesize heap.npages live xs B) (hx : x ∈ xs) :
    x.1.membase + j * heap.pagesize ∈ x.2 ↔
      j < heap.npages ∧ x.1.pagemap j = RTHEAP_PFREE := by
  constructor
  · intro hin
    obtain ⟨i, hi, hat⟩ := (J.free x hx).placed _ hin
    obtain rfl := Nat.eq_of_mul_eq_mul_right J.geometry.pos (Nat.add_left_cancel hat)
    exact ⟨hi.pages, hi.head⟩
  · rintro ⟨hj, htag⟩
    exact (hc x hx j hj).free htag

/-- **The free list is the list of the free pages.** -/
theorem list_eq (J : Inv heap mem live xs B)
    (hc : Complete heap.pagesize heap.npages live xs B) (hx : x ∈ xs) :
    x.2 = freePages heap x.1 := by
  refine List.Pairwise.eq_of_mem_iff (J.free x hx).sorted
    (freePages_sorted J.geometry.pos x.1) fun q => ?_
  rw [mem_freePages]
  constructor
  · intro hq
    obtain ⟨i, hi, rfl⟩ := (J.free x hx).placed q hq
    exact ⟨i, hi.pages, hi.head, rfl⟩
  · rintro ⟨j, hj, htag, rfl⟩
    exact (hc x hx j hj).free htag

theorem runAt_iff (J : Inv heap mem live xs B)
    (hc : Complete heap.pagesize heap.npages live xs B) (hx : x ∈ xs) :
    RunAt heap.pagesize bsize x.2 (x.1.membase + i * heap.pagesize) ↔
      FreeRun heap x.1 bsize i := by
  have hin : ∀ j, x.1.membase + i * heap.pagesize + j * heap.pagesize ∈ x.2 ↔
      i + j < heap.npages ∧ x.1.pagemap (i + j) = RTHEAP_PFREE := by
    intro j
    rw [Nat.add_assoc, ← Nat.add_mul]
    exact mem_list_iff J hc hx
  constructor
  · rintro ⟨m, hm, henough, hpages⟩
    refine ⟨m, hm, henough, ?_, fun j hj hj' => ?_⟩
    · have hlast := ((hin (m - 1)).mp (hpages (m - 1) (by omega))).1
      omega
    · have hfree := ((hin (j - i)).mp (hpages (j - i) (by omega))).2
      rw [Nat.add_sub_cancel' hj] at hfree
      exact hfree
  · rintro ⟨m, hm, henough, hpages, hfree⟩
    exact ⟨m, hm, henough, fun j hj =>
      (hin j).mpr ⟨by omega, hfree (i + j) (by omega) (by omega)⟩⟩

/-- No page of a list starts a run if no page of the map does. -/
theorem no_freeRun (J : Inv heap mem live xs B)
    (hc : Complete heap.pagesize heap.npages live xs B) (hx : x ∈ xs)
    (hnone : ∀ q ∈ x.2, ¬ RunAt heap.pagesize bsize x.2 q) (i : Nat) :
    ¬ FreeRun heap x.1 bsize i := by
  intro hrun
  have hstart := hrun
  obtain ⟨m, hm, -, hpages, hfree⟩ := hstart
  refine hnone (x.1.membase + i * heap.pagesize) ?_ ((runAt_iff J hc hx).mpr hrun)
  exact (mem_list_iff J hc hx).mpr ⟨by omega, hfree i (Nat.le_refl i) (by omega)⟩

/-- A page is in one list. -/
theorem same_split (J : Inv heap mem live xs B) {pre pre' post post' : List (Extent × List Nat)}
    {e e' : Extent} {F F' : List Nat} (h : xs = pre ++ (e, F) :: post)
    (h' : xs = pre' ++ (e', F') :: post') (hp : p ∈ F) (hp' : p ∈ F') :
    pre = pre' ∧ (e, F) = (e', F') ∧ post = post' := by
  have hnodup := J.free_nodup
  rw [h] at hnodup
  refine (List.append_cons_inj_of_notMem (fun hin => ?_) fun hin => ?_).mp (h.symm.trans h')
  · exact other_list hnodup (Or.inl hin) hp' hp
  · exact other_list hnodup (Or.inr hin) hp' hp

/-- **The first fit**: the lowest range of the first extent that has one. -/
theorem firstFit (J : Inv heap mem live xs B)
    (hc : Complete heap.pagesize heap.npages live xs B) (bsize log2size : Nat) :
    FirstFit heap mem bsize log2size := by
  obtain ⟨range, hrange, -⟩ :=
    @getFreeRange_spec heap mem bsize log2size 0 xs J.searchable
  have hsearch := getFreeRange_first J.geometry.pos (fun x hx => by
    obtain ⟨hchain, hlen⟩ := J.searchable x hx
    refine ⟨hchain, hlen, (J.free x hx).sorted, fun q hq => ?_⟩
    obtain ⟨i, -, hat⟩ := (J.free x hx).placed q hq
    exact ⟨i, hat⟩) hrange
  obtain ⟨hnone, hsome⟩ := hsearch
  rw [← J.exts] at hrange
  cases range with
  | none =>
    refine Or.inl ⟨hrange, fun e he => ?_⟩
    rw [J.exts] at he
    obtain ⟨x, hx, rfl⟩ := List.mem_map.mp he
    exact no_freeRun J hc hx (hnone rfl x hx)
  | some range =>
    obtain ⟨p, exts, mem'⟩ := range
    obtain ⟨pre, e, F, post, hxs, hpre, hin, hrun, hfirst⟩ := hsome p exts mem' rfl
    have hmem : ∀ x, x ∈ pre ∨ x = (e, F) → x ∈ xs := by
      rintro x (hx | rfl)
      · rw [hxs]
        exact List.mem_append_left _ hx
      · rw [hxs]
        exact List.mem_append_right _ (List.mem_cons_self ..)
    have hx := hmem (e, F) (Or.inr rfl)
    obtain ⟨i, -, hat⟩ := (J.free (e, F) hx).placed p hin
    have hat' : p = e.membase + i * heap.pagesize := hat
    subst hat'
    refine Or.inr ⟨exts, mem', pre.map Prod.fst, e, post.map Prod.fst, i, hrange, ?_,
      (runAt_iff J hc hx).mp hrun, fun d hd => ?_, fun j hj hfree => ?_,
      fun m c hbsize hlog hcovers => ?_⟩
    · rw [J.exts, hxs, List.map_append, List.map_cons]
    · obtain ⟨x, hx', rfl⟩ := List.mem_map.mp hd
      exact no_freeRun J hc (hmem x (Or.inl hx')) (hpre x hx')
    · have hstart := hfree
      obtain ⟨k, hk, -, hpages, htag⟩ := hstart
      have hlt : j * heap.pagesize < i * heap.pagesize :=
        Nat.mul_lt_mul_of_pos_right hj J.geometry.pos
      exact hfirst _ ((mem_list_iff J hc hx).mpr
        ⟨by omega, htag j (Nat.le_refl j) (by omega)⟩) (Nat.add_lt_add_left hlt _)
        ((runAt_iff J hc hx).mpr hfree)
    · obtain ⟨xs', J', -, pre', e', F', post', freelist, map, G1, G2, i', hxs', rfl, hF,
        hp, htaken⟩ := take_range J hbsize hlog hcovers hrange
      have hin' : e.membase + i * heap.pagesize ∈ F' := by
        rw [hF]
        refine List.mem_append_right _ (List.mem_append_left _ ?_)
        exact mem_places.mpr ⟨0, htaken.some_page, by omega⟩
      obtain ⟨rfl, heq, rfl⟩ := same_split J hxs hxs' hin hin'
      cases heq
      obtain rfl := Nat.eq_of_mul_eq_mul_right J.geometry.pos (Nat.add_left_cancel hp)
      refine ⟨{ e with freelist := freelist, pagemap := map }, ?_, htaken⟩
      have hexts := J'.exts
      rw [List.map_append, List.map_cons] at hexts
      exact hexts

end Lists

/-! ## Pages that come back -/

/-- A page of a block of more than two pages. -/
def LargePage (ps : Nat) (live : List Block) (p : Nat) : Prop :=
  ∃ b ∈ live, 2 * ps < b.size ∧ ∃ j, j * ps < b.size ∧ p = b.addr + j * ps

/-- A free page, or a page of a block of more than two. -/
def Whole (ps : Nat) (live : List Block) (xs : List (Extent × List Nat)) (p : Nat) : Prop :=
  (∃ x ∈ xs, p ∈ x.2) ∨ LargePage ps live p

section Whole

variable {heap heap' : Rtheap} {mem mem' : Mem} {live live' : List Block}
  {xs xs' : List (Extent × List Nat)} {B B' : Nat → List Nat} {a : Act}
  {x x' : Extent × List Nat} {b : Block} {st st' : St} {o : Int} {ps p n : Nat}

/-- The pages of a block that is more than two. -/
theorem largePage_places {m : Nat} (hps : 0 < ps) (hm : 2 * ps < m * ps) {q : Nat} :
    LargePage ps [⟨p, n, m * ps⟩] q ↔ q ∈ places ps p m := by
  rw [mem_places]
  constructor
  · rintro ⟨b, hb, -, j, hj, rfl⟩
    obtain rfl := List.mem_singleton.mp hb
    exact ⟨j, Nat.lt_of_mul_lt_mul_right hj, rfl⟩
  · rintro ⟨j, hj, rfl⟩
    exact ⟨_, List.mem_singleton.mpr rfl, hm, j, Nat.mul_lt_mul_of_pos_right hj hps, rfl⟩

theorem largePage_cons {q : Nat} : LargePage ps (b :: live) q ↔
    LargePage ps [b] q ∨ LargePage ps live q := by
  constructor
  · rintro ⟨d, hd, hrest⟩
    rcases List.mem_cons.mp hd with rfl | hd
    · exact Or.inl ⟨d, List.mem_singleton.mpr rfl, hrest⟩
    · exact Or.inr ⟨d, hd, hrest⟩
  · rintro (⟨d, hd, hrest⟩ | ⟨d, hd, hrest⟩)
    · obtain rfl := List.mem_singleton.mp hd
      exact ⟨d, List.mem_cons_self .., hrest⟩
    · exact ⟨d, List.mem_cons_of_mem _ hd, hrest⟩

theorem largePage_erase (hb : b ∈ live) {q : Nat} :
    LargePage ps live q ↔ LargePage ps [b] q ∨ LargePage ps (live.erase b) q := by
  rw [← largePage_cons]
  constructor
  · rintro ⟨d, hd, hrest⟩
    exact ⟨d, (List.perm_cons_erase hb).mem_iff.mp hd, hrest⟩
  · rintro ⟨d, hd, hrest⟩
    exact ⟨d, (List.perm_cons_erase hb).mem_iff.mpr hd, hrest⟩

/-- A block of a bucket has none. -/
theorem not_largePage (hsize : b.size ≤ 2 * ps) {q : Nat} : ¬ LargePage ps [b] q := by
  rintro ⟨d, hd, hlarge, -⟩
  obtain rfl := List.mem_singleton.mp hd
  omega

/-- What keeps the pages together: where the extents are, and what they have as
    whole pages. -/
structure SameWhole (ps : Nat) (live live' : List Block)
    (xs xs' : List (Extent × List Nat)) : Prop where
  bases : xs'.map (fun x => x.1.membase) = xs.map fun x => x.1.membase
  whole : ∀ q, Whole ps live' xs' q ↔ Whole ps live xs q

theorem SameWhole.refl (ps : Nat) (live : List Block) (xs : List (Extent × List Nat)) :
    SameWhole ps live live xs xs :=
  ⟨rfl, fun _ => Iff.rfl⟩

/-- **A step keeps the pages together.** -/
theorem sameWhole_of_moved (J : Inv heap mem live xs B) (hns : NoSplit heap a)
    (hmoved : Moved heap live xs B a live' xs' B') :
    SameWhole heap.pagesize live live' xs xs' := by
  have hps := J.geometry.pos
  cases hmoved with
  | nothing n => exact SameWhole.refl ..
  | writes b mem => exact SameWhole.refl ..
  | gets n p hn hgiven =>
    have hs : ∀ c, blockSize heap n = 2 ^ (c + RTHEAP_MINLOG2) →
        2 ^ (c + RTHEAP_MINLOG2) ≤ 2 * heap.pagesize → heap.buckets c ≠ 0 := by
      intro c hsize hle
      rw [blockSize] at hsize
      rcases hns.resolve_left hn with hlarge | hbucket
      · rw [if_neg (by omega)] at hsize
        omega
      · by_cases hsmall : roundSize heap n ≤ heap.pagesize * 2
        · rw [if_pos hsmall] at hsize
          have hlog := Nat.pow_right_injective (Nat.le_refl 2) hsize
          have hlog' : log2Size (roundSize heap n) = c + RTHEAP_MINLOG2 := hlog
          rw [hlog', Nat.add_sub_cancel] at hbucket
          exact hbucket
        · rw [if_neg hsmall] at hsize
          omega
    generalize blockSize heap n = s at hgiven hs
    cases hgiven with
    | bucket c l hB hle =>
      refine ⟨rfl, fun q => or_congr Iff.rfl ?_⟩
      rw [largePage_cons]
      exact or_iff_right (not_largePage hle)
    | split c m k l xs' hB hle hcovers hl hcut =>
      have hchain := J.bucket c
      rw [hB] at hchain
      exact absurd hchain (hs c rfl hle)
    | run m xs' hm hcut =>
      obtain ⟨pre, e, F, post, freelist, map, G1, G2, i, rfl, rfl, hF, hp, htaken⟩ := hcut
      refine ⟨?_, fun q => ?_⟩
      · rw [List.map_append, List.map_append, List.map_cons, List.map_cons]
      · have hG : ∀ q, q ∈ F ↔ q ∈ G1 ++ G2 ∨ q ∈ places heap.pagesize p m := by
          intro q
          rw [hF, List.mem_append, List.mem_append, List.mem_append]
          tauto
        rw [Whole, Whole, exists_replaced hG, largePage_cons,
          largePage_places hps hm, or_assoc]
  | gives b hb hret =>
    cases hret with
    | block c hsize hle =>
      refine ⟨rfl, fun q => or_congr Iff.rfl ?_⟩
      rw [largePage_erase hb]
      exact (or_iff_right (not_largePage hle)).symm
    | run pre post e F i m e' G hlarge hsize hat hxs hin hagain =>
      subst hxs
      refine ⟨?_, fun q => ?_⟩
      · rw [List.map_append, List.map_append, List.map_cons, List.map_cons]
        rw [hagain.base]
      · have hblock : bare b = ⟨(bare b).addr, (bare b).n, m * heap.pagesize⟩ := by
          rw [← hsize]
        have hplaces : LargePage heap.pagesize [bare b] q ↔
            q ∈ places heap.pagesize (bare b).addr m := by
          rw [hblock]
          exact largePage_places hps (hsize ▸ hlarge)
        rw [Whole, Whole, exists_replaced hagain.pages, largePage_erase hb, hplaces, or_assoc]

theorem SameWhole.trans {live'' : List Block} {xs'' : List (Extent × List Nat)}
    (h : SameWhole ps live live' xs xs') (h' : SameWhole ps live' live'' xs' xs'') :
    SameWhole ps live live'' xs xs'' :=
  ⟨h'.bases.trans h.bases, fun q => (h'.whole q).trans (h.whole q)⟩

/-- A page is free if and only if it is in some list. -/
theorem free_iff (J : Inv heap mem live xs B)
    (hc : Complete heap.pagesize heap.npages live xs B) (hx : x ∈ xs) {j : Nat}
    (hj : j < heap.npages) : x.1.pagemap j = RTHEAP_PFREE ↔
      ∃ y ∈ xs, x.1.membase + j * heap.pagesize ∈ y.2 := by
  constructor
  · intro htag
    exact ⟨x, hx, (hc x hx j hj).free htag⟩
  · rintro ⟨y, hy, hin⟩
    obtain ⟨⟨e, F⟩, hxe⟩ : ∃ z, z = y := ⟨y, rfl⟩
    obtain ⟨pre, post, rfl⟩ := List.append_of_mem hy
    obtain ⟨i, hi, hat⟩ := (J.free y hy).placed _ hin
    have hsame : x = y := by
      by_contra hne
      subst hxe
      have hside : x ∈ pre ∨ x ∈ post := by
        rcases List.mem_append.mp hx with hx | hx
        · exact Or.inl hx
        · exact Or.inr ((List.mem_cons.mp hx).resolve_left hne)
      exact other_page J hside hi.pages hj hat
    subst hsame
    exact ((mem_list_iff J hc hx).mp hin).2

/-- Extents at the same places with the same free pages have the same lists. -/
theorem freePages_congr {e e' : Extent} (hps : heap'.pagesize = heap.pagesize)
    (hnp : heap'.npages = heap.npages) (hbase : e'.membase = e.membase)
    (htag : ∀ j, j < heap.npages →
      (e'.pagemap j = RTHEAP_PFREE ↔ e.pagemap j = RTHEAP_PFREE)) :
    freePages heap' e' = freePages heap e := by
  rw [freePages, freePages, hps, hnp, hbase]
  refine congrArg _ (List.filter_congr fun j hj => ?_)
  exact decide_eq_decide.mpr (htag j (List.mem_range.mp hj))

theorem map_freePages {l l' : List Extent}
    (hbases : l'.map Extent.membase = l.map Extent.membase)
    (h : ∀ e ∈ l, ∀ e' ∈ l', e'.membase = e.membase → freePages heap' e' = freePages heap e) :
    l'.map (freePages heap') = l.map (freePages heap) := by
  induction l generalizing l' with
  | nil =>
    rw [List.map_eq_nil_iff.mp hbases]
    rfl
  | cons e l ih =>
    obtain ⟨e', l'', rfl, hbase, hrest⟩ := List.map_eq_cons_iff.mp hbases
    rw [List.map_cons, List.map_cons,
      h e (List.mem_cons_self ..) e' (List.mem_cons_self ..) hbase,
      ih hrest fun d hd d' hd' =>
        h d (List.mem_cons_of_mem _ hd) d' (List.mem_cons_of_mem _ hd')]

/-- A user's page is not free. -/
theorem not_free_of_large (J : Inv heap mem live xs B)
    (hl : LargePage heap.pagesize live p) : ¬ ∃ x ∈ xs, p ∈ x.2 := by
  rintro ⟨x, hx, hin⟩
  obtain ⟨b, hb, -, j, hj, rfl⟩ := hl
  have hps := J.geometry.pos
  rcases J.free_apart hb hx hin with h | h <;> omega

/-- In the blocks of users, what was asked for does not matter. -/
theorem largePage_bare {live : List Block} :
    LargePage ps (live.map bare) p ↔ LargePage ps live p := by
  constructor
  · rintro ⟨b, hb, hrest⟩
    obtain ⟨d, hd, rfl⟩ := List.mem_map.mp hb
    exact ⟨d, hd, hrest⟩
  · rintro ⟨b, hb, hrest⟩
    exact ⟨bare b, List.mem_map_of_mem hb, hrest⟩

/-- What is the case from some state on. -/
def Since (ps np : Nat) (live₀ : List Block) (xs₀ : List (Extent × List Nat)) (st : St) :
    Prop :=
  st.heap.pagesize = ps ∧ st.heap.npages = np ∧ ∃ xs B,
    Inv st.heap st.mem (st.live.map bare) xs B ∧
    Complete ps np (st.live.map bare) xs B ∧
    SameWhole ps live₀ (st.live.map bare) xs₀ xs

theorem Since.step {np : Nat} {live₀ : List Block} {xs₀ : List (Extent × List Nat)}
    (h : Since ps np live₀ xs₀ st) (hG : Calm st a) (hstep : step st a = some (st', o)) :
    Since ps np live₀ xs₀ st' := by
  obtain ⟨rfl, rfl, xs, B, J, hc, hwhole⟩ := h
  obtain ⟨xs', B', J', hmoved⟩ := step_moved J hG.2 hstep
  obtain ⟨hps, hnp⟩ := step_sizes hstep
  exact ⟨hps, hnp, xs', B', J', hc.moved J hmoved,
    hwhole.trans (sameWhole_of_moved J hG.1 hmoved)⟩

/-- **The lists are what they were.** -/
theorem restored_of_since (J : Inv st.heap st.mem (st.live.map bare) xs B)
    (hc : Complete st.heap.pagesize st.heap.npages (st.live.map bare) xs B)
    (h : Since st.heap.pagesize st.heap.npages (st.live.map bare) xs st')
    (hlarge : SameLarge st st') : Restored st st' := by
  obtain ⟨hps, hnp, xs', B', J', hc', hwhole⟩ := h
  have hlargePage : ∀ q, LargePage st.heap.pagesize (st'.live.map bare) q ↔
      LargePage st.heap.pagesize (st.live.map bare) q := by
    intro q
    rw [largePage_bare, largePage_bare]
    refine exists_congr fun b => ?_
    constructor
    · rintro ⟨hb, hsize, hrest⟩
      exact ⟨(hlarge b hsize).mp hb, hsize, hrest⟩
    · rintro ⟨hb, hsize, hrest⟩
      exact ⟨(hlarge b hsize).mpr hb, hsize, hrest⟩
  -- a page that is whole and of no block is free
  have hfree : ∀ q, (∃ x ∈ xs', q ∈ x.2) ↔ ∃ x ∈ xs, q ∈ x.2 := by
    intro q
    constructor
    · intro hq
      refine ((hwhole.whole q).mp (Or.inl hq)).resolve_right fun hl => ?_
      refine not_free_of_large J' ?_ hq
      rw [hps]
      exact (hlargePage q).mpr hl
    · intro hq
      refine ((hwhole.whole q).mpr (Or.inl hq)).resolve_right fun hl => ?_
      exact not_free_of_large J ((hlargePage q).mp hl) hq
  have hbases : st'.heap.extents.map Extent.membase = st.heap.extents.map Extent.membase := by
    rw [J.exts, J'.exts, List.map_map, List.map_map]
    exact hwhole.bases
  rw [Restored]
  refine map_freePages hbases fun e he e' he' hbase => ?_
  rw [J.exts] at he
  rw [J'.exts] at he'
  obtain ⟨x, hx, rfl⟩ := List.mem_map.mp he
  obtain ⟨x', hx', rfl⟩ := List.mem_map.mp he'
  refine freePages_congr hps hnp hbase fun j hj => ?_
  rw [← hps, ← hnp] at hc'
  rw [free_iff J' hc' hx' (by omega), free_iff J hc hx hj, hps, hbase]
  exact hfree _

end Whole

/-- **Free pages stay sorted and coalesce**: in every run in which the runs that are
    released end where they end in the page map, from any heap that
    `rtheap_init` makes of extents that have room, the free lists are the free
    pages in order, the search finds the first fit, and once the blocks of more
    than two pages are those of an earlier state again, so are the lists, unless
    a page has been split in between. -/
theorem free_lists_kept (heapaddr large : Option Area) (core : Nat → Option Area)
    (heapsize pagesize : Nat) (suprt : Bool) (mem₀ : Mem) {heap : Rtheap} {mem : Mem}
    (hinit : rtheapInit heapaddr large core heapsize pagesize suprt mem₀ = .ok (heap, mem))
    (hcore : ∀ i j area area', i < j → core i = some area → core j = some area' →
      area.addr + (heapArea heapaddr large suprt heapsize).2 ≤ area'.addr ∨
        area'.addr + (heapArea heapaddr large suprt heapsize).2 ≤ area.addr)
    (hroom : HasRoom heapaddr large heapsize pagesize suprt)
    {st : St} (h : Reach step Exact ⟨heap, mem, []⟩ st) :
    Listed st ∧ (∀ bsize log2size, FirstFit st.heap st.mem bsize log2size) ∧
      ∀ st', Reach step Calm st st' → SameLarge st st' → Restored st st' := by
  obtain ⟨xs, B, J, hc⟩ := kept_run h (kept_init hinit hcore hroom)
  refine ⟨fun e he => ?_, firstFit J hc, fun st' hrun hlarge => ?_⟩
  · rw [J.exts] at he
    obtain ⟨x, hx, rfl⟩ := List.mem_map.mp he
    refine ⟨?_, freePages_sorted J.geometry.pos x.1⟩
    rw [← list_eq J hc hx]
    exact (J.free x hx).chain
  -- only large blocks have come and gone since then
  · refine restored_of_since J hc ?_ hlarge
    refine hrun.invariant (I := Since st.heap.pagesize st.heap.npages (st.live.map bare) xs)
      ⟨rfl, rfl, xs, B, J, hc, SameWhole.refl ..⟩ fun s a s' o hs hG hstep => ?_
    exact hs.step hG hstep

instance (heap : Rtheap) (a : Act) : Decidable (NoSplit heap a) :=
  match a with
  | .alloc n => inferInstanceAs (Decidable (n = 0 ∨ heap.pagesize * 2 < roundSize heap n ∨
        heap.buckets (log2Size (roundSize heap n) - RTHEAP_MINLOG2) ≠ 0))
  | .free _ => .isTrue trivial
  | .write _ _ => .isTrue trivial

instance (st : St) (a : Act) : Decidable (Calm st a) :=
  inferInstanceAs (Decidable (NoSplit st.heap a ∧ Exact st a))

/-- The first of four pages is split, and the others are taken and released. -/
theorem free_lists_kept_two : ∃ heap mem st st', fourPages 0 = .ok (heap, mem) ∧
    Reach step Exact ⟨heap, mem, []⟩ st ∧ Reach step Calm st st' ∧
    st.heap.extents.map (freePages st.heap) = [[1104, 1120, 1136]] ∧ Listed st ∧
    Restored st st' := by
  obtain ⟨heap, mem, st, st', hinit, hplay, hplay', hlive, hlive', hlists⟩ :
      ∃ heap mem st st', fourPages 0 = .ok (heap, mem) ∧
        play step Exact ⟨heap, mem, []⟩ [.alloc 10] = some st ∧
        play step Calm st [.alloc 40, .free ⟨1104, 40, 48⟩] = some st' ∧
        st.live = [⟨1088, 10, 16⟩] ∧ st'.live = [⟨1088, 10, 16⟩] ∧
        st.heap.extents.map (freePages st.heap) = [[1104, 1120, 1136]] :=
    ⟨_, _, _, _, rfl, rfl, rfl, rfl, rfl, rfl⟩
  have hreach := reach_of_play hplay
  have hcalm := reach_of_play hplay'
  obtain ⟨hlisted, -, hrestored⟩ :=
    free_lists_kept (some ⟨1024, fun _ => 0⟩) none (fun _ => none) 128 16 false (fun _ => 0)
      hinit nofun ⟨by decide, fun h => absurd h (by decide)⟩ hreach
  refine ⟨heap, mem, st, st', hinit, hreach, hcalm, hlists, hlisted,
    hrestored st' hcalm fun b _ => ?_⟩
  rw [hlive, hlive']

/-- **A LIST OF NO PAGE**: without memory for all of it, a heap of three pages of 128 kB
    gets extents that have no pages, and a page in each free list. -/
theorem list_of_no_page : ∃ heap mem, largePages = .ok (heap, mem) ∧ heap.npages = 0 ∧
    ¬ Listed ⟨heap, mem, []⟩ := by
  obtain ⟨heap, mem, e, rest, hinit, hnp, hexts, hhead⟩ : ∃ heap mem e rest,
      largePages = .ok (heap, mem) ∧ heap.npages = 0 ∧ heap.extents = e :: rest ∧
        e.freelist = 131136 :=
    ⟨_, _, _, _, rfl, rfl, rfl, rfl⟩
  refine ⟨heap, mem, hinit, hnp, fun hlisted => ?_⟩
  have he : e ∈ heap.extents := by
    rw [hexts]
    exact List.mem_cons_self ..
  obtain ⟨hchain, -⟩ := hlisted e he
  have hnone : freePages heap e = [] := by
    rw [freePages, hnp]
    rfl
  have hchain' : Chain 0 mem 0 e.freelist (freePages heap e) := hchain
  rw [hnone, hhead] at hchain'
  have h0 : 131136 = 0 := hchain'
  exact absurd h0 (by decide)

end RtaiHeapFreeLists
