import Rtai.HeapInv

/-! # Allocation keeps the invariant

    A range is a run of one free list: it is cut out of the list, and its
    pages get a head.  What is made of it belongs to a bucket or to a user. -/

namespace RtaiHeapAlloc

open RtaiHeap RtaiChains RtaiHeapLoops RtaiHeapPlaces RtaiHeapSizes RtaiHeapInv

section Range

variable {heap : Rtheap} {mem mem' : Mem} {live : List Block}
  {xs pre post : List (Extent × List Nat)} {B : Nat → List Nat} {ps np : Nat}
  {e : Extent} {F G1 G2 : List Nat} {p m : Nat}

/-- The pages of a run are free. -/
theorem run_free (h : FreeList ps np mem e F) (hps : 0 < ps) (hm : 0 < m)
    (hF : F = G1 ++ (places ps p m ++ G2)) :
    ∃ i, p = e.membase + i * ps ∧ ∀ j, i ≤ j → j < i + m →
      Placed ps np e.pagemap RTHEAP_PFREE j 1 0 ps := by
  have hin : ∀ j, j < m → p + j * ps ∈ F := by
    intro j hj
    rw [hF]
    refine List.mem_append_right _ (List.mem_append_left _ ?_)
    exact mem_places.mpr ⟨j, hj, rfl⟩
  obtain ⟨i, -, hi⟩ := h.placed _ (hin 0 hm)
  rw [Nat.zero_mul, Nat.add_zero] at hi
  refine ⟨i, hi, fun j hj hj' => ?_⟩
  obtain ⟨k, hk, hat⟩ := h.placed _ (hin (j - i) (by omega))
  have hsum : (i + (j - i)) * ps = k * ps := by
    rw [Nat.add_mul]
    omega
  have hkj := Nat.eq_of_mul_eq_mul_right hps hsum
  have hj2 : j = k := by omega
  rw [hj2]
  exact hk

/-- A free page or a block that is not one of the pages of a run is apart from
    them. -/
theorem run_apart (J : Inv heap mem live xs B) (hx : (e, F) ∈ xs) (hm : 0 < m)
    (hF : F = G1 ++ (places heap.pagesize p m ++ G2)) {tag a s : Nat}
    (h : InHeap heap.pagesize heap.npages heap.extents tag a s)
    (hne : tag = RTHEAP_PFREE → a ∉ places heap.pagesize p m) :
    Apart a s p (m * heap.pagesize) := by
  have hps := J.geometry.pos
  have hpos : 0 < s := by
    obtain ⟨_, _, _, _, _, hp, _⟩ := h
    exact hp.pos
  by_contra hno
  obtain ⟨h1, h2⟩ := not_or.mp hno
  -- the page of a byte that is in both
  have hlen : 0 < m * heap.pagesize := Nat.mul_pos hm hps
  have hj : (max a p - p) / heap.pagesize < m := by
    rw [Nat.div_lt_iff_lt_mul hps]
    omega
  have hq : p + (max a p - p) / heap.pagesize * heap.pagesize ∈
      places heap.pagesize p m := mem_places.mpr ⟨_, hj, rfl⟩
  have hqF : p + (max a p - p) / heap.pagesize * heap.pagesize ∈ F := by
    rw [hF]
    exact List.mem_append_right _ (List.mem_append_left _ hq)
  have hle := Nat.div_mul_le_self (max a p - p) heap.pagesize
  have hlt := Nat.lt_div_mul_add (a := max a p - p) hps
  obtain ⟨haddr, htag⟩ := owner_unique J.pages J.apart h (J.free_placed hx hqF)
    (x := max a p) (by omega) (by omega)
  exact hne htag (haddr ▸ hq)

/-- What is made of a range: the pages have a head, their blocks are linked,
    and nobody else has them. -/
structure Carved (heap : Rtheap) (mem' : Mem) (live : List Block)
    (xs : List (Extent × List Nat)) (B : Nat → List Nat) (exts : List Extent)
    (tag p m bsize c : Nat) : Prop where
  chain : Chain 0 mem' 0 p (places bsize p (c + 1))
  live : ∀ b ∈ live, Apart b.addr b.size p (m * heap.pagesize)
  bucket : ∀ c', ∀ a ∈ B c', Apart a (2 ^ (c' + RTHEAP_MINLOG2)) p (m * heap.pagesize)
  placed : ∀ off s, off < heap.pagesize → off + s ≤ m * heap.pagesize → 0 < s →
    off % s = 0 → (tag ≠ RTHEAP_PLIST → s = unitSize heap.pagesize tag) →
    (tag = RTHEAP_PLIST → off = 0 ∧ s = m * heap.pagesize) →
    InHeap heap.pagesize heap.npages exts tag (p + off) s
  were_free : ∀ j, j < m → ∃ x ∈ xs, p + j * heap.pagesize ∈ x.2

/-- A run of an extent is cut out of its free list, and its pages get a head. -/
def Cut (ps tag p m : Nat) (xs xs' : List (Extent × List Nat)) : Prop :=
  ∃ pre e F post freelist map G1 G2 i, xs = pre ++ (e, F) :: post ∧
    xs' = pre ++ ({ e with freelist := freelist, pagemap := map }, G1 ++ G2) :: post ∧
    F = G1 ++ (places ps p m ++ G2) ∧ p = e.membase + i * ps ∧
    Taken e.pagemap tag i m map

/-- **A range is taken.** -/
theorem take_range (J : Inv heap mem live xs B) {bsize log2size c : Nat}
    {exts : List Extent} (hbsize : 0 < bsize) (hlog : log2size ≠ 1)
    (hcovers : Covers heap.pagesize bsize m c)
    (hrange : getFreeRange heap mem bsize log2size heap.extents 0 =
      some (some (p, exts, mem'))) :
    ∃ xs', Inv { heap with extents := exts } mem' live xs' B ∧ Carved heap mem' live xs B exts
        (if log2size ≠ 0 then log2size else RTHEAP_PLIST) p m bsize c ∧
      Cut heap.pagesize (if log2size ≠ 0 then log2size else RTHEAP_PLIST) p m xs xs' := by
  have hps := J.geometry.pos
  rw [J.exts] at hrange
  obtain ⟨range, hrange', hspec⟩ :=
    @getFreeRange_spec heap mem bsize log2size 0 xs J.searchable
  obtain rfl : range = some (p, exts, mem') :=
    Option.some.inj (hrange'.symm.trans hrange)
  obtain ⟨pre, e, F, post, freehead₀, freehead, lastpage, G1, n, G2, rfl, hfound,
    rfl, rfl⟩ := hspec p exts mem' rfl
  have hx : (e, F) ∈ pre ++ (e, F) :: post :=
    List.mem_append_right _ (List.mem_cons_self ..)
  have hfree : FreeList heap.pagesize heap.npages mem e F := J.free (e, F) hx
  have hnodup : F.Nodup := hfree.sorted.imp fun hlt => Nat.ne_of_lt hlt
  obtain rfl : n + 1 = m := covers_run hps hcovers hfound.enough hfound.least
  obtain ⟨freelist, mem1, hunlink, hchain, hmem1⟩ :=
    unlinkRange_spec hfree.chain hnodup hfound
  have hF := hfound.split
  obtain ⟨i, hp, hpages⟩ := run_free hfree hps (Nat.succ_pos n) hF
  have hlast := hpages (i + (n + 1) - 1) (by omega) (by omega)
  have hp0 : 0 < p := by
    have hbase := (J.pages e (J.ext_mem hx)).base
    omega
  have hfreepage : ∀ j, i ≤ j → j < i + (n + 1) → e.pagemap j = RTHEAP_PFREE :=
    fun j hj hj' => (hpages j hj hj').head
  have hcont : (n + 1 = 1 ∧ bsize ≤ heap.pagesize) ∨ bsize = (n + 1) * heap.pagesize := by
    rcases hcovers with ⟨h1, h2⟩ | ⟨-, -, h2⟩
    · refine Or.inl ⟨h1, ?_⟩
      have hle : 1 * bsize ≤ (c + 1) * bsize :=
        Nat.mul_le_mul_right bsize (Nat.succ_pos c)
      omega
    · exact Or.inr h2
  obtain ⟨map, hmap, htaken⟩ :=
    @splitpage_taken heap { e with freelist := freelist } mem1 p bsize log2size
      J.geometry i (n + 1) hp (Nat.succ_pos n) hcont hlog hfreepage
  have hsmall : bsize < heap.pagesize → heap.pagesize = (c + 1) * bsize := by
    intro hlt
    rcases hcovers with ⟨-, h2⟩ | ⟨-, -, h2⟩
    · exact h2
    · have hle : 1 * heap.pagesize ≤ (n + 1) * heap.pagesize :=
        Nat.mul_le_mul_right _ (Nat.succ_pos n)
      omega
  have hlarge : ¬ bsize < heap.pagesize → c = 0 := by
    intro hge
    rcases hcovers with ⟨-, h2⟩ | ⟨-, h2, -⟩
    · by_contra hc
      have hle : 2 * bsize ≤ (c + 1) * bsize :=
        Nat.mul_le_mul_right bsize (by omega)
      omega
    · exact h2
  obtain ⟨hblocks, hmem2⟩ :=
    @splitpage_chain heap { e with freelist := freelist } mem1 p bsize log2size
      hp0 hbsize c hsmall hlarge
  have htake : takeRange heap e mem p lastpage freehead bsize log2size =
      ({ e with freelist := freelist, pagemap := map },
        (splitpage heap { e with freelist := freelist } mem1 p bsize log2size).2) := by
    rw [takeRange, hunlink]
    exact Prod.ext hmap rfl
  rw [htake]
  generalize hmem' : (splitpage heap { e with freelist := freelist } mem1 p bsize
    log2size).2 = mem' at hblocks hmem2
  dsimp only
  -- what the memory is elsewhere
  have hwithin : ∀ a, a ∈ places bsize p (c + 1) →
      p ≤ a ∧ a + bsize ≤ p + (n + 1) * heap.pagesize :=
    fun a ha => covers_within hcovers ha
  have hkept : ∀ a s, 0 < s → Apart a s p ((n + 1) * heap.pagesize) → a ∉ G1 →
      mem' a = mem a := by
    intro a s hs ha hG
    rw [hmem2 a fun hin => ?_, hmem1 a hG]
    have := hwithin a hin
    rcases ha with ha | ha <;> omega
  have hpageapart : ∀ x ∈ pre ++ (e, F) :: post, ∀ q ∈ x.2,
      q ∉ places heap.pagesize p (n + 1) →
      Apart q heap.pagesize p ((n + 1) * heap.pagesize) :=
    fun x hx' q hq hne => run_apart J hx (Nat.succ_pos n) hF (J.free_placed hx' hq)
      fun _ => hne
  have hblockapart : ∀ c', ∀ a ∈ B c', Apart a (2 ^ (c' + RTHEAP_MINLOG2)) p
      ((n + 1) * heap.pagesize) := by
    intro c' a ha
    refine run_apart J hx (Nat.succ_pos n) hF (J.bucket_placed c' a ha) fun h0 => ?_
    exact absurd h0 (Nat.succ_ne_zero _)
  have hliveapart : ∀ b ∈ live, Apart b.addr b.size p ((n + 1) * heap.pagesize) := by
    intro b hb
    obtain ⟨tag, htag, hplaced⟩ := J.live_placed b hb
    exact run_apart J hx (Nat.succ_pos n) hF hplaced fun h0 => absurd h0 htag.ne_free
  have hG1F : ∀ q, q ∈ G1 → q ∈ F := fun q hq => by
    rw [hF]
    exact List.mem_append_left _ hq
  have hdisj := List.nodup_append.mp (hF ▸ hnodup)
  have hrun : ∀ q, q ∈ G1 ++ G2 → q ∉ places heap.pagesize p (n + 1) := by
    intro q hq hin
    rcases List.mem_append.mp hq with hq | hq
    · exact hdisj.2.2 q hq q (List.mem_append_left _ hin) rfl
    · exact (List.nodup_append.mp hdisj.2.1).2.2 q hin q hq rfl
  have hsub : ∀ q, q ∈ G1 ++ G2 → q ∈ F := by
    intro q hq
    rw [hF]
    rcases List.mem_append.mp hq with hq | hq
    · exact List.mem_append_left _ hq
    · exact List.mem_append_right _ (List.mem_append_right _ hq)
  have hplaced : ∀ {tag j m off s : Nat}, Placed heap.pagesize heap.npages e.pagemap
      tag j m off s → (tag = RTHEAP_PFREE → j < i ∨ i + (n + 1) ≤ j) →
      Placed heap.pagesize heap.npages map tag j m off s :=
    fun h hne => h.taken htaken hne
  have hinheap : ∀ {tag a s : Nat}, InHeap heap.pagesize heap.npages heap.extents
      tag a s → tag ≠ RTHEAP_PFREE → InHeap heap.pagesize heap.npages
        (pre.map Prod.fst ++ { e with freelist := freelist, pagemap := map } ::
          post.map Prod.fst) tag a s := by
    intro tag a s h hne
    rw [J.exts, List.map_append, List.map_cons] at h
    exact h.replace rfl fun _ _ _ hp _ => hplaced hp fun h0 => absurd h0 hne
  have hrest : FreeList heap.pagesize heap.npages mem'
      { e with freelist := freelist, pagemap := map } (G1 ++ G2) := by
    refine ⟨chain_congr hchain fun q hq => hmem2 q fun hin => ?_, ?_, fun q hq => ?_⟩
    · have hin' := hwithin q hin
      rcases hpageapart (e, F) hx q (hsub q hq) (hrun q hq) with h | h <;> omega
    · refine hfree.sorted.sublist ?_
      rw [hF]
      exact (List.sublist_append_right _ _).append_left G1
    · obtain ⟨j, hj, hat⟩ := hfree.placed q (hsub q hq)
      refine ⟨j, hplaced hj fun _ => ?_, hat⟩
      by_contra hin
      refine hrun q hq (mem_places.mpr ⟨j - i, by omega, ?_⟩)
      rw [hat, hp, Nat.add_assoc, ← Nat.add_mul]
      congr 2
      omega
  refine ⟨pre ++ ({ e with freelist := freelist, pagemap := map }, G1 ++ G2) :: post,
    ?_, ⟨hblocks, hliveapart, hblockapart, ?_, ?_⟩, pre, e, F, post, freelist, map, G1, G2,
    i, rfl, rfl, hF, hp, htaken⟩
  · have hexts := J.exts
    have hpgs := J.pages
    have haps := J.apart
    rw [hexts, List.map_append, List.map_cons] at hpgs haps
    exact { J with
      exts := by
        rw [List.map_append, List.map_cons]
      pages := pages_replace hpgs rfl rfl rfl
      apart := apart_replace haps rfl rfl
      free := by
        intro x hx'
        have hother : ∀ x ∈ pre ++ (e, F) :: post, (x ∈ pre ∨ x ∈ post) →
            FreeList heap.pagesize heap.npages mem' x.1 x.2 := by
          intro x hx' hside
          refine { J.free x hx' with
            chain := chain_congr (J.free x hx').chain fun q hq => ?_ }
          have hqF := other_list J.free_nodup hside hq
          have hqrun : q ∉ places heap.pagesize p (n + 1) := fun hin => hqF (by
            rw [hF]
            exact List.mem_append_right _ (List.mem_append_left _ hin))
          exact hkept q _ hps (hpageapart x hx' q hq hqrun) fun hin => hqF (hG1F q hin)
        rcases List.mem_append.mp hx' with hpre | hpost
        · exact hother x (List.mem_append_left _ hpre) (Or.inl hpre)
        · cases hpost with
          | head => exact hrest
          | tail _ hpost =>
            exact hother x (List.mem_append_right _ (List.mem_cons_of_mem _ hpost))
              (Or.inr hpost)
      bucket := by
        intro c'
        refine chain_congr (J.bucket c') fun a ha => ?_
        exact hkept a _ (Nat.pow_pos (Nat.succ_pos 1)) (hblockapart c' a ha)
          fun hin => J.bucket_not_free ha hx (hG1F a hin)
      bucket_placed := fun c' a ha =>
        hinheap (J.bucket_placed c' a ha) (Nat.succ_ne_zero _)
      live_placed := by
        intro b hb
        obtain ⟨tag, htag, h⟩ := J.live_placed b hb
        exact ⟨tag, htag, hinheap h htag.ne_free⟩ }
  · intro off s h1 h2 h3 h4 h5 h6
    refine ⟨{ e with freelist := freelist, pagemap := map },
      List.mem_append_right _ (List.mem_cons_self ..), i, n + 1, off,
      htaken.placed hlast h1 h2 h3 h4 h5 h6, ?_⟩
    show p + off = e.membase + (i * heap.pagesize + off)
    omega
  · intro j hj
    refine ⟨(e, F), hx, ?_⟩
    show p + j * heap.pagesize ∈ F
    rw [hF]
    refine List.mem_append_right _ (List.mem_append_left _ ?_)
    exact mem_places.mpr ⟨j, hj, rfl⟩

end Range

section Alloc

variable {heap : Rtheap} {mem mem' : Mem} {live : List Block}
  {xs : List (Extent × List Nat)} {B : Nat → List Nat} {exts : List Extent}
  {block n k p m c : Nat}

theorem two_pow_pos (k : Nat) : 0 < 2 ^ k := Nat.pow_pos (Nat.succ_pos 1)

/-- Where the bytes of a block start is in nothing that is apart from it. -/
theorem Apart.ne {a s a' s' : Nat} (h : Apart a s a' s') (hs : 0 < s)
    (hs' : 0 < s') : a ≠ a' := by
  intro he
  rcases h with h | h <;> omega

theorem pow_shift_le (hg : Geometry heap.pagesize heap.pageshift)
    (hk : k ≤ heap.pageshift + 1) : 2 ^ k ≤ 2 * heap.pagesize := by
  have hle : 2 ^ k ≤ 2 ^ (heap.pageshift + 1) :=
    Nat.pow_le_pow_right (Nat.succ_pos 1) hk
  rw [Nat.pow_succ, ← hg.size, Nat.mul_comm] at hle
  exact hle

/-- **A block of a bucket** goes to a user. -/
theorem take_block (J : Inv heap mem live xs B) {l : List Nat} (hk : 4 ≤ k)
    (hk' : k ≤ heap.pageshift + 1) (hB : B (k - RTHEAP_MINLOG2) = block :: l)
    (hn : n ≤ 2 ^ k) :
    Inv (takeBlock heap mem k block) mem (⟨block, n, 2 ^ k⟩ :: live) xs
      (Function.update B (k - RTHEAP_MINLOG2) l) := by
  have hkc : k - RTHEAP_MINLOG2 + RTHEAP_MINLOG2 = k := Nat.sub_add_cancel hk
  have hin : block ∈ B (k - RTHEAP_MINLOG2) := by
    rw [hB]
    exact List.mem_cons_self ..
  have hblock := J.bucket_placed _ block hin
  rw [hkc] at hblock
  have hchain := J.bucket (k - RTHEAP_MINLOG2)
  have hnodup := J.bucket_nodup (k - RTHEAP_MINLOG2)
  rw [hB] at hchain hnodup
  obtain ⟨hnotin, hnodup⟩ := List.nodup_cons.mp hnodup
  have hrest : ∀ a ∈ l, a ∈ B (k - RTHEAP_MINLOG2) := by
    intro a ha
    rw [hB]
    exact List.mem_cons_of_mem _ ha
  have J1 := J.set_bucket hchain.2.2 hnodup (fun a ha => J.bucket_placed _ a (hrest a ha))
    fun b hb hl => J.live_bucket b hb _ (hrest _ hl)
  refine J1.set_live (heap.ubytes + 2 ^ k) ?_ ?_ ?_ ?_ ?_
  · intro b hb
    cases hb with
    | head => exact ⟨k, Or.inr ⟨hk, pow_shift_le J.geometry hk'⟩, hblock⟩
    | tail _ hb => exact J.live_placed b hb
  · refine List.nodup_cons.mpr ⟨fun hlive => ?_, J.live_addr⟩
    obtain ⟨b, hb, he⟩ := List.mem_map.mp hlive
    have haddr : b.addr = block := he
    exact J.live_bucket b hb _ (haddr ▸ hin)
  · intro b hb c'
    cases hb with
    | head =>
      by_cases hc : c' = k - RTHEAP_MINLOG2
      · subst hc
        rw [Function.update_self]
        exact hnotin
      · rw [Function.update_of_ne hc]
        intro hin'
        -- a byte of a page has one size
        have hpos := two_pow_pos k
        have hpos' := two_pow_pos (c' + RTHEAP_MINLOG2)
        obtain ⟨-, htag⟩ := owner_unique J.pages J.apart hblock
          (J.bucket_placed c' block hin') (x := block) (by omega) (by omega)
        exact hc (by omega)
    | tail _ hb => exact J1.live_bucket b hb c'
  · intro b hb
    cases hb with
    | head => exact hn
    | tail _ hb => exact J.enough b hb
  · show heap.ubytes + 2 ^ k = 2 ^ k + (live.map Block.size).sum
    rw [J.ubytes, Nat.add_comm]

/-- **Whole pages** go to a user. -/
theorem take_pages (J : Inv { heap with extents := exts } mem' live xs B)
    {xs₀ : List (Extent × List Nat)}
    (hcarved : Carved heap mem' live xs₀ B exts RTHEAP_PLIST p m (m * heap.pagesize) 0)
    (hm : 2 * heap.pagesize < m * heap.pagesize) (hn : n ≤ m * heap.pagesize) :
    Inv { heap with extents := exts, ubytes := heap.ubytes + m * heap.pagesize } mem'
      (⟨p, n, m * heap.pagesize⟩ :: live) xs B := by
  have hps : 0 < heap.pagesize := J.geometry.pos
  have hblock := hcarved.placed 0 (m * heap.pagesize) hps (by omega) (by omega)
    (Nat.zero_mod _) (fun h => absurd rfl h) fun _ => ⟨rfl, rfl⟩
  have hlive : ∀ b ∈ live, b.addr ≠ p := by
    intro b hb
    obtain ⟨tag, -, _, _, _, _, _, hplaced, -⟩ := J.live_placed b hb
    exact Apart.ne (hcarved.live b hb) hplaced.pos (by omega)
  refine J.set_live (heap.ubytes + m * heap.pagesize) ?_ ?_ ?_ ?_ ?_
  · intro b hb
    cases hb with
    | head => exact ⟨RTHEAP_PLIST, Or.inl ⟨rfl, hm⟩, hblock⟩
    | tail _ hb => exact J.live_placed b hb
  · refine List.nodup_cons.mpr ⟨fun hin => ?_, J.live_addr⟩
    obtain ⟨b, hb, he⟩ := List.mem_map.mp hin
    exact hlive b hb he
  · intro b hb c'
    cases hb with
    | head =>
      intro hin
      exact Apart.ne (hcarved.bucket c' p hin) (two_pow_pos _) (by omega) rfl
    | tail _ hb => exact J.live_bucket b hb c'
  · intro b hb
    cases hb with
    | head => exact hn
    | tail _ hb => exact J.enough b hb
  · show heap.ubytes + m * heap.pagesize = m * heap.pagesize + (live.map Block.size).sum
    have hu : heap.ubytes = (live.map Block.size).sum := J.ubytes
    rw [hu, Nat.add_comm]

/-- **A page that is split** goes to a bucket. -/
theorem fill_bucket (J : Inv { heap with extents := exts } mem' live xs B)
    {xs₀ : List (Extent × List Nat)} (hk : 4 ≤ k)
    (hcovers : Covers heap.pagesize (2 ^ k) m c)
    (hcarved : Carved heap mem' live xs₀ B exts k p m (2 ^ k) c) :
    Inv { heap with
        extents := exts
        buckets := Function.update heap.buckets (k - RTHEAP_MINLOG2) p } mem' live xs
      (Function.update B (k - RTHEAP_MINLOG2) (places (2 ^ k) p (c + 1))) := by
  have hkc : k - RTHEAP_MINLOG2 + RTHEAP_MINLOG2 = k := Nat.sub_add_cancel hk
  have hpos := two_pow_pos k
  refine J.set_bucket hcarved.chain ((places_sorted hpos p (c + 1)).imp
    fun hlt => Nat.ne_of_lt hlt) (fun a ha => ?_) fun b hb hin => ?_
  · rw [hkc]
    have hwithin := covers_within hcovers ha
    obtain ⟨j, hj, rfl⟩ := mem_places.mp ha
    refine hcarved.placed (j * 2 ^ k) (2 ^ k) ?_ (by omega) hpos
      (Nat.mul_mod_left ..) (fun _ => ?_) fun h2 => ?_
    · rcases hcovers with ⟨-, hsize⟩ | ⟨-, rfl, -⟩
      · rw [hsize]
        exact Nat.mul_lt_mul_of_pos_right hj hpos
      · have h0 : j = 0 := by omega
        have hps : 0 < heap.pagesize := J.geometry.pos
        rw [h0, Nat.zero_mul]
        exact hps
    · rw [unitSize, if_neg]
      intro h0
      rw [h0] at hk
      exact absurd hk (by decide)
    · rw [h2] at hk
      exact absurd hk (by decide)
  · have hwithin := covers_within hcovers hin
    obtain ⟨tag, -, _, _, _, _, _, hplaced, -⟩ := J.live_placed b hb
    have hsize := hplaced.pos
    rcases hcarved.live b hb with h | h <;> omega

/-- A block of `s` bytes that a user gets: of a bucket, of a page that is split
    for an empty bucket, or whole pages. -/
inductive Given (ps : Nat) (xs : List (Extent × List Nat)) (B : Nat → List Nat) (p : Nat) :
    Nat → List (Extent × List Nat) → (Nat → List Nat) → Prop where
  | bucket (c : Nat) (l : List Nat) (h : B c = p :: l)
      (hle : 2 ^ (c + RTHEAP_MINLOG2) ≤ 2 * ps) :
      Given ps xs B p (2 ^ (c + RTHEAP_MINLOG2)) xs (Function.update B c l)
  | split (c m n : Nat) (l : List Nat) (xs' : List (Extent × List Nat)) (h : B c = [])
      (hle : 2 ^ (c + RTHEAP_MINLOG2) ≤ 2 * ps)
      (hcovers : Covers ps (2 ^ (c + RTHEAP_MINLOG2)) m n)
      (hl : places (2 ^ (c + RTHEAP_MINLOG2)) p (n + 1) = p :: l)
      (hcut : Cut ps (c + RTHEAP_MINLOG2) p m xs xs') :
      Given ps xs B p (2 ^ (c + RTHEAP_MINLOG2)) xs' (Function.update B c l)
  | run (m : Nat) (xs' : List (Extent × List Nat)) (hm : 2 * ps < m * ps)
      (hcut : Cut ps RTHEAP_PLIST p m xs xs') : Given ps xs B p (m * ps) xs' B

/-- What an allocation of `s` bytes comes to: nothing, or a block. -/
def Gives (heap : Rtheap) (mem : Mem) (live : List Block) (xs : List (Extent × List Nat))
    (B : Nat → List Nat) (s : Nat) (result : Option (Nat × Rtheap × Mem)) : Prop :=
  ∃ block heap' mem', result = some (block, heap', mem') ∧
    ((block = 0 ∧ heap' = heap ∧ mem' = mem) ∨
      (block ≠ 0 ∧ ∃ xs' B', Given heap.pagesize xs B block s xs' B' ∧
        ∀ n, n ≤ s → Inv heap' mem' (⟨block, n, s⟩ :: live) xs' B'))

theorem gives_null (heap : Rtheap) (mem : Mem) (live : List Block)
    (xs : List (Extent × List Nat)) (B : Nat → List Nat) (s : Nat) :
    Gives heap mem live xs B s (some (0, heap, mem)) :=
  ⟨0, heap, mem, rfl, Or.inl ⟨rfl, rfl, rfl⟩⟩

theorem allocBlock_gives (J : Inv heap mem live xs B) (hk : 4 ≤ k)
    (hk' : k ≤ heap.pageshift + 1) :
    Gives heap mem live xs B (2 ^ k) (allocBlock heap mem k) := by
  obtain ⟨c, rfl⟩ : ∃ c, k = c + RTHEAP_MINLOG2 :=
    ⟨k - RTHEAP_MINLOG2, (Nat.sub_add_cancel hk).symm⟩
  have hc : c + RTHEAP_MINLOG2 - RTHEAP_MINLOG2 = c := Nat.add_sub_cancel ..
  rw [allocBlock]
  by_cases hempty : heap.buckets (c + RTHEAP_MINLOG2 - RTHEAP_MINLOG2) = 0
  · rw [if_pos hempty]
    obtain ⟨m, n, hcovers⟩ := covers_log2 J.geometry hk'
    obtain ⟨range, hrange, -⟩ :=
      @getFreeRange_spec heap mem (2 ^ (c + RTHEAP_MINLOG2)) (c + RTHEAP_MINLOG2) 0 xs
        J.searchable
    rw [← J.exts] at hrange
    rw [hrange]
    cases range with
    | none => exact gives_null heap mem live xs B _
    | some range =>
      obtain ⟨p, exts, mem'⟩ := range
      obtain ⟨xs', J', hcarved, hcut⟩ :=
        take_range J (two_pow_pos _) (by omega) hcovers hrange
      have hk0 : c + RTHEAP_MINLOG2 ≠ 0 := Nat.succ_ne_zero _
      rw [if_pos hk0] at hcarved hcut
      have hp : p ≠ 0 := hcarved.chain.2.1
      have hbucket : B c = [] := by
        rw [hc] at hempty
        have hchain := J.bucket c
        rw [hempty] at hchain
        exact chain_of_null hchain
      have J2 := fill_bucket J' hk hcovers hcarved
      refine ⟨p, _, mem', rfl, Or.inr ⟨hp, xs', _,
        Given.split c m n _ xs' hbucket (pow_shift_le J.geometry hk') hcovers rfl hcut,
        fun n' hn => ?_⟩⟩
      have J3 := take_block J2 hk hk' (Function.update_self ..) hn
      rw [takeBlock] at J3 ⊢
      rw [Function.update_idem, Function.update_idem, hc] at J3
      exact J3
  · rw [if_neg hempty]
    have hchain := J.bucket (c + RTHEAP_MINLOG2 - RTHEAP_MINLOG2)
    obtain ⟨l, hl, -⟩ := chain_cons_of_ne hchain hempty
    refine ⟨_, _, mem, rfl, Or.inr ⟨hempty, xs, _,
      Given.bucket c l ((congrArg B hc).symm.trans hl) (pow_shift_le J.geometry hk'),
      fun n hn => ?_⟩⟩
    have J' := take_block J hk hk' hl hn
    rw [hc] at J' ⊢
    exact J'

theorem allocRange_gives (J : Inv heap mem live xs B)
    (hm : 2 * heap.pagesize < m * heap.pagesize) :
    Gives heap mem live xs B (m * heap.pagesize)
      (allocRange heap mem (m * heap.pagesize)) := by
  rw [allocRange]
  obtain ⟨range, hrange, -⟩ :=
    @getFreeRange_spec heap mem (m * heap.pagesize) 0 0 xs J.searchable
  rw [← J.exts] at hrange
  rw [hrange]
  cases range with
  | none => exact gives_null heap mem live xs B _
  | some range =>
    obtain ⟨p, exts, mem'⟩ := range
    have hm0 : 0 < m := by
      have hlt := Nat.lt_of_mul_lt_mul_right hm
      omega
    obtain ⟨xs', J', hcarved, hcut⟩ := take_range J (by omega) (Nat.zero_ne_one)
      (Or.inr ⟨hm0, rfl, rfl⟩) hrange
    have hp : p ≠ 0 := hcarved.chain.2.1
    exact ⟨p, _, mem', rfl, Or.inr ⟨hp, xs', B, Given.run m xs' hm hcut,
      fun n hn => take_pages J' hcarved hm hn⟩⟩

/-- **`rtheap_alloc`** returns nothing, or a block of the rounded size. -/
theorem rtheapAlloc_gives (J : Inv heap mem live xs B) (n : Nat) :
    Gives heap mem live xs B (blockSize heap n) (rtheapAlloc heap mem n) := by
  have hpages := @pages_of_roundSize heap n J.geometry
  rw [rtheapAlloc]
  by_cases hn0 : n = 0
  · rw [if_pos hn0]
    exact gives_null heap mem live xs B _
  rw [if_neg hn0]
  simp only [blockSize]
  generalize roundSize heap n = size at hpages ⊢
  by_cases hsmall : size ≤ heap.pagesize * 2
  · obtain ⟨hk, -, hk'⟩ := log2Size_spec J.geometry hsmall
    rw [if_pos hsmall, if_pos hsmall]
    exact allocBlock_gives J hk hk'
  · rw [if_neg hsmall, if_neg hsmall]
    by_cases hmax : size > heap.maxcont
    · rw [if_pos hmax]
      exact gives_null heap mem live xs B size
    rw [if_neg hmax]
    -- whole pages, whatever the request
    obtain ⟨m, rfl⟩ := hpages (by omega)
    rw [Nat.mul_comm heap.pagesize m] at hsmall ⊢
    exact allocRange_gives J (by omega)

/-- What an allocation of `s` bytes for a request of `n` comes to. -/
def Allocated (heap : Rtheap) (mem : Mem) (live : List Block) (n s : Nat)
    (result : Option (Nat × Rtheap × Mem)) : Prop :=
  ∃ block heap' mem', result = some (block, heap', mem') ∧
    (block = 0 → heap' = heap ∧ mem' = mem) ∧
    (block ≠ 0 → n + heap.pagesize ≤ 2 ^ 64 → ∃ xs' B',
      Inv heap' mem' (⟨block, n, s⟩ :: live) xs' B')

/-- And what it returns is the user's. -/
theorem rtheapAlloc_spec (J : Inv heap mem live xs B) (n : Nat) :
    Allocated heap mem live n (blockSize heap n) (rtheapAlloc heap mem n) := by
  obtain ⟨block, heap', mem', hresult, hgives⟩ := rtheapAlloc_gives J n
  refine ⟨block, heap', mem', hresult, fun h0 => ?_, fun hne hn => ?_⟩
  · rcases hgives with ⟨-, hheap, hmem⟩ | ⟨hne, -⟩
    · exact ⟨hheap, hmem⟩
    · exact absurd h0 hne
  · rcases hgives with ⟨h0, -⟩ | ⟨-, xs', B', -, hinv⟩
    · exact absurd h0 hne
    · exact ⟨xs', B', hinv n (blockSize_enough J.geometry hn)⟩

end Alloc

end RtaiHeapAlloc
