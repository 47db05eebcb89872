import Rtai.HeapInv

/-! # Release keeps the invariant

    The page map says how much a block has taken, and what is released goes
    back to where it came from: a block to its bucket, pages to their free
    list, in order. -/

namespace RtaiHeapFree

open RtaiHeap RtaiChains RtaiHeapLoops RtaiHeapPlaces RtaiHeapSizes RtaiHeapInv

/-- A block of whole pages, from the second page of an extent or later up to the
    last one, while the byte behind the page map is `RTHEAP_PCONT`: the search
    for the end of the run goes on behind the map. -/
def RunsOn (heap : Rtheap) (b : Block) : Prop :=
  2 * heap.pagesize < b.size ∧ ∃ e ∈ heap.extents, e.membase < b.addr ∧
    b.addr + b.size = e.memlim ∧ e.pagemap heap.npages = RTHEAP_PCONT

section Loops

variable {heap : Rtheap} {e : Extent} {exts : List Extent} {a i m fuel k : Nat}

theorem findExtent_spec (h : ∃ e ∈ exts, e.membase ≤ a ∧ a < e.memlim) :
    ∃ pre e post, findExtent a exts = some (pre, e, post) ∧
      exts = pre ++ e :: post ∧ e.membase ≤ a ∧ a < e.memlim := by
  induction exts with
  | nil =>
    obtain ⟨e, he, -⟩ := h
    exact nomatch he
  | cons d exts ih =>
    rw [findExtent]
    by_cases hd : d.membase ≤ a ∧ a < d.memlim
    · rw [if_pos hd]
      exact ⟨[], d, exts, rfl, rfl, hd⟩
    · rw [if_neg hd]
      obtain ⟨e, he, hin⟩ := h
      have he' : e ∈ exts := by
        cases he with
        | head => exact absurd hin hd
        | tail _ he => exact he
      obtain ⟨pre, e', post, hfind, rfl, hin'⟩ := ih ⟨e, he', hin⟩
      refine ⟨d :: pre, e', post, ?_, rfl, hin'⟩
      rw [hfind]
      rfl

/-- **The length of a run** is what has been taken. -/
theorem countRun_spec (hk : k ≤ m) (hfuel : m - k ≤ fuel) (hm : m ≤ heap.npages)
    (hcont : ∀ j, k ≤ j → j < m → e.pagemap (i + j) = RTHEAP_PCONT)
    (hstop : m < heap.npages → e.pagemap (i + m) ≠ RTHEAP_PCONT) :
    countRun heap e i fuel k = m := by
  induction fuel generalizing k with
  | zero =>
    rw [countRun]
    omega
  | succ fuel ih =>
    rw [countRun]
    by_cases hlt : k < m
    · rw [if_pos ⟨by omega, hcont k (Nat.le_refl k) hlt⟩]
      exact ih hlt (by omega) fun j hj hj' => hcont j (by omega) hj'
    · have hkm : k = m := by omega
      rw [hkm, if_neg fun h => hstop h.1 h.2]

end Loops

section Free

variable {heap : Rtheap} {mem mem' : Mem} {live : List Block}
  {xs pre post : List (Extent × List Nat)} {B : Nat → List Nat} {b : Block}
  {e : Extent} {F : List Nat} {ps np i m k off s : Nat}

/-- A user gives a block away. -/
theorem release (J : Inv heap mem live xs B) (hb : b ∈ live) :
    Inv { heap with ubytes := heap.ubytes - b.size } mem (live.erase b) xs B := by
  have hsub : ∀ d, d ∈ live.erase b → d ∈ live := fun d hd => List.mem_of_mem_erase hd
  refine J.set_live _ (fun d hd => J.live_placed d (hsub d hd)) ?_
    (fun d hd => J.live_bucket d (hsub d hd)) (fun d hd => J.enough d (hsub d hd)) ?_
  · exact J.live_addr.sublist (List.erase_sublist.map Block.addr)
  · have hsum := List.sum_map_erase Block.size hb
    rw [J.ubytes]
    omega

/-- And no other block is at its address. -/
theorem erased_ne (J : Inv heap mem live xs B) (hb : b ∈ live) {d : Block}
    (hd : d ∈ live.erase b) : d.addr ≠ b.addr := by
  intro he
  have hperm := (List.perm_cons_erase hb).map Block.addr
  have hnodup := hperm.nodup_iff.mp J.live_addr
  exact (List.nodup_cons.mp hnodup).1 (he ▸ List.mem_map_of_mem hd)

/-- Where the page map has a block. -/
theorem page_of_block (hg : Geometry heap.pagesize heap.pageshift)
    (hoff : off < heap.pagesize) :
    (e.membase + (i * heap.pagesize + off) - e.membase) >>> heap.pageshift = i ∧
      e.membase + (i * heap.pagesize + off) - (e.membase + (i <<< heap.pageshift)) = off := by
  constructor
  · rw [Nat.add_sub_cancel_left, Nat.shiftRight_eq_div_pow, ← hg.size,
      Nat.mul_comm, Nat.mul_add_div hg.pos, Nat.div_eq_of_lt hoff, Nat.add_zero]
  · rw [Nat.shiftLeft_eq, ← hg.size]
    omega

/-- **A block goes back to its bucket.** -/
theorem return_block (J : Inv heap mem live xs B) (hb : b ∈ live) {c : Nat}
    (hplaced : InHeap heap.pagesize heap.npages heap.extents (c + RTHEAP_MINLOG2)
      b.addr (2 ^ (c + RTHEAP_MINLOG2)))
    (hsize : b.size = 2 ^ (c + RTHEAP_MINLOG2)) :
    Inv { heap with
        buckets := Function.update heap.buckets c b.addr
        ubytes := heap.ubytes - 2 ^ (c + RTHEAP_MINLOG2) }
      (Function.update mem b.addr (heap.buckets c)) (live.erase b) xs
      (Function.update B c (b.addr :: B c)) := by
  have J1 := release J hb
  rw [hsize] at J1
  have hpos : 0 < b.size := by
    rw [hsize]
    exact Nat.pow_pos (Nat.succ_pos 1)
  have hps := J.geometry.pos
  have hnotin : b.addr ∉ B c := J.live_bucket b hb c
  have J2 : Inv { heap with ubytes := heap.ubytes - 2 ^ (c + RTHEAP_MINLOG2) }
      (Function.update mem b.addr (heap.buckets c)) (live.erase b) xs B := by
    refine J1.mem_congr (fun x hx p hp => ?_) fun c' a ha => ?_
    · have hne : p ≠ b.addr := by
        intro he
        rcases J.free_apart hb hx hp with h | h <;> omega
      exact Function.update_of_ne hne ..
    · have hne : a ≠ b.addr := fun he => J.live_bucket b hb c' (he ▸ ha)
      exact Function.update_of_ne hne ..
  have haddr : b.addr ≠ 0 := by
    obtain ⟨e, he, _, _, _, -, hat⟩ := hplaced
    have hbase := (J.pages e he).base
    omega
  refine J2.set_bucket (chain_push (J.bucket c) haddr hnotin)
    (List.nodup_cons.mpr ⟨hnotin, J.bucket_nodup c⟩) (fun a ha => ?_)
    fun d hd hin => ?_
  · cases ha with
    | head => exact hplaced
    | tail _ ha => exact J.bucket_placed c a ha
  · rcases List.mem_cons.mp hin with he | hin
    · exact erased_ne J hb hd he
    · exact J.live_bucket d (List.mem_of_mem_erase hd) c hin

/-- **A run goes into a free list**, in order. -/
theorem insert_run {freelist a n : Nat} (hF : Chain 0 mem 0 freelist F)
    (hsorted : F.Pairwise (· < ·)) (hlen : F.length ≤ np) (ha : 0 < a)
    (hps : 0 < ps) (hapart : ∀ q ∈ F, Apart q ps a ((n + 1) * ps)) :
    ∃ next last, findPlace (linkUpto ps (a + n * ps) a mem) a (np + 1) freelist 0 =
        some (next, last) ∧
      ∃ G mem', mem' = (if last ≠ 0 then Function.update (Function.update
            (linkUpto ps (a + n * ps) a mem) (a + n * ps) next) last a
          else Function.update (linkUpto ps (a + n * ps) a mem) (a + n * ps) next) ∧
        Chain 0 mem' 0 (if last ≠ 0 then freelist else a) G ∧
        G.Pairwise (· < ·) ∧ (∀ q, q ∈ G ↔ q ∈ F ∨ q ∈ places ps a (n + 1)) ∧
        ∀ x, x ∉ F → x ∉ places ps a (n + 1) → mem' x = mem x := by
  have hsum : (n + 1) * ps = n * ps + ps := Nat.succ_mul n ps
  have hwithin : ∀ q, q ∈ places ps a (n + 1) → a ≤ q ∧ q + ps ≤ a + (n + 1) * ps := by
    intro q hq
    obtain ⟨j, hj, rfl⟩ := mem_places.mp hq
    have hle : j * ps ≤ n * ps := Nat.mul_le_mul_right ps (by omega)
    omega
  have hnotin : ∀ q, q ∈ F → q ∉ places ps a (n + 1) := by
    intro q hq hin
    have h1 := hwithin q hin
    rcases hapart q hq with h | h <;> omega
  have hfirst : ∀ q, q ∈ places ps a n → q ∈ places ps a (n + 1) := by
    intro q hq
    rw [places_snoc]
    exact List.mem_append_left _ hq
  have htail : a + n * ps ∈ places ps a (n + 1) := by
    rw [places_snoc]
    exact List.mem_append_right _ (List.mem_cons_self ..)
  -- the new links stay within the run
  have hmem1 : ∀ x, x ∉ places ps a (n + 1) → linkUpto ps (a + n * ps) a mem x = mem x := by
    intro x hx
    rw [linkUpto_apply hps rfl, if_neg fun hin => hx (hfirst x hin)]
  have hF1 : Chain 0 (linkUpto ps (a + n * ps) a mem) 0 freelist F :=
    chain_congr hF fun q hq => hmem1 q (hnotin q hq)
  have haF : a ∉ F := fun hin => hnotin a hin (List.mem_cons_self ..)
  obtain ⟨G1, G2, next, last, rfl, hfind, hG1, hG2, hc1, hc2, hlast⟩ :=
    @findPlace_spec (linkUpto ps (a + n * ps) a mem) a (np + 1) freelist 0 F hF1
      (by omega) haF hsorted
  refine ⟨next, last, hfind, G1 ++ (places ps a (n + 1) ++ G2), _, rfl, ?_, ?_, ?_, ?_⟩
  · have hrun : Chain 0 (Function.update (linkUpto ps (a + n * ps) a mem)
        (a + n * ps) next) next a (places ps a (n + 1)) := chain_linkUpto hps ha rfl
    have htail1 : a + n * ps ∉ G1 := fun hin =>
      hnotin _ (List.mem_append_left _ hin) htail
    have htail2 : a + n * ps ∉ G2 := fun hin =>
      hnotin _ (List.mem_append_right _ hin) htail
    have hbefore := chain_update (u := next) hc1 htail1
    have hbehind := chain_update (u := next) hc2 htail2
    have hnodup := List.nodup_append.mp (hsorted.imp fun hlt => Nat.ne_of_lt hlt)
    -- in front of all free pages, or behind some of them
    by_cases h0 : last ≠ 0
    · rw [if_pos h0, if_pos h0]
      rcases hlast with ⟨-, hlast⟩ | ⟨G0, rfl⟩
      · exact absurd hlast h0
      have hin : last ∈ G0 ++ [last] := List.mem_append_right _ (List.mem_cons_self ..)
      have hlast0 : last ∉ G0 := fun h =>
        (List.nodup_append.mp hnodup.1).2.2 last h last (List.mem_cons_self ..) rfl
      have hlast1 : last ∉ places ps a (n + 1) :=
        hnotin last (List.mem_append_left _ hin)
      have hlast2 : last ∉ G2 := fun h => hnodup.2.2 last hin last h rfl
      refine chain_append.mpr ⟨a, chain_redirect hbefore hlast0, ?_⟩
      exact chain_append.mpr ⟨next, chain_update hrun hlast1, chain_update hbehind hlast2⟩
    · rw [if_neg h0, if_neg h0]
      rcases hlast with ⟨rfl, -⟩ | ⟨G0, rfl⟩
      · show Chain 0 _ 0 a (places ps a (n + 1) ++ G2)
        exact chain_append.mpr ⟨next, hrun, hbehind⟩
      · have hin : last ∈ G0 ++ [last] :=
          List.mem_append_right _ (List.mem_cons_self ..)
        exact absurd (chain_ne_null hc1 hin) h0
  · obtain ⟨hsorted1, hsorted2, hcross⟩ := List.pairwise_append.mp hsorted
    refine List.pairwise_append.mpr ⟨hsorted1, List.pairwise_append.mpr
      ⟨places_sorted hps a (n + 1), hsorted2, fun q hq q' hq' => ?_⟩,
      fun q hq q' hq' => ?_⟩
    · have h1 := hwithin q hq
      have h2 := hG2 q' hq'
      rcases hapart q' (List.mem_append_right _ hq') with h | h <;> omega
    · rcases List.mem_append.mp hq' with hq' | hq'
      · have h1 := hwithin q' hq'
        have h2 := hG1 q hq
        omega
      · exact hcross q hq q' hq'
  · intro q
    rw [List.mem_append, List.mem_append, List.mem_append]
    tauto
  · intro x hxF hx
    have htail0 : x ≠ a + n * ps := by
      rintro rfl
      exact hx htail
    have hbase : Function.update (linkUpto ps (a + n * ps) a mem) (a + n * ps) next x =
        mem x := (Function.update_of_ne htail0 ..).trans (hmem1 x hx)
    by_cases h0 : last ≠ 0
    · rw [if_pos h0]
      have hne : x ≠ last := by
        rintro rfl
        rcases hlast with ⟨-, hlast⟩ | ⟨G0, rfl⟩
        · exact h0 hlast
        · refine hxF (List.mem_append_left _ (List.mem_append_right _ ?_))
          exact List.mem_cons_self ..
      exact (Function.update_of_ne hne ..).trans hbase
    · rw [if_neg h0]
      exact hbase

/-- The pages of a run are free again. -/
structure Again (ps : Nat) (e : Extent) (F : List Nat) (p i m : Nat) (e' : Extent)
    (G : List Nat) : Prop where
  base : e'.membase = e.membase
  freed : ∀ j, i ≤ j → j < i + m → e'.pagemap j = RTHEAP_PFREE
  other : ∀ j, j < i ∨ i + m ≤ j → e'.pagemap j = e.pagemap j
  pages : ∀ q, q ∈ G ↔ q ∈ F ∨ q ∈ places ps p m

/-- **Whole pages go back to the free list** of their extent. -/
theorem return_pages (J : Inv heap mem live xs B) (hb : b ∈ live)
    (hxs : xs = pre ++ (e, F) :: post) (hm : 0 < m)
    (hp : Placed heap.pagesize heap.npages e.pagemap RTHEAP_PLIST i m 0 (m * heap.pagesize))
    (hat : b.addr = e.membase + i * heap.pagesize)
    (hsize : b.size = m * heap.pagesize)
    (hguard : i + m = heap.npages → 0 < i → e.pagemap heap.npages ≠ RTHEAP_PCONT) :
    ∃ e' mem' G, freeRun heap mem e i b.addr = some (m * heap.pagesize, e', mem') ∧
      Inv { heap with
          extents := pre.map Prod.fst ++ e' :: post.map Prod.fst
          ubytes := heap.ubytes - m * heap.pagesize } mem' (live.erase b)
        (pre ++ (e', G) :: post) B ∧
      Again heap.pagesize e F b.addr i m e' G := by
  subst hxs
  have hps := J.geometry.pos
  have hx : (e, F) ∈ pre ++ (e, F) :: post :=
    List.mem_append_right _ (List.mem_cons_self ..)
  have hfree : FreeList heap.pagesize heap.npages mem e F := J.free (e, F) hx
  have hbase := (J.pages e (J.ext_mem hx)).base
  -- the length of the run
  have hcount : countRun heap e i heap.npages 1 = m := by
    have hpages := hp.pages
    refine countRun_spec hm (by omega) (by omega)
      (fun j hj hj' => hp.cont (i + j) (by omega) (by omega)) fun hlt => ?_
    by_cases hend : i + m = heap.npages
    · rw [hend]
      exact hguard hend (by omega)
    · exact hp.stop (by omega)
  obtain ⟨n, rfl⟩ : ∃ n, m = n + 1 := ⟨m - 1, by omega⟩
  have htailpage : b.addr + (n + 1) * heap.pagesize - heap.pagesize =
      b.addr + n * heap.pagesize := by
    rw [Nat.succ_mul]
    omega
  have hapart : ∀ q ∈ F, Apart q heap.pagesize b.addr ((n + 1) * heap.pagesize) := by
    intro q hq
    have h := J.free_apart hb hx hq
    rw [hsize] at h
    exact Or.symm h
  obtain ⟨next, last, hfind, G, mem', hmem', hchain, hsorted, hG, hkept⟩ :=
    @insert_run mem F heap.pagesize heap.npages e.freelist b.addr n hfree.chain
      hfree.sorted hfree.length_le (by omega) hps hapart
  have hother : ∀ x, x ∉ F → (x < b.addr ∨ b.addr + b.size ≤ x) → mem' x = mem x := by
    intro x hxF hx
    refine hkept x hxF fun hin => ?_
    obtain ⟨j, hj, rfl⟩ := mem_places.mp hin
    have hlt : j * heap.pagesize < (n + 1) * heap.pagesize :=
      Nat.mul_lt_mul_of_pos_right hj hps
    omega
  have hfreemap : ∀ j, i ≤ j → j < i + (n + 1) → (if i ≤ j ∧ j < i + (n + 1) then
      RTHEAP_PFREE else e.pagemap j) = RTHEAP_PFREE :=
    fun j hj hj' => if_pos ⟨hj, hj'⟩
  have hothermap : ∀ j, j < i ∨ i + (n + 1) ≤ j → (if i ≤ j ∧ j < i + (n + 1) then
      RTHEAP_PFREE else e.pagemap j) = e.pagemap j :=
    fun j hj => if_neg (by omega)
  generalize hmap : (fun j => if i ≤ j ∧ j < i + (n + 1) then RTHEAP_PFREE
    else e.pagemap j) = map
  have hfreed : ∀ j, i ≤ j → j < i + (n + 1) → map j = RTHEAP_PFREE := by
    rw [← hmap]
    exact hfreemap
  have hsame : ∀ j, j < i ∨ i + (n + 1) ≤ j → map j = e.pagemap j := by
    rw [← hmap]
    exact hothermap
  have hkeep : ∀ {tag j m' off s : Nat}, Placed heap.pagesize heap.npages e.pagemap
      tag j m' off s → j ≠ i → Placed heap.pagesize heap.npages map tag j m' off s :=
    fun h hne => h.freed hp hne hfreed hsame
  have htag : ∀ {tag j m' off s : Nat}, Placed heap.pagesize heap.npages e.pagemap
      tag j m' off s → tag ≠ RTHEAP_PLIST → j ≠ i := by
    rintro tag j m' off s h hne rfl
    exact hne (h.head.symm.trans hp.head)
  generalize hlist : (if last ≠ 0 then e.freelist else b.addr) = freelist at hchain
  have hrest : FreeList heap.pagesize heap.npages mem'
      { e with pagemap := map, freelist := freelist } G := by
    refine ⟨hchain, hsorted, fun q hq => ?_⟩
    rcases (hG q).mp hq with hq | hq
    · obtain ⟨j, hj, hat'⟩ := hfree.placed q hq
      exact ⟨j, hkeep hj (htag hj (by decide)), hat'⟩
    · obtain ⟨j, hj, rfl⟩ := mem_places.mp hq
      refine ⟨i + j, hp.free_page hfreed hsame (by omega) (by omega), ?_⟩
      rw [hat, Nat.add_mul, Nat.add_assoc]
  have hinheap : ∀ {tag a s : Nat}, InHeap heap.pagesize heap.npages heap.extents
      tag a s → (tag = RTHEAP_PLIST → a ≠ b.addr) →
      InHeap heap.pagesize heap.npages (pre.map Prod.fst ++
        { e with pagemap := map, freelist := freelist } :: post.map Prod.fst) tag a s := by
    intro tag a s h hne
    rw [J.exts, List.map_append, List.map_cons] at h
    refine h.replace rfl fun j m' off hp' ha => hkeep hp' ?_
    rintro rfl
    have htag := hp'.head.symm.trans hp.head
    refine hne htag ?_
    rw [ha, hat, (hp'.run htag).1]
    rfl
  refine ⟨{ e with pagemap := map, freelist := freelist }, mem', G, ?_, ?_,
    rfl, hfreed, hsame, hG⟩
  · simp only [freeRun, hcount, htailpage, hfind, hmap]
    rw [← hlist, hmem']
    by_cases h0 : last ≠ 0
    · rw [if_pos h0, if_pos h0]
      exact if_pos h0
    · rw [if_neg h0, if_neg h0]
      exact if_neg h0
  · have J1 := release J hb
    have hexts := J.exts
    have hpgs := J.pages
    have haps := J.apart
    rw [hexts, List.map_append, List.map_cons] at hpgs haps
    rw [hsize] at J1
    exact { J1 with
      exts := by
        rw [List.map_append, List.map_cons]
      pages := pages_replace hpgs rfl rfl rfl
      apart := apart_replace haps rfl rfl
      free := by
        intro x hx'
        have hside : ∀ x ∈ pre ++ (e, F) :: post, (x ∈ pre ∨ x ∈ post) →
            FreeList heap.pagesize heap.npages mem' x.1 x.2 := by
          intro x hx' hside
          refine { J.free x hx' with
            chain := chain_congr (J.free x hx').chain fun q hq => ?_ }
          refine hother q (other_list J.free_nodup hside hq) ?_
          rcases J.free_apart hb hx' hq with h | h <;> omega
        rcases List.mem_append.mp hx' with hpre | hpost
        · exact hside x (List.mem_append_left _ hpre) (Or.inl hpre)
        · cases hpost with
          | head => exact hrest
          | tail _ hpost =>
            exact hside x (List.mem_append_right _ (List.mem_cons_of_mem _ hpost))
              (Or.inr hpost)
      bucket := by
        intro c
        refine chain_congr (J.bucket c) fun a ha => ?_
        refine hother a (J.bucket_not_free ha hx) ?_
        have hpos : 0 < 2 ^ (c + RTHEAP_MINLOG2) := Nat.pow_pos (Nat.succ_pos 1)
        rcases J.bucket_apart hb ha with h | h <;> omega
      bucket_placed := fun c a ha =>
        hinheap (J.bucket_placed c a ha) fun h2 => absurd h2 (by
          rw [RTHEAP_MINLOG2, RTHEAP_PLIST]
          omega)
      live_placed := by
        intro d hd
        obtain ⟨tag, htag, h⟩ := J.live_placed d (List.mem_of_mem_erase hd)
        exact ⟨tag, htag, hinheap h fun _ => erased_ne J hb hd⟩ }

/-- A block goes back to its bucket, or a run to the free list of its extent. -/
inductive Returned (ps np : Nat) (xs : List (Extent × List Nat)) (B : Nat → List Nat)
    (b : Block) : List (Extent × List Nat) → (Nat → List Nat) → Prop where
  | block (c : Nat) (hsize : b.size = 2 ^ (c + RTHEAP_MINLOG2)) (hle : b.size ≤ 2 * ps) :
      Returned ps np xs B b xs (Function.update B c (b.addr :: B c))
  | run (pre post : List (Extent × List Nat)) (e : Extent) (F : List Nat) (i m : Nat)
      (e' : Extent) (G : List Nat) (hlarge : 2 * ps < b.size) (hsize : b.size = m * ps)
      (hat : b.addr = e.membase + i * ps) (hxs : xs = pre ++ (e, F) :: post)
      (hin : i + m ≤ np) (hagain : Again ps e F b.addr i m e' G) :
      Returned ps np xs B b (pre ++ (e', G) :: post) B

end Free

end RtaiHeapFree
