import Rtai.Heap
import Rtai.Chains

/-! # The loops of the allocator

    Each loop goes along a chain of pages or blocks: it links the places of a
    run, finds a run in a free list, or finds where a run is to go. -/

namespace RtaiHeapLoops

open RtaiHeap RtaiChains

/-! ## Linking a run -/

/-- Places at equal distances. -/
def places (stride : Nat) : Nat → Nat → List Nat
  | _, 0 => []
  | a, n + 1 => a :: places stride (a + stride) n

theorem mem_places {stride n a x : Nat} :
    x ∈ places stride a n ↔ ∃ j, j < n ∧ x = a + j * stride := by
  induction n generalizing a with
  | zero =>
    constructor
    · exact nofun
    · rintro ⟨j, hj, -⟩
      omega
  | succ n ih =>
    rw [places, List.mem_cons, ih]
    constructor
    · rintro (rfl | ⟨j, hj, rfl⟩)
      · exact ⟨0, by omega, by omega⟩
      · exact ⟨j + 1, by omega, by rw [Nat.succ_mul]; omega⟩
    · rintro ⟨j, hj, rfl⟩
      cases j with
      | zero => exact Or.inl (by omega)
      | succ j => exact Or.inr ⟨j, by omega, by rw [Nat.succ_mul]; omega⟩

theorem places_snoc (stride a n : Nat) :
    places stride a (n + 1) = places stride a n ++ [a + n * stride] := by
  induction n generalizing a with
  | zero =>
    rw [Nat.zero_mul]
    rfl
  | succ n ih =>
    rw [places, ih (a + stride), places, Nat.succ_mul]
    refine congrArg (a :: ·) (congrArg (_ ++ ·) ?_)
    rw [Nat.add_assoc, Nat.add_comm stride]

theorem length_places (stride a n : Nat) : (places stride a n).length = n := by
  induction n generalizing a with
  | zero => rfl
  | succ n ih => exact congrArg (· + 1) (ih (a + stride))

theorem places_sorted {stride : Nat} (h : 0 < stride) (a n : Nat) :
    (places stride a n).Pairwise (· < ·) := by
  induction n generalizing a with
  | zero => exact List.Pairwise.nil
  | succ n ih =>
    refine List.Pairwise.cons (fun x hx => ?_) (ih (a + stride))
    obtain ⟨j, -, rfl⟩ := mem_places.mp hx
    omega

/-- A chain of places. -/
theorem chain_places {mem : Mem} {stride a n : Nat} (ha : 0 < a)
    (h : ∀ j, j < n → mem (a + j * stride) = a + j * stride + stride) :
    Chain 0 mem (a + n * stride) a (places stride a n) := by
  induction n generalizing a with
  | zero =>
    rw [Nat.zero_mul]
    rfl
  | succ n ih =>
    have hfirst : mem a = a + stride := by
      have h0 := h 0 (Nat.succ_pos n)
      rw [Nat.zero_mul] at h0
      exact h0
    refine ⟨rfl, Nat.ne_of_gt ha, ?_⟩
    rw [hfirst, Nat.succ_mul, Nat.add_comm (n * stride), ← Nat.add_assoc]
    refine ih (by omega) fun j hj => ?_
    have hnext := h (j + 1) (by omega)
    rw [Nat.succ_mul, Nat.add_comm (j * stride), ← Nat.add_assoc] at hnext
    exact hnext

theorem linkLoop_apply {stride limit fuel block n x : Nat} {mem : Mem}
    (hstride : 0 < stride) (hlim : limit = block + n * stride) (hfuel : n ≤ fuel) :
    linkLoop stride limit fuel block mem x =
      if x ∈ places stride block n then x + stride else mem x := by
  induction fuel generalizing block n mem with
  | zero =>
    have hn : n = 0 := by omega
    subst hn
    rfl
  | succ fuel ih =>
    rw [linkLoop]
    cases n with
    | zero =>
      rw [if_neg (by omega)]
      rfl
    | succ n =>
      have hmore : block < limit := by
        rw [hlim, Nat.succ_mul]
        omega
      have hlim' : limit = block + stride + n * stride := by
        rw [hlim, Nat.succ_mul]
        omega
      rw [if_pos hmore, ih hlim' (by omega)]
      by_cases hx : x = block
      · subst hx
        have hno : x ∉ places stride (x + stride) n := by
          intro hin
          obtain ⟨j, -, hj⟩ := mem_places.mp hin
          omega
        have hin : x ∈ places stride x (n + 1) := List.mem_cons_self ..
        rw [if_neg hno, if_pos hin, Function.update_self]
      · rw [Function.update_of_ne hx]
        refine if_congr ?_ rfl rfl
        rw [places, List.mem_cons]
        exact ⟨Or.inr, fun h => h.resolve_left hx⟩

theorem linkUpto_apply {stride limit block n x : Nat} {mem : Mem}
    (hstride : 0 < stride) (hlim : limit = block + n * stride) :
    linkUpto stride limit block mem x =
      if x ∈ places stride block n then x + stride else mem x := by
  refine linkLoop_apply hstride hlim ?_
  have hle : n * 1 ≤ n * stride := Nat.mul_le_mul_left n hstride
  omega

/-- **Linking a run**, up to its last place. -/
theorem chain_linkUpto {stride limit block n t : Nat} {mem : Mem}
    (hstride : 0 < stride) (hblock : 0 < block) (hlim : limit = block + n * stride) :
    Chain 0 (Function.update (linkUpto stride limit block mem) limit t) t block
      (places stride block (n + 1)) := by
  rw [places_snoc, ← hlim]
  refine chain_snoc.mpr ⟨?_, by omega, Function.update_self ..⟩
  have hchain : Chain 0 (linkUpto stride limit block mem) limit block
      (places stride block n) := by
    rw [hlim]
    refine chain_places hblock fun j hj => ?_
    rw [linkUpto_apply hstride rfl]
    exact if_pos (mem_places.mpr ⟨j, hj, rfl⟩)
  refine chain_update hchain fun hin => ?_
  obtain ⟨j, hj, he⟩ := mem_places.mp hin
  have hlt : j * stride < n * stride := Nat.mul_lt_mul_of_pos_right hj hstride
  omega

/-! ## A run in a free list -/

section Search

variable {heap : Rtheap} {mem : Mem} {bsize : Nat}

/-- **The inner loop** goes along a run. -/
theorem runLoop_spec {fuel freepage freecont : Nat} {G : List Nat}
    (hG : Chain 0 mem 0 freepage (freepage :: G)) (hfuel : G.length < fuel) :
    ∃ n G', freepage :: G = places heap.pagesize freepage (n + 1) ++ G' ∧
      runLoop heap mem bsize fuel freepage freecont =
        some (freepage + n * heap.pagesize, mem (freepage + n * heap.pagesize),
          freecont + (n + 1) * heap.pagesize) ∧
      (n = 0 ∨ freecont + n * heap.pagesize < bsize) ∧
      (bsize ≤ freecont + (n + 1) * heap.pagesize ∨ mem (freepage + n * heap.pagesize) ≠
          freepage + n * heap.pagesize + heap.pagesize) := by
  induction fuel generalizing freepage freecont G with
  | zero => exact absurd hfuel (Nat.not_lt_zero _)
  | succ fuel ih =>
    rw [runLoop]
    obtain ⟨-, hpage, hG⟩ := hG
    split
    · next hmore =>
        -- the next page is the next element
        obtain ⟨hnext, hcont⟩ := hmore
        have hne : mem freepage ≠ 0 := by omega
        obtain ⟨G1, rfl, -⟩ := chain_cons_of_ne hG hne
        have hlen : G1.length < fuel := by
          rw [List.length_cons] at hfuel
          omega
        obtain ⟨n, G', hn, hrun, hlast, hstop⟩ :=
          @ih (mem freepage) (freecont + heap.pagesize) G1 hG hlen
        rw [hnext] at hn hrun hstop
        have hat : freepage + heap.pagesize + n * heap.pagesize =
            freepage + (n + 1) * heap.pagesize := by
          rw [Nat.succ_mul]
          omega
        have hsum : freecont + heap.pagesize + (n + 1) * heap.pagesize =
            freecont + (n + 1 + 1) * heap.pagesize := by
          rw [Nat.succ_mul (n + 1)]
          omega
        rw [hat, hsum] at hrun hstop
        refine ⟨n + 1, G', ?_, ?_, Or.inr ?_, hstop⟩
        · rw [hnext, hn]
          rfl
        · rw [hnext]
          exact hrun
        · rcases hlast with rfl | hlast
          · rw [Nat.zero_add, Nat.one_mul]
            exact hcont
          · rw [Nat.succ_mul]
            omega
    · next hdone =>
        refine ⟨0, G, rfl, ?_, Or.inl rfl, ?_⟩
        · rw [Nat.zero_mul, Nat.zero_add, Nat.one_mul]
          rfl
        · rw [Nat.zero_mul, Nat.zero_add, Nat.one_mul, Nat.add_zero]
          by_cases hlt : freecont + heap.pagesize < bsize
          · exact Or.inr fun hnext => hdone ⟨hnext, hlt⟩
          · exact Or.inl (Nat.not_lt.mp hlt)

/-- What a search in a free list finds: a run of free pages that is as long as
    it has to be, and `freehead` before it. -/
structure Found (ps bsize : Nat) (G : List Nat) (freehead' headpage lastpage : Nat)
    (freehead : Nat) (G1 : List Nat) (n : Nat) (G2 : List Nat) : Prop where
  split : G = G1 ++ (places ps headpage (n + 1) ++ G2)
  last : lastpage = headpage + n * ps
  enough : bsize ≤ (n + 1) * ps
  least : n = 0 ∨ n * ps < bsize
  before : (G1 = [] ∧ freehead' = freehead) ∨ ∃ G0, G1 = G0 ++ [freehead']

/-- **The outer loop** goes from run to run. -/
theorem searchExtent_spec {fuel freepage freehead : Nat} {G : List Nat}
    (hG : Chain 0 mem 0 freepage G) (hfuel : G.length < fuel)
    (hlen : G.length ≤ heap.npages) :
    ∃ freehead' found, searchExtent heap mem bsize fuel freepage freehead =
        some (freehead', found) ∧
      ∀ headpage lastpage, found = some (headpage, lastpage) →
        ∃ G1 n G2, Found heap.pagesize bsize G freehead' headpage lastpage
          freehead G1 n G2 := by
  induction fuel generalizing freepage freehead G with
  | zero => exact absurd hfuel (Nat.not_lt_zero _)
  | succ fuel ih =>
    rw [searchExtent]
    by_cases h0 : freepage = 0
    · rw [if_pos h0]
      exact ⟨freehead, none, rfl, fun _ _ h => nomatch h⟩
    rw [if_neg h0]
    obtain ⟨G', rfl, hG'⟩ := chain_cons_of_ne hG h0
    rw [List.length_cons] at hfuel hlen
    obtain ⟨n, G2, hn, hrun, hleast, -⟩ :=
      @runLoop_spec heap mem bsize (heap.npages + 1) freepage 0 G' hG (by omega)
    rw [Nat.zero_add] at hrun hleast
    rw [hrun]
    dsimp only [Option.bind_eq_bind, Option.bind_some]
    by_cases henough : (n + 1) * heap.pagesize ≥ bsize
    · rw [if_pos henough]
      refine ⟨freehead, _, rfl, fun headpage lastpage h => ?_⟩
      cases h
      exact ⟨[], n, G2, ⟨hn, rfl, henough, hleast, Or.inl ⟨rfl, rfl⟩⟩⟩
    · rw [if_neg henough]
      -- what is left of the list, with the last page of this run before it
      have hrest : Chain 0 mem 0 (mem (freepage + n * heap.pagesize)) G2 := by
        rw [hn, places_snoc, List.append_assoc] at hG
        obtain ⟨u, -, hlast⟩ := chain_append.mp hG
        obtain ⟨rfl, -, hlast⟩ := hlast
        exact hlast
      have hsum : G'.length + 1 = n + 1 + G2.length := by
        have hlen := congrArg List.length hn
        rw [List.length_cons, List.length_append, length_places] at hlen
        exact hlen
      obtain ⟨freehead', found, hfound, hspec⟩ :=
        @ih _ (freepage + n * heap.pagesize) G2 hrest (by omega) (by omega)
      refine ⟨freehead', found, hfound, fun headpage lastpage h => ?_⟩
      obtain ⟨G1, k, G3, hf⟩ := hspec headpage lastpage h
      refine ⟨places heap.pagesize freepage (n + 1) ++ G1, k, G3, ?_, hf.last,
        hf.enough, hf.least, Or.inr ?_⟩
      · rw [hn, hf.split, List.append_assoc]
      · rcases hf.before with ⟨rfl, rfl⟩ | ⟨G0, rfl⟩
        · refine ⟨places heap.pagesize freepage n, ?_⟩
          rw [List.append_nil, places_snoc]
        · exact ⟨_, (List.append_assoc ..).symm⟩

/-- **Unlinking** the run. -/
theorem unlinkRange_spec {extent : Extent} {F G1 G2 : List Nat}
    {freehead₀ freehead headpage lastpage n : Nat} (hF : Chain 0 mem 0 extent.freelist F)
    (hnodup : F.Nodup)
    (hfound : Found heap.pagesize bsize F freehead headpage lastpage freehead₀ G1 n G2) :
    ∃ freelist mem', unlinkRange extent mem headpage lastpage freehead =
        ({ extent with freelist := freelist }, mem') ∧
      Chain 0 mem' 0 freelist (G1 ++ G2) ∧
      ∀ x, x ∉ G1 → mem' x = mem x := by
  obtain ⟨rfl, rfl, -, -, hbefore⟩ := hfound
  obtain ⟨u, hG1, hrest⟩ := chain_append.mp hF
  rw [places_snoc, List.append_assoc] at hrest
  obtain ⟨v, hrun, hlast⟩ := chain_append.mp hrest
  obtain ⟨rfl, hne, hG2⟩ := hlast
  have hu : u = headpage := by
    cases n with
    | zero =>
      have hu : u = headpage + 0 * heap.pagesize := hrun
      rw [hu, Nat.zero_mul]
      rfl
    | succ n => exact hrun.1
  rcases hbefore with ⟨rfl, -⟩ | ⟨G0, rfl⟩
  · have hhead : headpage = extent.freelist := hu.symm.trans (Eq.symm hG1)
    refine ⟨_, mem, ?_, hG2, fun _ _ => rfl⟩
    rw [unlinkRange, if_pos hhead]
  · -- the head of the list is another page
    have hhead : headpage ≠ extent.freelist := by
      intro he
      have hin : headpage ∈ G0 ++ [freehead] := by
        rw [he]
        cases G0 with
        | nil => exact hG1.1 ▸ List.mem_cons_self ..
        | cons x G0 => exact hG1.1 ▸ List.mem_cons_self ..
      have hin' : headpage ∈ places heap.pagesize headpage (n + 1) ++ G2 :=
        List.mem_append_left _ (List.mem_cons_self ..)
      exact (List.nodup_append.mp hnodup).2.2 _ hin _ hin' rfl
    have hfree : freehead ∉ G0 := by
      intro hin
      have hG0 := (List.nodup_append.mp hnodup).1
      exact (List.nodup_append.mp hG0).2.2 _ hin _ (List.mem_cons_self ..) rfl
    have hfree2 : freehead ∉ G2 := by
      intro hin
      refine (List.nodup_append.mp hnodup).2.2 freehead
        (List.mem_append_right _ (List.mem_cons_self ..)) freehead ?_ rfl
      exact List.mem_append_right _ hin
    refine ⟨extent.freelist, Function.update mem freehead
      (mem (headpage + n * heap.pagesize)), ?_, ?_, fun x hx => ?_⟩
    · rw [unlinkRange, if_neg hhead]
    · exact chain_append.mpr ⟨_, chain_redirect hG1 hfree, chain_update hG2 hfree2⟩
    · refine Function.update_of_ne (fun he => hx ?_) ..
      rw [he]
      exact List.mem_append_right _ (List.mem_cons_self ..)

/-- A range is taken out of an extent. -/
def takeRange (heap : Rtheap) (extent : Extent) (mem : Mem)
    (headpage lastpage freehead bsize log2size : Nat) : Extent × Mem :=
  let unlinked := unlinkRange extent mem headpage lastpage freehead
  splitpage heap unlinked.1 unlinked.2 headpage bsize log2size

/-- **The search** of all extents ends, and finds a run in one of them. -/
theorem getFreeRange_spec {log2size freehead : Nat} {xs : List (Extent × List Nat)}
    (hxs : ∀ x ∈ xs, Chain 0 mem 0 x.1.freelist x.2 ∧ x.2.length ≤ heap.npages) :
    ∃ range, getFreeRange heap mem bsize log2size (xs.map Prod.fst) freehead = some range ∧
      ∀ headpage exts mem', range = some (headpage, exts, mem') →
        ∃ pre e F post freehead₀ freehead' lastpage G1 n G2, xs = pre ++ (e, F) :: post ∧
          Found heap.pagesize bsize F freehead' headpage lastpage freehead₀ G1 n G2 ∧
          exts = pre.map Prod.fst ++ (takeRange heap e mem headpage lastpage
            freehead' bsize log2size).1 :: post.map Prod.fst ∧
          mem' = (takeRange heap e mem headpage lastpage freehead' bsize log2size).2 := by
  induction xs generalizing freehead with
  | nil => exact ⟨none, rfl, fun _ _ _ h => nomatch h⟩
  | cons x xs ih =>
    obtain ⟨e, F⟩ := x
    obtain ⟨hF, hlen⟩ := hxs (e, F) (List.mem_cons_self ..)
    obtain ⟨freehead', found, hsearch, hfound⟩ :=
      @searchExtent_spec heap mem bsize (heap.npages + 1) e.freelist freehead F hF
        (Nat.lt_succ_of_le hlen) hlen
    rw [List.map_cons, getFreeRange, hsearch]
    dsimp only [Option.bind_eq_bind, Option.bind_some]
    cases found with
    | some found =>
      obtain ⟨headpage, lastpage⟩ := found
      refine ⟨_, rfl, fun headpage' exts mem' h => ?_⟩
      cases h
      obtain ⟨G1, n, G2, hf⟩ := hfound headpage lastpage rfl
      exact ⟨[], e, F, xs, freehead, freehead', lastpage, G1, n, G2, rfl, hf,
        rfl, rfl⟩
    | none =>
      obtain ⟨range, hrange, hspec⟩ :=
        @ih freehead' fun x hx => hxs x (List.mem_cons_of_mem _ hx)
      refine ⟨range.map fun x => (x.1, e :: x.2.1, x.2.2), ?_, fun headpage exts mem' h => ?_⟩
      · dsimp only
        rw [hrange]
        rfl
      · obtain ⟨⟨headpage', exts', mem''⟩, rfl, heq⟩ := Option.map_eq_some_iff.mp h
        cases heq
        obtain ⟨pre, d, D, post, freehead₀, fh, lastpage, G1, n, G2, rfl, hf,
          hexts, hmem⟩ := hspec headpage' exts' mem'' rfl
        refine ⟨(e, F) :: pre, d, D, post, freehead₀, fh, lastpage, G1, n, G2,
          rfl, hf, ?_, hmem⟩
        rw [hexts]
        rfl

/-- **Where a run is to go** in a free list. -/
theorem findPlace_spec {block fuel nextpage lastpage : Nat} {G : List Nat}
    (hG : Chain 0 mem 0 nextpage G) (hfuel : G.length < fuel) (hblock : block ∉ G)
    (hsorted : G.Pairwise (· < ·)) :
    ∃ G1 G2 next last, G = G1 ++ G2 ∧
      findPlace mem block fuel nextpage lastpage = some (next, last) ∧
      (∀ x ∈ G1, x < block) ∧ (∀ x ∈ G2, block < x) ∧
      Chain 0 mem next nextpage G1 ∧ Chain 0 mem 0 next G2 ∧
      ((G1 = [] ∧ last = lastpage) ∨ ∃ G0, G1 = G0 ++ [last]) := by
  induction fuel generalizing nextpage lastpage G with
  | zero => exact absurd hfuel (Nat.not_lt_zero _)
  | succ fuel ih =>
    rw [findPlace]
    by_cases hmore : nextpage ≠ 0 ∧ nextpage < block
    · rw [if_pos hmore]
      obtain ⟨hne, hlt⟩ := hmore
      obtain ⟨G', rfl, hG'⟩ := chain_cons_of_ne hG hne
      rw [List.length_cons] at hfuel
      obtain ⟨-, hsorted'⟩ := List.pairwise_cons.mp hsorted
      obtain ⟨G1, G2, next, last, rfl, hfind, hG1, hG2, hc1, hc2, hlast⟩ :=
        @ih _ nextpage G' hG' (by omega)
          (fun hin => hblock (List.mem_cons_of_mem _ hin)) hsorted'
      refine ⟨nextpage :: G1, G2, next, last, rfl, hfind, fun x hx => ?_, hG2,
        ⟨rfl, hne, hc1⟩, hc2, Or.inr ?_⟩
      · cases hx with
        | head => exact hlt
        | tail _ hx => exact hG1 x hx
      · rcases hlast with ⟨rfl, rfl⟩ | ⟨G0, rfl⟩
        · exact ⟨[], rfl⟩
        · exact ⟨nextpage :: G0, rfl⟩
    · rw [if_neg hmore]
      refine ⟨[], G, nextpage, lastpage, rfl, rfl, fun _ h => (nomatch h), ?_,
        rfl, hG, Or.inl ⟨rfl, rfl⟩⟩
      intro x hx
      cases G with
      | nil => exact nomatch hx
      | cons y G =>
        obtain ⟨rfl, hne, -⟩ := hG
        have hy : block ≠ nextpage := fun he =>
          hblock (he ▸ List.mem_cons_self ..)
        cases hx with
        | head => omega
        | tail _ hx =>
          have hlt := (List.pairwise_cons.mp hsorted).1 x hx
          omega

end Search

end RtaiHeapLoops
