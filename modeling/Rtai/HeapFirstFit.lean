import Rtai.HeapComplete

/-! # The first fit

    The search goes along the runs of a free list.  A run that is too short is
    left behind as a whole, and since the list is sorted, no page of it starts a
    longer one. -/

namespace RtaiHeapFirstFit

open RtaiHeap RtaiChains RtaiHeapLoops
/-! ## In a free list -/

/-- The pages of the list from `q` on are a run that is long enough. -/
def RunAt (ps bsize : Nat) (G : List Nat) (q : Nat) : Prop :=
  ∃ m, 0 < m ∧ bsize ≤ m * ps ∧ ∀ j, j < m → q + j * ps ∈ G

/-- Pages of an extent, in order. -/
structure InOrder (ps base : Nat) (G : List Nat) : Prop where
  sorted : G.Pairwise (· < ·)
  pages : ∀ q ∈ G, ∃ i, q = base + i * ps

section Search

variable {heap : Rtheap} {mem : Mem} {ps base bsize n q freepage : Nat} {G G2 : List Nat}

theorem InOrder.rest {G1 : List Nat} (h : InOrder ps base (G1 ++ G2)) :
    InOrder ps base G2 where
  sorted := (List.pairwise_append.mp h.sorted).2.1
  pages := fun q hq => h.pages q (List.mem_append_right _ hq)

/-- A page behind another is a page further, or more. -/
theorem InOrder.next (h : InOrder ps base G) {x y : Nat} (hx : x ∈ G) (hy : y ∈ G)
    (hlt : x < y) : x + ps ≤ y := by
  obtain ⟨i, rfl⟩ := h.pages x hx
  obtain ⟨j, rfl⟩ := h.pages y hy
  have hij : i < j := by
    by_contra hge
    have hle : j * ps ≤ i * ps := Nat.mul_le_mul_right ps (by omega)
    omega
  have hle : (i + 1) * ps ≤ j * ps := Nat.mul_le_mul_right ps hij
  rw [Nat.succ_mul] at hle
  omega

/-- What is behind a run has its own runs. -/
theorem RunAt.rest {G1 : List Nat} (h : InOrder ps base (G1 ++ G2)) (hq : q ∈ G2)
    (hrun : RunAt ps bsize (G1 ++ G2) q) : RunAt ps bsize G2 q := by
  obtain ⟨m, hm, henough, hin⟩ := hrun
  refine ⟨m, hm, henough, fun j hj => ?_⟩
  rcases List.mem_append.mp (hin j hj) with hin | hin
  · have hlt := (List.pairwise_append.mp h.sorted).2.2 _ hin q hq
    omega
  · exact hin

/-- **A run that is too short** has no page from which one is long enough. -/
theorem not_runAt_of_short (hps : 0 < ps)
    (h : InOrder ps base (places ps freepage (n + 1) ++ G2)) {next : Nat}
    (hG2 : Chain 0 mem 0 next G2) (hshort : (n + 1) * ps < bsize)
    (hstop : next ≠ freepage + n * ps + ps) (hq : q ∈ places ps freepage (n + 1)) :
    ¬ RunAt ps bsize (places ps freepage (n + 1) ++ G2) q := by
  rintro ⟨m, -, henough, hin⟩
  obtain ⟨t, ht, rfl⟩ := mem_places.mp hq
  have hm : n + 1 < m := Nat.lt_of_mul_lt_mul_right (Nat.lt_of_lt_of_le hshort henough)
  have hlast : freepage + n * ps ∈ places ps freepage (n + 1) :=
    mem_places.mpr ⟨n, Nat.lt_succ_self n, rfl⟩
  -- the page behind the run
  have hbehind := hin (n + 1 - t) (by omega)
  rw [Nat.add_assoc, ← Nat.add_mul, Nat.add_sub_cancel' (Nat.le_of_lt ht),
    Nat.succ_mul, ← Nat.add_assoc] at hbehind
  have hG2in : freepage + n * ps + ps ∈ G2 := by
    refine (List.mem_append.mp hbehind).resolve_left fun hin' => ?_
    obtain ⟨j, hj, hat⟩ := mem_places.mp hin'
    have hle : j * ps ≤ n * ps := Nat.mul_le_mul_right ps (by omega)
    omega
  -- is the first of the rest
  cases G2 with
  | nil => exact nomatch hG2in
  | cons g G2 =>
    obtain ⟨rfl, -, -⟩ := hG2
    have hnext : next ∈ places ps freepage (n + 1) ++ next :: G2 :=
      List.mem_append_right _ (List.mem_cons_self ..)
    obtain ⟨-, hsorted, hcross⟩ := List.pairwise_append.mp h.sorted
    have hafter := h.next (List.mem_append_left _ hlast) hnext
      (hcross _ hlast next (List.mem_cons_self ..))
    rcases List.mem_cons.mp hG2in with heq | hin'
    · exact hstop heq.symm
    · have hlt := (List.pairwise_cons.mp hsorted).1 _ hin'
      omega

/-- **The search finds the first run**, if there is one. -/
theorem searchExtent_first (hps : 0 < heap.pagesize) {fuel freehead freehead' : Nat}
    {found : Option (Nat × Nat)} (hG : Chain 0 mem 0 freepage G) (hfuel : G.length < fuel)
    (hlen : G.length ≤ heap.npages) (horder : InOrder heap.pagesize base G)
    (h : searchExtent heap mem bsize fuel freepage freehead = some (freehead', found)) :
    (found = none → ∀ q ∈ G, ¬ RunAt heap.pagesize bsize G q) ∧
      ∀ headpage lastpage, found = some (headpage, lastpage) → headpage ∈ G ∧
        RunAt heap.pagesize bsize G headpage ∧
          ∀ q ∈ G, q < headpage → ¬ RunAt heap.pagesize bsize G q := by
  induction fuel generalizing freepage freehead G with
  | zero => exact absurd hfuel (Nat.not_lt_zero _)
  | succ fuel ih =>
    rw [searchExtent] at h
    by_cases h0 : freepage = 0
    · rw [if_pos h0] at h
      cases h
      subst h0
      rw [chain_of_null hG]
      constructor
      · intro _ _ hq
        cases hq
      · intro _ _ h
        cases h
    rw [if_neg h0] at h
    obtain ⟨G', rfl, hG'⟩ := chain_cons_of_ne hG h0
    rw [List.length_cons] at hfuel hlen
    obtain ⟨n, G2, hn, hrun, -, hstop⟩ :=
      @runLoop_spec heap mem bsize (heap.npages + 1) freepage 0 G' hG (by omega)
    rw [Nat.zero_add] at hrun hstop
    rw [hrun] at h
    dsimp only [Option.bind_eq_bind, Option.bind_some] at h
    by_cases henough : (n + 1) * heap.pagesize ≥ bsize
    · rw [if_pos henough] at h
      cases h
      constructor
      · intro h
        cases h
      intro headpage lastpage h
      cases h
      refine ⟨List.mem_cons_self .., ⟨n + 1, Nat.succ_pos n, henough, fun j hj => ?_⟩,
        fun q hq hlt => ?_⟩
      · rw [hn]
        exact List.mem_append_left _ (mem_places.mpr ⟨j, hj, rfl⟩)
      · rcases List.mem_cons.mp hq with rfl | hq
        · exact absurd hlt (Nat.lt_irrefl _)
        · have hgt := (List.pairwise_cons.mp horder.sorted).1 q hq
          omega
    · rw [if_neg henough] at h
      have hnext := hstop.resolve_left henough
      have hlist := hn
      rw [hn] at hG horder ⊢
      have hrest : Chain 0 mem 0 (mem (freepage + n * heap.pagesize)) G2 := by
        rw [places_snoc, List.append_assoc] at hG
        obtain ⟨u, -, hlast⟩ := chain_append.mp hG
        obtain ⟨rfl, -, hlast⟩ := hlast
        exact hlast
      have hsum : G'.length + 1 = n + 1 + G2.length := by
        have hlen := congrArg List.length hlist
        rw [List.length_cons, List.length_append, length_places] at hlen
        exact hlen
      obtain ⟨hnone, hsome⟩ :=
        ih hrest (by omega) (by omega) horder.rest h
      have hshort : ∀ q ∈ places heap.pagesize freepage (n + 1), ¬ RunAt heap.pagesize
          bsize (places heap.pagesize freepage (n + 1) ++ G2) q := fun q hq =>
        not_runAt_of_short hps horder hrest (Nat.not_le.mp henough) hnext hq
      refine ⟨fun hfound q hq hrunq => ?_, fun headpage lastpage hfound => ?_⟩
      · rcases List.mem_append.mp hq with hq | hq
        · exact hshort q hq hrunq
        · exact hnone hfound q hq (hrunq.rest horder hq)
      · obtain ⟨hin, ⟨m, hm, hbsize, hpages⟩, hfirst⟩ := hsome headpage lastpage hfound
        refine ⟨List.mem_append_right _ hin, ⟨m, hm, hbsize, fun j hj =>
          List.mem_append_right _ (hpages j hj)⟩, fun q hq hlt hrunq => ?_⟩
        rcases List.mem_append.mp hq with hq | hq
        · exact hshort q hq hrunq
        · exact hfirst q hq hlt (hrunq.rest horder hq)

/-- **In the first extent** that has one. -/
theorem getFreeRange_first (hps : 0 < heap.pagesize) {log2size freehead : Nat}
    {xs : List (Extent × List Nat)} {range : Option (Nat × List Extent × Mem)}
    (hxs : ∀ x ∈ xs, Chain 0 mem 0 x.1.freelist x.2 ∧ x.2.length ≤ heap.npages ∧
      InOrder heap.pagesize x.1.membase x.2)
    (h : getFreeRange heap mem bsize log2size (xs.map Prod.fst) freehead = some range) :
    (range = none → ∀ x ∈ xs, ∀ q ∈ x.2, ¬ RunAt heap.pagesize bsize x.2 q) ∧
      ∀ p exts mem', range = some (p, exts, mem') → ∃ pre e F post,
        xs = pre ++ (e, F) :: post ∧
        (∀ x ∈ pre, ∀ q ∈ x.2, ¬ RunAt heap.pagesize bsize x.2 q) ∧ p ∈ F ∧
        RunAt heap.pagesize bsize F p ∧
        ∀ q ∈ F, q < p → ¬ RunAt heap.pagesize bsize F q := by
  induction xs generalizing freehead range with
  | nil =>
    cases h
    constructor
    · intro _ _ hx
      cases hx
    · intro _ _ _ h
      cases h
  | cons x xs ih =>
    obtain ⟨e, F⟩ := x
    obtain ⟨hF, hlen, horder⟩ := hxs (e, F) (List.mem_cons_self ..)
    rw [List.map_cons, getFreeRange] at h
    obtain ⟨⟨freehead', found⟩, hsearch, h⟩ := Option.bind_eq_some_iff.mp h
    obtain ⟨hnone, hsome⟩ := searchExtent_first hps hF (Nat.lt_succ_of_le hlen) hlen
      horder hsearch
    cases found with
    | some found =>
      obtain ⟨headpage, lastpage⟩ := found
      obtain ⟨hin, hrun, hfirst⟩ := hsome headpage lastpage rfl
      cases h
      constructor
      · intro h
        cases h
      intro p exts mem' h
      cases h
      exact ⟨[], e, F, xs, rfl, fun _ hx => absurd hx List.not_mem_nil, hin, hrun, hfirst⟩
    | none =>
      obtain ⟨range', hrange, h⟩ := Option.bind_eq_some_iff.mp h
      obtain ⟨hnone', hsome'⟩ :=
        ih (fun x hx => hxs x (List.mem_cons_of_mem _ hx)) hrange
      cases h
      refine ⟨fun h x hx => ?_, fun p exts mem' h => ?_⟩
      · cases hx with
        | head => exact hnone rfl
        | tail _ hx => exact hnone' (Option.map_eq_none_iff.mp h) x hx
      · obtain ⟨⟨p', exts', mem''⟩, rfl, heq⟩ := Option.map_eq_some_iff.mp h
        cases heq
        obtain ⟨pre, d, D, post, rfl, hpre, hrest⟩ := hsome' p exts' mem' rfl
        refine ⟨(e, F) :: pre, d, D, post, rfl, fun x hx => ?_, hrest⟩
        cases hx with
        | head => exact hnone rfl
        | tail _ hx => exact hpre x hx

end Search

end RtaiHeapFirstFit
