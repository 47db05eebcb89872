import Rtai.HeapSizes

/-! # The invariant of a heap

    The lists are chains of free pages and free blocks, each of which has its
    place, and so has each block of a user.  No address is twice in the lists
    of a size or among the users' blocks; all else follows from the places. -/

namespace RtaiHeapInv

open RtaiHeap RtaiChains RtaiHeapPlaces RtaiHeapSizes

/-- Bytes that do not overlap. -/
def Apart (a s a' s' : Nat) : Prop := a + s ≤ a' ∨ a' + s' ≤ a

/-- The free list of an extent. -/
structure FreeList (ps np : Nat) (mem : Mem) (e : Extent) (F : List Nat) : Prop where
  chain : Chain 0 mem 0 e.freelist F
  sorted : F.Pairwise (· < ·)
  placed : ∀ p ∈ F, ∃ i, Placed ps np e.pagemap RTHEAP_PFREE i 1 0 ps ∧ p = e.membase + i * ps

/-- A user has whole pages, or a block of a bucket. -/
def LiveTag (ps tag s : Nat) : Prop :=
  (tag = RTHEAP_PLIST ∧ 2 * ps < s) ∨ (RTHEAP_MINLOG2 ≤ tag ∧ s ≤ 2 * ps)

/-- `xs` are the extents with their free pages, and `B` the blocks in the
    buckets.  The header has the page map and the byte behind it. -/
structure Inv (heap : Rtheap) (mem : Mem) (live : List Block)
    (xs : List (Extent × List Nat)) (B : Nat → List Nat) : Prop where
  geometry : Geometry heap.pagesize heap.pageshift
  header : pagemapAt + heap.npages < heap.hdrsize
  exts : heap.extents = xs.map Prod.fst
  pages : ∀ e ∈ heap.extents, Pages heap.pagesize heap.npages heap.extentsize e
  apart : heap.extents.Pairwise ApartFrom
  free : ∀ x ∈ xs, FreeList heap.pagesize heap.npages mem x.1 x.2
  bucket : ∀ c, Chain 0 mem 0 (heap.buckets c) (B c)
  bucket_nodup : ∀ c, (B c).Nodup
  bucket_placed : ∀ c, ∀ a ∈ B c, InHeap heap.pagesize heap.npages heap.extents
    (c + RTHEAP_MINLOG2) a (2 ^ (c + RTHEAP_MINLOG2))
  live_placed : ∀ b ∈ live, ∃ tag, LiveTag heap.pagesize tag b.size ∧
    InHeap heap.pagesize heap.npages heap.extents tag b.addr b.size
  live_addr : (live.map Block.addr).Nodup
  live_bucket : ∀ b ∈ live, ∀ c, b.addr ∉ B c
  enough : ∀ b ∈ live, b.n ≤ b.size
  ubytes : heap.ubytes = (live.map Block.size).sum

section Facts

variable {heap : Rtheap} {mem mem' : Mem} {live live' : List Block}
  {xs : List (Extent × List Nat)} {B : Nat → List Nat} {ps np : Nat}
  {exts : List Extent} {tag tag' a a' s s' : Nat} {e : Extent} {F : List Nat}

/-- What is placed has no byte of something else. -/
theorem inHeap_apart {len : Nat} (hpages : ∀ e ∈ exts, Pages ps np len e)
    (hapart : exts.Pairwise ApartFrom) (h : InHeap ps np exts tag a s)
    (h' : InHeap ps np exts tag' a' s') (hne : tag = tag' → a ≠ a') :
    Apart a s a' s' := by
  by_contra hno
  obtain ⟨h1, h2⟩ := not_or.mp hno
  have hpos : 0 < s := by
    obtain ⟨_, _, _, _, _, hp, _⟩ := h
    exact hp.pos
  have hpos' : 0 < s' := by
    obtain ⟨_, _, _, _, _, hp, _⟩ := h'
    exact hp.pos
  obtain ⟨haddr, htag⟩ :=
    owner_unique hpages hapart h h' (x := max a a') (by omega) (by omega)
  exact hne htag haddr

/-- An extent has no more free pages than pages. -/
theorem FreeList.length_le (h : FreeList ps np mem e F) : F.length ≤ np := by
  have hnodup : F.Nodup := h.sorted.imp fun hlt => Nat.ne_of_lt hlt
  have hsub : F ⊆ (List.range np).map fun i => e.membase + i * ps := by
    intro p hp
    obtain ⟨i, hi, rfl⟩ := h.placed p hp
    refine List.mem_map.mpr ⟨i, List.mem_range.mpr ?_, rfl⟩
    have hpages := hi.pages
    omega
  have hle := (List.subperm_of_subset hnodup hsub).length_le
  rw [List.length_map, List.length_range] at hle
  exact hle

theorem Inv.searchable (J : Inv heap mem live xs B) :
    ∀ x ∈ xs, Chain 0 mem 0 x.1.freelist x.2 ∧ x.2.length ≤ heap.npages :=
  fun x hx => ⟨(J.free x hx).chain, (J.free x hx).length_le⟩

theorem Inv.ext_mem (J : Inv heap mem live xs B) {x : Extent × List Nat}
    (hx : x ∈ xs) : x.1 ∈ heap.extents := by
  rw [J.exts]
  exact List.mem_map_of_mem hx

theorem Inv.free_placed (J : Inv heap mem live xs B) {x : Extent × List Nat}
    (hx : x ∈ xs) {p : Nat} (hp : p ∈ x.2) :
    InHeap heap.pagesize heap.npages heap.extents RTHEAP_PFREE p heap.pagesize := by
  obtain ⟨i, hi, hat⟩ := (J.free x hx).placed p hp
  exact ⟨x.1, J.ext_mem hx, i, 1, 0, hi, hat⟩

/-- A block is in no free page. -/
theorem LiveTag.ne_free (h : LiveTag ps tag s) : tag ≠ RTHEAP_PFREE := by
  rcases h with ⟨rfl, -⟩ | ⟨h, -⟩
  · decide
  · intro h0
    rw [h0] at h
    exact absurd h (by decide)

/-- **Blocks of users** are apart from each other, from the blocks in the
    buckets, and from the free pages. -/
theorem Inv.live_apart (J : Inv heap mem live xs B) {b b' : Block} (hb : b ∈ live)
    (hb' : b' ∈ live) (hne : b.addr ≠ b'.addr) :
    Apart b.addr b.size b'.addr b'.size := by
  obtain ⟨tag, -, hp⟩ := J.live_placed b hb
  obtain ⟨tag', -, hp'⟩ := J.live_placed b' hb'
  exact inHeap_apart J.pages J.apart hp hp' fun _ => hne

theorem Inv.bucket_apart (J : Inv heap mem live xs B) {b : Block} (hb : b ∈ live)
    {c a : Nat} (ha : a ∈ B c) :
    Apart b.addr b.size a (2 ^ (c + RTHEAP_MINLOG2)) := by
  obtain ⟨tag, -, hp⟩ := J.live_placed b hb
  refine inHeap_apart J.pages J.apart hp (J.bucket_placed c a ha) fun _ he => ?_
  exact J.live_bucket b hb c (he ▸ ha)

theorem Inv.free_apart (J : Inv heap mem live xs B) {b : Block} (hb : b ∈ live)
    {x : Extent × List Nat} (hx : x ∈ xs) {p : Nat} (hp : p ∈ x.2) :
    Apart b.addr b.size p heap.pagesize := by
  obtain ⟨tag, htag, hb⟩ := J.live_placed b hb
  exact inHeap_apart J.pages J.apart hb (J.free_placed hx hp) fun he => absurd he htag.ne_free

/-- A page is in one free list. -/
theorem Inv.free_nodup (J : Inv heap mem live xs B) : (xs.flatMap Prod.snd).Nodup := by
  rw [List.nodup_flatMap]
  constructor
  · intro x hx
    exact (J.free x hx).sorted.imp fun hlt => Nat.ne_of_lt hlt
  · have hapart := J.apart
    rw [J.exts, List.pairwise_map] at hapart
    refine hapart.imp_of_mem fun {x y} hx hy hxy => ?_
    intro p hp hp'
    obtain ⟨i, hi, rfl⟩ := (J.free x hx).placed p hp
    obtain ⟨j, hj, he⟩ := (J.free y hy).placed _ hp'
    have hin := hi.inside
    have hin' := hj.inside
    have hpos := hi.pos
    have hlim := (J.pages x.1 (J.ext_mem hx)).lim
    have hlim' := (J.pages y.1 (J.ext_mem hy)).lim
    rcases hxy with hxy | hxy <;> omega

/-- A page of one list is in no other. -/
theorem other_list {pre post : List (Extent × List Nat)}
    (h : ((pre ++ (e, F) :: post).flatMap Prod.snd).Nodup)
    {x : Extent × List Nat} (hx : x ∈ pre ∨ x ∈ post) {q : Nat} (hq : q ∈ x.2) :
    q ∉ F := by
  intro hF
  rw [List.nodup_flatMap] at h
  obtain ⟨-, -, hcross⟩ := List.pairwise_append.mp h.2
  rcases hx with hx | hx
  · exact hcross x hx (e, F) (List.mem_cons_self ..) hq hF
  · obtain ⟨hpost, -⟩ := List.pairwise_cons.mp (List.pairwise_append.mp h.2).2.1
    exact hpost x hx hF hq

/-- A free block is no free page. -/
theorem Inv.bucket_not_free (J : Inv heap mem live xs B) {c a : Nat} (ha : a ∈ B c)
    {x : Extent × List Nat} (hx : x ∈ xs) : a ∉ x.2 := by
  intro hin
  have hpos : 0 < 2 ^ (c + RTHEAP_MINLOG2) := Nat.pow_pos (Nat.succ_pos 1)
  have hps := J.geometry.pos
  obtain ⟨-, h0⟩ := owner_unique J.pages J.apart (J.bucket_placed c a ha)
    (J.free_placed hx hin) (x := a) (by omega) (by omega)
  exact absurd h0 (Nat.succ_ne_zero _)

/-! ## Parts of the state that change -/

/-- Words that are no links. -/
theorem Inv.mem_congr (J : Inv heap mem live xs B)
    (hfree : ∀ x ∈ xs, ∀ p ∈ x.2, mem' p = mem p)
    (hbucket : ∀ c, ∀ a ∈ B c, mem' a = mem a) : Inv heap mem' live xs B :=
  { J with
    free := fun x hx =>
      { J.free x hx with chain := chain_congr (J.free x hx).chain (hfree x hx) }
    bucket := fun c => chain_congr (J.bucket c) (hbucket c) }

/-- What users have. -/
theorem Inv.set_live (J : Inv heap mem live xs B) (u : Nat)
    (hplaced : ∀ b ∈ live', ∃ tag, LiveTag heap.pagesize tag b.size ∧
      InHeap heap.pagesize heap.npages heap.extents tag b.addr b.size)
    (haddr : (live'.map Block.addr).Nodup)
    (hbucket : ∀ b ∈ live', ∀ c, b.addr ∉ B c) (henough : ∀ b ∈ live', b.n ≤ b.size)
    (hu : u = (live'.map Block.size).sum) :
    Inv { heap with ubytes := u } mem live' xs B :=
  { J with
    live_placed := hplaced
    live_addr := haddr
    live_bucket := hbucket
    enough := henough
    ubytes := hu }

/-- **A bucket.** -/
theorem Inv.set_bucket (J : Inv heap mem live xs B) {c head : Nat} {l : List Nat}
    (hchain : Chain 0 mem 0 head l) (hnodup : l.Nodup)
    (hplaced : ∀ a ∈ l, InHeap heap.pagesize heap.npages heap.extents
      (c + RTHEAP_MINLOG2) a (2 ^ (c + RTHEAP_MINLOG2)))
    (hlive : ∀ b ∈ live, b.addr ∉ l) :
    Inv { heap with buckets := Function.update heap.buckets c head } mem live xs
      (Function.update B c l) := by
  have hother : ∀ c', c' ≠ c → Function.update B c l c' = B c' :=
    fun c' h => Function.update_of_ne h ..
  have hself : Function.update B c l c = l := Function.update_self ..
  refine { J with
    bucket := fun c' => ?_
    bucket_nodup := fun c' => ?_
    bucket_placed := fun c' a ha => ?_
    live_bucket := fun b hb c' => ?_ }
  · show Chain 0 mem 0 (Function.update heap.buckets c head c') _
    by_cases h : c' = c
    · subst h
      rw [hself, Function.update_self]
      exact hchain
    · rw [hother c' h, Function.update_of_ne h]
      exact J.bucket c'
  · by_cases h : c' = c
    · subst h
      rw [hself]
      exact hnodup
    · rw [hother c' h]
      exact J.bucket_nodup c'
  · by_cases h : c' = c
    · subst h
      rw [hself] at ha
      exact hplaced a ha
    · rw [hother c' h] at ha
      exact J.bucket_placed c' a ha
  · by_cases h : c' = c
    · subst h
      rw [hself]
      exact hlive b hb
    · rw [hother c' h]
      exact J.live_bucket b hb c'

end Facts

end RtaiHeapInv
