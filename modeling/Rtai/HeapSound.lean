import Rtai.Runs
import Rtai.HeapAlloc
import Rtai.HeapFree
import Rtai.HeapStart

/-! # The heap is sound

    In every run in which no size wraps around when it is rounded, and no run
    of pages that is released goes on behind the page map, what users have is
    theirs alone, and what they release goes back to where it came from. -/

namespace RtaiHeapSound

open RtaiRuns RtaiHeap RtaiChains RtaiHeapLoops RtaiHeapPlaces
open RtaiHeapInv RtaiHeapAlloc RtaiHeapFree RtaiHeapStart

/-! ## What a heap is for -/

/-- A page on the free list of an extent. -/
def FreePage (heap : Rtheap) (mem : Mem) (p : Nat) : Prop :=
  ∃ e ∈ heap.extents, OnList 0 mem e.freelist p

/-- A block on the list of a bucket. -/
def FreeBlock (heap : Rtheap) (mem : Mem) (c a : Nat) : Prop :=
  OnList 0 mem (heap.buckets c) a

/-- Each block of a user is as long as it has to be, in the pages of an extent,
    which are behind its page map and in its memory, aligned, and apart from all
    other blocks and all free pages. -/
structure Sound (st : St) : Prop where
  enough : ∀ b ∈ st.live, b.n ≤ b.size
  inside : ∀ b ∈ st.live, ∃ e ∈ st.heap.extents,
    e.membase ≤ b.addr ∧ b.addr + b.size ≤ e.memlim ∧ e.memlim ≤ e.extent + st.heap.extentsize
  map : pagemapAt + st.heap.npages < st.heap.hdrsize
  aligned : (∀ e ∈ st.heap.extents, 16 ∣ e.extent) → ∀ b ∈ st.live, 16 ∣ b.addr
  live : st.live.Pairwise fun b b' => Apart b.addr b.size b'.addr b'.size
  buckets : ∀ b ∈ st.live, ∀ c a, FreeBlock st.heap st.mem c a →
    Apart b.addr b.size a (2 ^ (c + RTHEAP_MINLOG2))
  pages : ∀ b ∈ st.live, ∀ p, FreePage st.heap st.mem p →
    Apart b.addr b.size p st.heap.pagesize
  ubytes : st.heap.ubytes = (st.live.map Block.size).sum
  returns : ∀ n, rtheapAlloc st.heap st.mem n ≠ none

/-- What `rtheap_free` gives back: the block to its bucket, or the pages, and
    nothing else. -/
def GivesBack (heap : Rtheap) (mem : Mem) (b : Block) (heap' : Rtheap) (mem' : Mem) :
    Prop :=
  (b.size ≤ 2 * heap.pagesize ∧ ∃ c, b.size = 2 ^ (c + RTHEAP_MINLOG2) ∧
      (∀ c' a, FreeBlock heap' mem' c' a ↔ FreeBlock heap mem c' a ∨ (c' = c ∧ a = b.addr)) ∧
      ∀ p, FreePage heap' mem' p ↔ FreePage heap mem p) ∨
    (2 * heap.pagesize < b.size ∧ (∀ c a, FreeBlock heap' mem' c a ↔ FreeBlock heap mem c a) ∧
      ∀ p, FreePage heap' mem' p ↔ FreePage heap mem p ∨
        ∃ j, j * heap.pagesize < b.size ∧ p = b.addr + j * heap.pagesize)

/-- The free returns 0 and gives the block back. -/
def Releases (st : St) (b : Block) : Prop :=
  ∃ heap' mem', rtheapFree st.heap st.mem b.addr = some (0, heap', mem') ∧
    GivesBack st.heap st.mem b heap' mem'

/-- Rounding does not wrap around, and the end of a run is in the page map, or
    the byte behind it is not `RTHEAP_PCONT`. -/
def Heeds (st : St) : Act → Prop
  | .alloc n => n + st.heap.pagesize ≤ 2 ^ 64
  | .free b => ¬ RunsOn st.heap b
  | .write .. => True

section Facts

variable {heap : Rtheap} {mem : Mem} {live : List Block}
  {xs : List (Extent × List Nat)} {B : Nat → List Nat} {b : Block}

theorem freePage_iff (J : Inv heap mem live xs B) (p : Nat) :
    FreePage heap mem p ↔ ∃ x ∈ xs, p ∈ x.2 := by
  constructor
  · rintro ⟨e, he, hp⟩
    rw [J.exts] at he
    obtain ⟨x, hx, rfl⟩ := List.mem_map.mp he
    exact ⟨x, hx, (onList_iff (J.free x hx).chain).mp hp⟩
  · rintro ⟨x, hx, hp⟩
    exact ⟨x.1, J.ext_mem hx, (onList_iff (J.free x hx).chain).mpr hp⟩

theorem freeBlock_iff (J : Inv heap mem live xs B) (c a : Nat) :
    FreeBlock heap mem c a ↔ a ∈ B c :=
  onList_iff (J.bucket c)

theorem sound_of_inv {st : St} (J : Inv st.heap st.mem st.live xs B) : Sound st where
  enough := J.enough
  inside := by
    intro b hb
    obtain ⟨tag, -, e, he, i, m, off, hp, hat⟩ := J.live_placed b hb
    have hin := hp.inside
    have hlim := (J.pages e he).lim
    exact ⟨e, he, by omega, by omega, (J.pages e he).room⟩
  map := J.header
  aligned := by
    intro hal b hb
    obtain ⟨tag, htag, e, he, i, m, off, hp, hat⟩ := J.live_placed b hb
    have hoff : 16 ∣ off := by
      rcases htag with ⟨h2, -⟩ | ⟨h4, -⟩
      · rw [(hp.run h2).1]
        exact Nat.dvd_zero 16
      · have hne : tag ≠ RTHEAP_PLIST := by
          rintro rfl
          exact absurd h4 (by decide)
        have hne0 : tag ≠ RTHEAP_PFREE := by
          rintro rfl
          exact absurd h4 (by decide)
        have hsize := hp.size hne
        rw [unitSize, if_neg hne0] at hsize
        have hdvd : 16 ∣ b.size := by
          rw [hsize]
          exact Nat.pow_dvd_pow 2 h4
        exact Nat.dvd_trans hdvd (Nat.dvd_of_mod_eq_zero hp.unit)
    rw [hat]
    refine Nat.dvd_add ((J.pages e he).aligned (hal e he)) (Nat.dvd_add ?_ hoff)
    exact Nat.dvd_trans J.geometry.sixteen (Nat.dvd_mul_left ..)
  live := by
    have haddr := J.live_addr
    rw [List.Nodup, List.pairwise_map] at haddr
    exact haddr.imp_of_mem fun hb hb' hne => J.live_apart hb hb' hne
  buckets := fun b hb c a ha => J.bucket_apart hb ((freeBlock_iff J c a).mp ha)
  pages := by
    intro b hb p hp
    obtain ⟨x, hx, hp⟩ := (freePage_iff J p).mp hp
    exact J.free_apart hb hx hp
  ubytes := J.ubytes
  returns := by
    intro n hnone
    obtain ⟨_, _, _, h, -⟩ := rtheapAlloc_spec J n
    rw [hnone] at h
    cases h

/-- One of the lists has some more pages. -/
theorem exists_replaced {pre post : List (Extent × List Nat)} {e e' : Extent}
    {F G : List Nat} {P : Nat → Prop} (hG : ∀ q, q ∈ G ↔ q ∈ F ∨ P q) {p : Nat} :
    (∃ x ∈ pre ++ (e', G) :: post, p ∈ x.2) ↔
      (∃ x ∈ pre ++ (e, F) :: post, p ∈ x.2) ∨ P p := by
  constructor
  · rintro ⟨x, hx, hp⟩
    rcases List.mem_append.mp hx with hx | hx
    · exact Or.inl ⟨x, List.mem_append_left _ hx, hp⟩
    · cases hx with
      | head =>
        rcases (hG p).mp hp with hp | hp
        · exact Or.inl ⟨(e, F), List.mem_append_right _ (List.mem_cons_self ..), hp⟩
        · exact Or.inr hp
      | tail _ hx =>
        exact Or.inl ⟨x, List.mem_append_right _ (List.mem_cons_of_mem _ hx), hp⟩
  · have hnew : p ∈ G → ∃ x ∈ pre ++ (e', G) :: post, p ∈ x.2 := fun hp =>
      ⟨(e', G), List.mem_append_right _ (List.mem_cons_self ..), hp⟩
    rintro (⟨x, hx, hp⟩ | hp)
    · rcases List.mem_append.mp hx with hx | hx
      · exact ⟨x, List.mem_append_left _ hx, hp⟩
      · cases hx with
        | head => exact hnew ((hG p).mpr (Or.inl hp))
        | tail _ hx =>
          exact ⟨x, List.mem_append_right _ (List.mem_cons_of_mem _ hx), hp⟩
    · exact hnew ((hG p).mpr (Or.inr hp))

/-- **`rtheap_free`** finds the block, and gives back what it took. -/
theorem rtheapFree_spec (J : Inv heap mem live xs B) (hb : b ∈ live)
    (hguard : ¬ RunsOn heap b) :
    ∃ heap' mem' xs' B', rtheapFree heap mem b.addr = some (0, heap', mem') ∧
      Inv heap' mem' (live.erase b) xs' B' ∧
      GivesBack heap mem b heap' mem' ∧
      Returned heap.pagesize heap.npages xs B b xs' B' := by
  obtain ⟨tag, htag, e₀, he₀, i, m, off, hp, hat⟩ := J.live_placed b hb
  have hin := hp.inside
  have hpos := hp.pos
  have hlim := (J.pages e₀ he₀).lim
  obtain ⟨pre, e, post, hfind, hexts, hge, hlt⟩ :=
    @findExtent_spec heap.extents b.addr ⟨e₀, he₀, by omega, by omega⟩
  have he : e ∈ heap.extents := by
    rw [hexts]
    exact List.mem_append_right _ (List.mem_cons_self ..)
  -- no other extent has it
  obtain rfl : e₀ = e := by
    by_contra hne
    have : Std.Symm ApartFrom := ⟨fun _ _ h => Or.symm h⟩
    rcases J.apart.forall he₀ he hne with h | h <;> omega
  have hmap := J.exts.symm.trans hexts
  obtain ⟨xpre, ypost, rfl, hpre, hypost⟩ := List.map_eq_append_iff.mp hmap
  obtain ⟨⟨d, F⟩, xpost, rfl, hd, hpost⟩ := List.map_eq_cons_iff.mp hypost
  obtain rfl : d = e₀ := hd
  obtain ⟨hnum, hoff⟩ := @page_of_block heap d i off J.geometry hp.first
  rw [← hat] at hnum hoff
  rw [rtheapFree, hfind]
  dsimp only [Option.bind_eq_bind, Option.bind_some]
  rw [hnum, hoff, hp.head]
  have hfree : ¬ (tag = RTHEAP_PFREE ∨ tag = RTHEAP_PCONT) := fun h =>
    h.elim htag.ne_free hp.head_ne
  rw [if_neg hfree]
  have htag₀ := htag.ne_free
  rcases htag with ⟨rfl, hlarge⟩ | ⟨h4, hsmall⟩
  · obtain ⟨hoff0, hsize⟩ := hp.run rfl
    subst hoff0
    rw [hsize] at hp
    have hat' : b.addr = d.membase + i * heap.pagesize := hat
    have hend : i + m = heap.npages → 0 < i → d.pagemap heap.npages ≠ RTHEAP_PCONT := by
      intro hsum hi hcont
      refine hguard ⟨hlarge, d, he₀, ?_, ?_, hcont⟩
      · have hle := Nat.mul_le_mul_right heap.pagesize hi
        have hps := J.geometry.pos
        omega
      · rw [hat', hlim, hsize, ← hsum, Nat.add_mul, Nat.add_assoc]
    obtain ⟨e', mem', G, hrun, J', hagain⟩ :=
      return_pages J hb rfl hp.some_page hp hat' hsize hend
    rw [hpre, hpost] at J'
    rw [if_pos rfl, hrun]
    refine ⟨{ heap with
        extents := pre ++ e' :: post
        ubytes := heap.ubytes - m * heap.pagesize }, mem',
      xpre ++ (e', G) :: xpost, B, rfl, J', Or.inr ⟨hlarge, fun c a => ?_,
      fun p => ?_⟩, Returned.run xpre xpost d F i m e' G hlarge hsize hat' rfl
      hp.pages hagain⟩
    · rw [freeBlock_iff J', freeBlock_iff J]
    · rw [freePage_iff J', freePage_iff J]
      have hplaces : p ∈ places heap.pagesize b.addr m ↔
          ∃ j, j * heap.pagesize < b.size ∧ p = b.addr + j * heap.pagesize := by
        rw [mem_places, hsize]
        refine exists_congr fun j => and_congr_left fun _ => ?_
        exact ⟨fun h => Nat.mul_lt_mul_of_pos_right h J.geometry.pos,
          Nat.lt_of_mul_lt_mul_right⟩
      rw [← hplaces]
      exact exists_replaced hagain.pages
  · have hrun : tag ≠ RTHEAP_PLIST := by
      rintro rfl
      exact absurd h4 (by decide)
    have hsize := hp.size hrun
    rw [unitSize, if_neg htag₀] at hsize
    have hunit := hp.unit
    rw [hsize] at hunit hp
    obtain ⟨c, rfl⟩ : ∃ c, tag = c + RTHEAP_MINLOG2 :=
      ⟨tag - RTHEAP_MINLOG2, (Nat.sub_add_cancel h4).symm⟩
    rw [if_neg hrun, if_neg fun h => h hunit, Nat.add_sub_cancel]
    have J' := return_block J hb ⟨d, he₀, i, m, off, hp, hat⟩ hsize
    refine ⟨_, _, _, _, rfl, J', Or.inl ⟨hsmall, c, hsize, fun c' a => ?_, fun p => ?_⟩,
      Returned.block c hsize hsmall⟩
    · rw [freeBlock_iff J', freeBlock_iff J]
      by_cases hc : c' = c
      · subst hc
        rw [Function.update_self, List.mem_cons]
        exact ⟨fun h => h.elim (fun h => Or.inr ⟨rfl, h⟩) Or.inl,
          fun h => h.elim Or.inr fun h => Or.inl h.2⟩
      · rw [Function.update_of_ne hc]
        exact ⟨Or.inl, fun h => h.resolve_right fun h => hc h.1⟩
    · rw [freePage_iff J', freePage_iff J]

/-- No link is in a block of a user. -/
theorem write_keeps (J : Inv heap mem live xs B) (hb : b ∈ live) (mem' : Mem) :
    Inv heap (fun a => if b.addr ≤ a ∧ a + 8 ≤ b.addr + b.size then mem' a else mem a)
      live xs B := by
  refine J.mem_congr (fun x hx p hp => if_neg ?_) fun c a ha => if_neg ?_
  · have hps := J.geometry.pos
    rcases J.free_apart hb hx hp with h | h <;> omega
  · have hpos := two_pow_pos (c + RTHEAP_MINLOG2)
    rcases J.bucket_apart hb ha with h | h <;> omega

/-- **A step keeps the invariant.** -/
theorem step_inv {st st' : St} {a : Act} {o : Int}
    (J : Inv st.heap st.mem st.live xs B) (hG : Heeds st a)
    (h : step st a = some (st', o)) :
    ∃ xs' B', Inv st'.heap st'.mem st'.live xs' B' := by
  cases a with
  | alloc n =>
    simp only [step] at h
    obtain ⟨block, heap, mem, halloc, hnull, hnew⟩ := rtheapAlloc_spec J n
    split at h
    · exact nomatch h
    · rw [halloc] at h
      dsimp only at h
      split at h
      · next h0 =>
          cases h
          obtain ⟨rfl, rfl⟩ := hnull h0
          exact ⟨xs, B, J⟩
      · next hne =>
          cases h
          exact hnew hne hG
  | free b =>
    simp only [step] at h
    split at h
    · next hb =>
        obtain ⟨heap, mem, xs', B', hfree, J', -⟩ := rtheapFree_spec J hb hG
        rw [hfree] at h
        dsimp only at h
        rw [if_pos rfl] at h
        cases h
        exact ⟨xs', B', J'⟩
    · exact nomatch h
  | write b mem =>
    simp only [step] at h
    split at h
    · next hb =>
        cases h
        exact ⟨xs, B, write_keeps J hb mem⟩
    · exact nomatch h

end Facts

/-- **The heap is sound**: in every run whose steps meet the conditions, from
    any heap that `rtheap_init` makes of extents that have room for a header and
    a page, whatever is in them. -/
theorem heap_sound (heapaddr large : Option Area) (core : Nat → Option Area)
    (heapsize pagesize : Nat) (suprt : Bool) (mem₀ : Mem) {heap : Rtheap} {mem : Mem}
    (hinit : rtheapInit heapaddr large core heapsize pagesize suprt mem₀ = .ok (heap, mem))
    (hkind : heapaddr.isNone → suprt = true → KMALLOC_LIMIT < heapsize)
    (hcore : ∀ i j area area', i < j → core i = some area → core j = some area' →
      area.addr + (heapArea heapaddr large suprt heapsize).2 ≤ area'.addr ∨
        area'.addr + (heapArea heapaddr large suprt heapsize).2 ≤ area.addr)
    (hroom : headerSize heapsize pagesize + pagesize ≤
      (heapArea heapaddr large suprt heapsize).2)
    {st : St} (h : Reach step Heeds ⟨heap, mem, []⟩ st) :
    Sound st ∧ ∀ b ∈ st.live, Heeds st (.free b) → Releases st b := by
  have hstart := rtheapInit_inv hinit hkind hcore hroom
  have hinv : ∃ xs B, Inv st.heap st.mem st.live xs B := by
    refine h.invariant (I := fun s => ∃ xs B, Inv s.heap s.mem s.live xs B) ?_
      fun s a s' o hs hG hstep => ?_
    · obtain ⟨xs, J⟩ := hstart
      exact ⟨xs, _, J⟩
    · obtain ⟨xs, B, J⟩ := hs
      exact step_inv J hG hstep
  obtain ⟨xs, B, J⟩ := hinv
  refine ⟨sound_of_inv J, fun b hb hG => ?_⟩
  obtain ⟨heap', mem', _, _, hfree, -, hback, -⟩ := rtheapFree_spec J hb hG
  exact ⟨heap', mem', hfree, hback⟩

/-! ## Four pages of 16 bytes -/

instance (st : St) (a : Act) : Decidable (Heeds st a) :=
  match a with
  | .alloc n => inferInstanceAs (Decidable (n + st.heap.pagesize ≤ 2 ^ 64))
  | .free b => inferInstanceAs (Decidable (¬ (2 * st.heap.pagesize < b.size ∧
      ∃ e ∈ st.heap.extents, e.membase < b.addr ∧ b.addr + b.size = e.memlim ∧
        e.pagemap st.heap.npages = RTHEAP_PCONT)))
  | .write _ _ => .isTrue trivial

/-- A static area at 1024, all bytes of which are the same. -/
def fourPages (byte : Nat) : Except Int (Rtheap × Mem) :=
  rtheapInit (some ⟨1024, fun _ => byte⟩) none (fun _ => none) 128 16 false fun _ => 0

/-- A small block and a run, which is released. -/
theorem heap_sound_two : ∃ heap mem st, fourPages 0 = .ok (heap, mem) ∧
    Reach step Heeds ⟨heap, mem, []⟩ st ∧ st.live = [⟨1088, 10, 16⟩] ∧ Sound st := by
  obtain ⟨heap, mem, st, hinit, hplay, hlive⟩ : ∃ heap mem st, fourPages 0 = .ok (heap, mem) ∧
      play step Heeds ⟨heap, mem, []⟩ [.alloc 10, .alloc 40, .free ⟨1104, 40, 48⟩] = some st ∧
      st.live = [⟨1088, 10, 16⟩] :=
    ⟨_, _, _, rfl, rfl, rfl⟩
  have hreach := reach_of_play hplay
  exact ⟨heap, mem, st, hinit, hreach, hlive,
    (heap_sound (some ⟨1024, fun _ => 0⟩) none (fun _ => none) 128 16 false (fun _ => 0)
      hinit nofun nofun (by decide) hreach).1⟩

/-- Three pages of 128 kB, without memory for all of them at once. -/
def largePages : Except Int (Rtheap × Mem) :=
  rtheapInit none none (fun n => some ⟨(n + 1) * 2 ^ 17, fun _ => 0⟩) (3 * 2 ^ 17) (2 ^ 17)
    true fun _ => 0

/-- **UNSOUND HEAPS**: a request of all memory is rounded to nothing, and gets 16
    bytes; the end of a run is sought behind the page map, and a page is freed
    that there is not; and a page that has no room in an extent ends behind
    it. -/
theorem unsound_heaps : (∃ heap mem st, fourPages 0 = .ok (heap, mem) ∧
      Reach step (fun _ _ => True) ⟨heap, mem, []⟩ st ∧
      st.live = [⟨1088, 2 ^ 64 - 1, 16⟩] ∧ ¬ Sound st) ∧
    (∃ heap mem st, fourPages 1 = .ok (heap, mem) ∧
      Reach step (fun _ _ => True) ⟨heap, mem, []⟩ st ∧
      st.live = [⟨1088, 16, 16⟩] ∧ st.heap.ubytes = 0 ∧ ¬ Sound st) ∧
    ∃ heap mem st, largePages = .ok (heap, mem) ∧
      Reach step (fun _ _ => True) ⟨heap, mem, []⟩ st ∧
      st.live = [⟨131136, 131072, 131072⟩] ∧ ¬ Sound st := by
  refine ⟨?_, ?_, ?_⟩
  · obtain ⟨heap, mem, st, hinit, hplay, hlive⟩ : ∃ heap mem st,
        fourPages 0 = .ok (heap, mem) ∧
        play step (fun _ _ => True) ⟨heap, mem, []⟩ [.alloc (2 ^ 64 - 1)] = some st ∧
        st.live = [⟨1088, 2 ^ 64 - 1, 16⟩] :=
      ⟨_, _, _, rfl, rfl, rfl⟩
    refine ⟨heap, mem, st, hinit, reach_of_play hplay, hlive, fun hs => ?_⟩
    have henough := hs.enough ⟨1088, 2 ^ 64 - 1, 16⟩ (by
      rw [hlive]
      exact List.mem_singleton.mpr rfl)
    exact absurd henough (by decide)
  · obtain ⟨heap, mem, st, hinit, hplay, hlive, hu⟩ : ∃ heap mem st,
        fourPages 1 = .ok (heap, mem) ∧
        play step (fun _ _ => True) ⟨heap, mem, []⟩
          [.alloc 16, .alloc 48, .free ⟨1104, 48, 48⟩] = some st ∧
        st.live = [⟨1088, 16, 16⟩] ∧ st.heap.ubytes = 0 :=
      ⟨_, _, _, rfl, rfl, rfl, rfl⟩
    refine ⟨heap, mem, st, hinit, reach_of_play hplay, hlive, hu, fun hs => ?_⟩
    have hubytes := hs.ubytes
    rw [hlive, hu] at hubytes
    exact absurd hubytes (by decide)
  · obtain ⟨heap, mem, st, hinit, hplay, hlive, hextents⟩ : ∃ heap mem st,
        largePages = .ok (heap, mem) ∧
        play step (fun _ _ => True) ⟨heap, mem, []⟩ [.alloc 131072] = some st ∧
        st.live = [⟨131136, 131072, 131072⟩] ∧
        (st.heap.extents.all fun e =>
          decide (e.extent + st.heap.extentsize < e.memlim)) = true :=
      ⟨_, _, _, rfl, rfl, rfl, rfl⟩
    refine ⟨heap, mem, st, hinit, reach_of_play hplay, hlive, fun hs => ?_⟩
    obtain ⟨e, he, -, -, hroom⟩ := hs.inside ⟨131136, 131072, 131072⟩ (by
      rw [hlive]
      exact List.mem_singleton.mpr rfl)
    have hlt := of_decide_eq_true (List.all_eq_true.mp hextents e he)
    omega

end RtaiHeapSound
