import Rtai.HeapSound
import Rtai.HeapLayout

/-! # The page map is complete

    What the page map says of a page is in the lists or with a user: a free
    page is in the free list of its extent, the head of a run is where a
    user's block starts, and each block of a page that is split is in its
    bucket or a user's. -/

namespace RtaiHeapComplete

open RtaiRuns RtaiHeap RtaiHeapLoops RtaiHeapPlaces RtaiHeapSizes
open RtaiHeapInv RtaiHeapAlloc RtaiHeapFree RtaiHeapStart RtaiHeapSound RtaiHeapLayout

/-- A block of a bucket, or one that a user has from it. -/
def Known (ps : Nat) (live : List Block) (B : Nat → List Nat) (c a : Nat) : Prop :=
  a ∈ B c ∨ ∃ b ∈ live, b.size ≤ 2 * ps ∧ b.size = 2 ^ (c + RTHEAP_MINLOG2) ∧ b.addr = a

/-- What there is to an entry of the page map, for the page at `a`. -/
structure Accounted (ps : Nat) (live : List Block) (B : Nat → List Nat) (F : List Nat)
    (a tag : Nat) : Prop where
  free : tag = RTHEAP_PFREE → a ∈ F
  run : tag = RTHEAP_PLIST → ∃ b ∈ live, 2 * ps < b.size ∧ b.addr = a
  blocks : ∀ c, tag = c + RTHEAP_MINLOG2 → ∀ off, off < ps →
    off % 2 ^ (c + RTHEAP_MINLOG2) = 0 → Known ps live B c (a + off)
  kind : tag ≠ 3

/-- Every page is accounted for. -/
def Complete (ps np : Nat) (live : List Block) (xs : List (Extent × List Nat))
    (B : Nat → List Nat) : Prop :=
  ∀ x ∈ xs, ∀ j, j < np → Accounted ps live B x.2 (x.1.membase + j * ps) (x.1.pagemap j)

section Pages

variable {heap : Rtheap} {mem : Mem} {live live' : List Block}
  {xs xs' : List (Extent × List Nat)} {B B' : Nat → List Nat} {F F' : List Nat}
  {ps np a tag p m s : Nat} {b : Block}

theorem Accounted.mono (h : Accounted ps live B F a tag) (hF : a ∈ F → a ∈ F')
    (hrun : ∀ b ∈ live, 2 * ps < b.size → b.addr = a → b ∈ live')
    (hknown : ∀ c d, Known ps live B c d → Known ps live' B' c d) :
    Accounted ps live' B' F' a tag where
  free := fun htag => hF (h.free htag)
  run := by
    intro htag
    obtain ⟨b, hb, hsize, haddr⟩ := h.run htag
    exact ⟨b, hrun b hb hsize haddr, hsize, haddr⟩
  blocks := fun c htag off hoff hunit => hknown c _ (h.blocks c htag off hoff hunit)
  kind := h.kind

/-- A page that goes on a run or a block. -/
theorem accounted_cont (ps : Nat) (live : List Block) (B : Nat → List Nat) (F : List Nat)
    (a : Nat) : Accounted ps live B F a RTHEAP_PCONT where
  free := nofun
  run := nofun
  blocks := by
    intro c h
    have hlt : RTHEAP_PCONT < c + RTHEAP_MINLOG2 := by
      show 1 < c + 4
      omega
    exact absurd h (Nat.ne_of_lt hlt)
  kind := by decide

theorem accounted_free (ha : a ∈ F) : Accounted ps live B F a RTHEAP_PFREE where
  free := fun _ => ha
  run := nofun
  blocks := fun c h => absurd h (Nat.succ_ne_zero _).symm
  kind := by decide

theorem accounted_run (hb : b ∈ live) (hsize : 2 * ps < b.size) :
    Accounted ps live B F b.addr RTHEAP_PLIST where
  free := nofun
  run := fun _ => ⟨b, hb, hsize, rfl⟩
  blocks := by
    intro c h
    have hlt : RTHEAP_PLIST < c + RTHEAP_MINLOG2 := by
      show 2 < c + 4
      omega
    exact absurd h (Nat.ne_of_lt hlt)
  kind := by decide

theorem accounted_blocks {c : Nat} (h : ∀ off, off < ps →
    off % 2 ^ (c + RTHEAP_MINLOG2) = 0 → Known ps live B c (a + off)) :
    Accounted ps live B F a (c + RTHEAP_MINLOG2) where
  free := fun h0 => absurd h0 (Nat.succ_ne_zero _)
  run := by
    intro h2
    have hlt : RTHEAP_PLIST < c + RTHEAP_MINLOG2 := by
      show 2 < c + 4
      omega
    exact absurd h2 (Nat.ne_of_gt hlt)
  blocks := by
    intro c' hc
    obtain rfl : c = c' := Nat.add_right_cancel hc
    exact h
  kind := by
    show c + 4 ≠ 3
    omega

/-- **New extents** are complete. -/
theorem complete_fresh {heap : Rtheap} (h : Fresh heap xs) :
    Complete heap.pagesize heap.npages live xs B := by
  intro x hx j hj
  obtain ⟨htag, hin⟩ := h x hx j hj
  rw [htag]
  exact accounted_free hin

/-- **A run is cut out**: what is made of its pages has to be known. -/
theorem Complete.cut (h : Complete ps np live xs B) (hps : 0 < ps)
    (hcut : Cut ps tag p m xs xs') (hlive : ∀ b ∈ live, b ∈ live')
    (hknown : ∀ c d, Known ps live B c d → Known ps live' B' c d)
    (hhead : ∀ F, Accounted ps live' B' F p tag) : Complete ps np live' xs' B' := by
  obtain ⟨pre, e, F, post, freelist, map, G1, G2, i, rfl, rfl, hF, hp, htaken⟩ := hcut
  intro x hx j hj
  rcases List.mem_append.mp hx with hx | hx
  · exact (h x (List.mem_append_left _ hx) j hj).mono id (fun b hb _ _ => hlive b hb) hknown
  cases hx with
  | tail _ hx =>
    refine (h x ?_ j hj).mono id (fun b hb _ _ => hlive b hb) hknown
    exact List.mem_append_right _ (List.mem_cons_of_mem _ hx)
  | head =>
    by_cases hin : i ≤ j ∧ j < i + m
    · obtain ⟨hij, hjm⟩ := hin
      rcases Nat.eq_or_lt_of_le hij with rfl | hlt
      · show Accounted ps live' B' _ (e.membase + i * ps) (map i)
        rw [htaken.head, ← hp]
        exact hhead _
      · show Accounted ps live' B' _ _ (map j)
        rw [htaken.cont j hlt hjm]
        exact accounted_cont ..
    · show Accounted ps live' B' (G1 ++ G2) (e.membase + j * ps) (map j)
      rw [htaken.other j (by omega)]
      have hx : (e, F) ∈ pre ++ (e, F) :: post :=
        List.mem_append_right _ (List.mem_cons_self ..)
      refine (h (e, F) hx j hj).mono (fun hj' => ?_) (fun b hb _ _ => hlive b hb) hknown
      -- it is none of the pages of the run
      have hout : e.membase + j * ps ∉ places ps p m := by
        intro hin'
        obtain ⟨t, ht, hat⟩ := mem_places.mp hin'
        have hsum : j * ps = (i + t) * ps := by
          rw [Nat.add_mul]
          omega
        have hj2 := Nat.eq_of_mul_eq_mul_right hps hsum
        omega
      have hj'' : e.membase + j * ps ∈ F := hj'
      rw [hF] at hj''
      rcases List.mem_append.mp hj'' with hG | hrest
      · exact List.mem_append_left _ hG
      · exact List.mem_append_right _ ((List.mem_append.mp hrest).resolve_left hout)

/-- **What a user gets.** -/
theorem Complete.given (h : Complete ps np live xs B) (hps : 0 < ps)
    (hgiven : Given ps xs B p s xs' B') (n : Nat) :
    Complete ps np (⟨p, n, s⟩ :: live) xs' B' := by
  have hlive : ∀ b ∈ live, b ∈ (⟨p, n, s⟩ :: live : List Block) :=
    fun b hb => List.mem_cons_of_mem _ hb
  cases hgiven with
  | bucket c l hB hle =>
    intro x hx j hj
    refine (h x hx j hj).mono id (fun b hb _ _ => hlive b hb) fun c' d hd => ?_
    rcases hd with hd | ⟨b, hb, hrest⟩
    · by_cases hc : c' = c
      · subst hc
        rw [hB] at hd
        rcases List.mem_cons.mp hd with rfl | hd
        · exact Or.inr ⟨_, List.mem_cons_self .., hle, rfl, rfl⟩
        · refine Or.inl ?_
          rw [Function.update_self]
          exact hd
      · refine Or.inl ?_
        rw [Function.update_of_ne hc]
        exact hd
    · exact Or.inr ⟨b, hlive b hb, hrest⟩
  | split c m k l xs' hB hle hcovers hl hcut =>
    refine h.cut hps hcut hlive (fun c' d hd => ?_) fun F => ?_
    · rcases hd with hd | ⟨b, hb, hrest⟩
      · have hc : c' ≠ c := by
          rintro rfl
          rw [hB] at hd
          exact nomatch hd
        refine Or.inl ?_
        rw [Function.update_of_ne hc]
        exact hd
      · exact Or.inr ⟨b, hlive b hb, hrest⟩
    · refine accounted_blocks fun off hoff hunit => ?_
      -- the blocks of the page
      obtain ⟨t, rfl⟩ : ∃ t, off = t * 2 ^ (c + RTHEAP_MINLOG2) :=
        ⟨off / 2 ^ (c + RTHEAP_MINLOG2),
          (Nat.div_mul_cancel (Nat.dvd_of_mod_eq_zero hunit)).symm⟩
      have ht : t < k + 1 := by
        rcases hcovers with ⟨-, hsize⟩ | ⟨hm, rfl, hsize⟩
        · rw [hsize] at hoff
          exact Nat.lt_of_mul_lt_mul_right hoff
        · have hle' : 1 * ps ≤ m * ps := Nat.mul_le_mul_right ps hm
          have hlt : t * 2 ^ (c + RTHEAP_MINLOG2) < 1 * 2 ^ (c + RTHEAP_MINLOG2) := by
            omega
          exact Nat.lt_of_mul_lt_mul_right hlt
      have hin : p + t * 2 ^ (c + RTHEAP_MINLOG2) ∈ p :: l := by
        rw [← hl]
        exact mem_places.mpr ⟨t, ht, rfl⟩
      rcases List.mem_cons.mp hin with hat | hin
      · exact Or.inr ⟨_, List.mem_cons_self .., hle, rfl, hat.symm⟩
      · refine Or.inl ?_
        rw [Function.update_self]
        exact hin
  | run m xs' hm hcut =>
    refine h.cut hps hcut hlive (fun c' d hd => ?_) fun F => ?_
    · rcases hd with hd | ⟨b, hb, hrest⟩
      · exact Or.inl hd
      · exact Or.inr ⟨b, hlive b hb, hrest⟩
    · exact @accounted_run _ _ F ps ⟨p, n, m * ps⟩ (List.mem_cons_self ..) hm

/-- A page of one extent is in no other. -/
theorem other_page {pre post : List (Extent × List Nat)} {e : Extent} {F : List Nat}
    (J : Inv heap mem live (pre ++ (e, F) :: post) B) {x : Extent × List Nat}
    (hx : x ∈ pre ∨ x ∈ post) {i j : Nat} (hi : i < heap.npages) (hj : j < heap.npages) :
    x.1.membase + j * heap.pagesize ≠ e.membase + i * heap.pagesize := by
  have hx' : x ∈ pre ++ (e, F) :: post := by
    rcases hx with hx | hx
    · exact List.mem_append_left _ hx
    · exact List.mem_append_right _ (List.mem_cons_of_mem _ hx)
  have he : (e, F) ∈ pre ++ (e, F) :: post :=
    List.mem_append_right _ (List.mem_cons_self ..)
  have hps := J.geometry.pos
  have hlim := (J.pages x.1 (J.ext_mem hx')).lim
  have hlim' : e.memlim = e.membase + heap.npages * heap.pagesize :=
    (J.pages e (J.ext_mem he)).lim
  have hlt : j * heap.pagesize < heap.npages * heap.pagesize :=
    Nat.mul_lt_mul_of_pos_right hj hps
  have hlt' : i * heap.pagesize < heap.npages * heap.pagesize :=
    Nat.mul_lt_mul_of_pos_right hi hps
  have hapart := J.apart
  rw [J.exts, List.pairwise_map] at hapart
  obtain ⟨-, hpost, hcross⟩ := List.pairwise_append.mp hapart
  have hside : ApartFrom x.1 e ∨ ApartFrom e x.1 := by
    rcases hx with hx | hx
    · exact Or.inl (hcross x hx (e, F) (List.mem_cons_self ..))
    · exact Or.inr ((List.pairwise_cons.mp hpost).1 x hx)
  rcases hside with (h | h) | (h | h) <;> omega

/-- **What a user gives back.** -/
theorem Complete.returned (h : Complete heap.pagesize heap.npages live xs B)
    (J : Inv heap mem live xs B)
    (hret : Returned heap.pagesize heap.npages xs B b xs' B') :
    Complete heap.pagesize heap.npages (live.erase b) xs' B' := by
  cases hret with
  | block c hsize hle =>
    have hrest : ∀ d ∈ live, d ≠ b → d ∈ live.erase b :=
      fun d hd hne => (List.mem_erase_of_ne hne).mpr hd
    intro x hx j hj
    refine (h x hx j hj).mono id (fun d hd hlarge _ => hrest d hd ?_) fun c' d hd => ?_
    · rintro rfl
      omega
    · rcases hd with hd | ⟨d', hd', hle', hsize', haddr⟩
      · by_cases hc : c' = c
        · subst hc
          refine Or.inl ?_
          rw [Function.update_self]
          exact List.mem_cons_of_mem _ hd
        · refine Or.inl ?_
          rw [Function.update_of_ne hc]
          exact hd
      · by_cases hb : d' = b
        · subst hb
          have hc : c + RTHEAP_MINLOG2 = c' + RTHEAP_MINLOG2 :=
            Nat.pow_right_injective (Nat.le_refl 2) (hsize.symm.trans hsize')
          obtain rfl := Nat.add_right_cancel hc
          refine Or.inl ?_
          rw [Function.update_self, haddr]
          exact List.mem_cons_self ..
        · exact Or.inr ⟨d', hrest d' hd' hb, hle', hsize', haddr⟩
  | run pre post e F i m e' G hlarge hsize hat hxs hin hagain =>
    subst hxs
    have hi : i < heap.npages := by
      have hm : m ≠ 0 := by
        rintro rfl
        omega
      omega
    have hknown : ∀ c d, Known heap.pagesize live B c d →
        Known heap.pagesize (live.erase b) B c d := by
      rintro c d (hd | ⟨d', hd', hle', hrest⟩)
      · exact Or.inl hd
      · refine Or.inr ⟨d', (List.mem_erase_of_ne ?_).mpr hd', hle', hrest⟩
        rintro rfl
        omega
    -- the heads of the other runs
    have hother : ∀ x ∈ pre ++ (e, F) :: post, ∀ j, j < heap.npages →
        (x ∈ pre ∨ x ∈ post ∨ (x = (e, F) ∧ j ≠ i)) → ∀ {F'},
        (x.1.membase + j * heap.pagesize ∈ x.2 → x.1.membase + j * heap.pagesize ∈ F') →
        Accounted heap.pagesize (live.erase b) B F'
          (x.1.membase + j * heap.pagesize) (x.1.pagemap j) := by
      intro x hx j hj hside F' hF'
      refine (h x hx j hj).mono hF' (fun d hd _ hdat => ?_) hknown
      refine (List.mem_erase_of_ne ?_).mpr hd
      rintro rfl
      have heq := hdat.symm.trans hat
      rcases hside with hside | hside | ⟨rfl, hne⟩
      · exact other_page J (Or.inl hside) hi hj heq
      · exact other_page J (Or.inr hside) hi hj heq
      · exact hne (Nat.eq_of_mul_eq_mul_right J.geometry.pos (Nat.add_left_cancel heq))
    intro x hx j hj
    rcases List.mem_append.mp hx with hx | hx
    · exact hother x (List.mem_append_left _ hx) j hj (Or.inl hx) id
    cases hx with
    | tail _ hx =>
      exact hother x (List.mem_append_right _ (List.mem_cons_of_mem _ hx)) j hj
        (Or.inr (Or.inl hx)) id
    | head =>
      show Accounted _ _ _ G (e'.membase + j * heap.pagesize) (e'.pagemap j)
      rw [hagain.base]
      by_cases hrun : i ≤ j ∧ j < i + m
      · rw [hagain.freed j hrun.1 hrun.2]
        refine accounted_free ((hagain.pages _).mpr (Or.inr ?_))
        refine mem_places.mpr ⟨j - i, by omega, ?_⟩
        rw [hat, Nat.add_assoc, ← Nat.add_mul, Nat.add_sub_cancel' hrun.1]
      · rw [hagain.other j (by omega)]
        have hm : m ≠ 0 := by
          rintro rfl
          omega
        refine hother (e, F) (List.mem_append_right _ (List.mem_cons_self ..)) j hj
          (Or.inr (Or.inr ⟨rfl, by omega⟩)) fun hin' => ?_
        exact (hagain.pages _).mpr (Or.inl hin')

end Pages

/-! ## Runs -/

/-- A block without what was asked for, which may be more than it has if rounding
    has wrapped around. -/
def bare (b : Block) : Block := { b with n := 0 }

/-- What a step does to the blocks of the users, the free lists and the
    buckets. -/
inductive Moved (heap : Rtheap) (live : List Block) (xs : List (Extent × List Nat))
    (B : Nat → List Nat) :
    Act → List Block → List (Extent × List Nat) → (Nat → List Nat) → Prop where
  | nothing (n : Nat) : Moved heap live xs B (.alloc n) live xs B
  | gets (n p : Nat) {xs' : List (Extent × List Nat)} {B' : Nat → List Nat} (hn : n ≠ 0)
      (h : Given heap.pagesize xs B p (blockSize heap n) xs' B') :
      Moved heap live xs B (.alloc n) (⟨p, 0, blockSize heap n⟩ :: live) xs' B'
  | gives (b : Block) (hb : bare b ∈ live) {xs' : List (Extent × List Nat)}
      {B' : Nat → List Nat} (h : Returned heap.pagesize heap.npages xs B (bare b) xs' B') :
      Moved heap live xs B (.free b) (live.erase (bare b)) xs' B'
  | writes (b : Block) (mem : Mem) : Moved heap live xs B (.write b mem) live xs B

/-- The runs that are released end where they end in the page map. -/
def Exact (st : St) : Act → Prop
  | .free b => ¬ RunsOn st.heap b
  | _ => True

instance (st : St) (a : Act) : Decidable (Exact st a) :=
  match a with
  | .alloc _ => .isTrue trivial
  | .free b => inferInstanceAs (Decidable (¬ (2 * st.heap.pagesize < b.size ∧
      ∃ e ∈ st.heap.extents, e.membase < b.addr ∧ b.addr + b.size = e.memlim ∧
        e.pagemap st.heap.npages = RTHEAP_PCONT)))
  | .write _ _ => .isTrue trivial

/-- **The page map is complete.** -/
def Kept (st : St) : Prop :=
  ∃ xs B, Inv st.heap st.mem (st.live.map bare) xs B ∧
    Complete st.heap.pagesize st.heap.npages (st.live.map bare) xs B

section Steps

variable {st st' : St} {a : Act} {o : Int} {heap heap' : Rtheap} {mem mem' : Mem}
  {live live' : List Block} {xs xs' : List (Extent × List Nat)} {B B' : Nat → List Nat}
  {b : Block} {n p : Nat}

/-- The addresses are the same. -/
theorem map_addr_bare (live : List Block) :
    (live.map bare).map Block.addr = live.map Block.addr := by
  rw [List.map_map]
  rfl

theorem erase_bare (hnodup : (live.map Block.addr).Nodup) (hb : b ∈ live) :
    (live.map bare).erase (bare b) = (live.erase b).map bare := by
  induction live with
  | nil => exact nomatch hb
  | cons d live ih =>
    rw [List.map_cons] at hnodup ⊢
    obtain ⟨hd, hnodup⟩ := List.nodup_cons.mp hnodup
    by_cases hdb : d = b
    · subst hdb
      rw [List.erase_cons_head, List.erase_cons_head]
    · have hb' : b ∈ live := (List.mem_cons.mp hb).resolve_left fun h => hdb h.symm
      have hne : bare d ≠ bare b := by
        intro he
        have haddr : (bare d).addr = (bare b).addr := congrArg Block.addr he
        have haddr' : d.addr = b.addr := haddr
        rw [haddr'] at hd
        exact hd (List.mem_map_of_mem hb')
      have hne' : ¬ (bare d == bare b) = true := fun h => hne (eq_of_beq h)
      have hdb' : ¬ (d == b) = true := fun h => hdb (eq_of_beq h)
      rw [List.erase_cons_tail hne', List.erase_cons_tail hdb', List.map_cons, ih hnodup hb']

/-- **What a step does.** -/
theorem step_moved (J : Inv st.heap st.mem (st.live.map bare) xs B) (hG : Exact st a)
    (h : step st a = some (st', o)) :
    ∃ xs' B', Inv st'.heap st'.mem (st'.live.map bare) xs' B' ∧
      Moved st.heap (st.live.map bare) xs B a (st'.live.map bare) xs' B' := by
  cases a with
  | alloc n =>
    simp only [step] at h
    obtain ⟨block, heap, mem, halloc, hgives⟩ := rtheapAlloc_gives J n
    split at h
    · cases h
    rw [halloc] at h
    dsimp only at h
    rcases hgives with ⟨h0, rfl, rfl⟩ | ⟨hne, xs', B', hgiven, J'⟩
    · rw [if_pos h0] at h
      cases h
      exact ⟨xs, B, J, Moved.nothing n⟩
    · rw [if_neg hne] at h
      cases h
      refine ⟨xs', B', J' 0 (Nat.zero_le _), Moved.gets n block ?_ hgiven⟩
      rintro rfl
      cases halloc
      exact hne rfl
  | free b =>
    simp only [step] at h
    split at h
    · next hb =>
        have hb' : bare b ∈ st.live.map bare := List.mem_map_of_mem hb
        obtain ⟨heap, mem, xs', B', hfree, J', -, hret⟩ := rtheapFree_spec J hb' hG
        have hfree' : rtheapFree st.heap st.mem b.addr = some (0, heap, mem) := hfree
        rw [hfree'] at h
        dsimp only at h
        rw [if_pos rfl] at h
        cases h
        have hnodup := J.live_addr
        rw [map_addr_bare] at hnodup
        have herase := erase_bare hnodup hb
        refine ⟨xs', B', ?_, ?_⟩
        · rw [← herase]
          exact J'
        · rw [← herase]
          exact Moved.gives b hb' hret
    · cases h
  | write b mem =>
    simp only [step] at h
    split at h
    · next hb =>
        cases h
        have hb' : bare b ∈ st.live.map bare := List.mem_map_of_mem hb
        exact ⟨xs, B, write_keeps J hb' mem, Moved.writes b mem⟩
    · cases h

theorem Complete.moved (h : Complete heap.pagesize heap.npages live xs B)
    (J : Inv heap mem live xs B) (hmoved : Moved heap live xs B a live' xs' B') :
    Complete heap.pagesize heap.npages live' xs' B' := by
  cases hmoved with
  | nothing n => exact h
  | gets n p hn hgiven => exact h.given J.geometry.pos hgiven 0
  | gives b hb hret => exact h.returned J hret
  | writes b mem => exact h

/-! ### The sizes do not change -/

/-- A step leaves the pages as large and as many as they are. -/
def SameSizes (heap heap' : Rtheap) : Prop :=
  heap'.pagesize = heap.pagesize ∧ heap'.npages = heap.npages

theorem allocBlock_sizes {k : Nat} (h : allocBlock heap mem k = some (p, heap', mem')) :
    SameSizes heap heap' := by
  simp only [allocBlock] at h
  split at h
  · split at h
    · cases h
    · cases h
      exact ⟨rfl, rfl⟩
    · cases h
      exact ⟨rfl, rfl⟩
  · cases h
    exact ⟨rfl, rfl⟩

theorem allocRange_sizes {size : Nat}
    (h : allocRange heap mem size = some (p, heap', mem')) : SameSizes heap heap' := by
  simp only [allocRange] at h
  split at h
  · cases h
  · cases h
    exact ⟨rfl, rfl⟩
  · cases h
    exact ⟨rfl, rfl⟩

theorem rtheapAlloc_sizes (h : rtheapAlloc heap mem n = some (p, heap', mem')) :
    SameSizes heap heap' := by
  simp only [rtheapAlloc] at h
  split at h
  · cases h
    exact ⟨rfl, rfl⟩
  split at h
  · exact allocBlock_sizes h
  split at h
  · cases h
    exact ⟨rfl, rfl⟩
  · exact allocRange_sizes h

theorem rtheapFree_sizes (h : rtheapFree heap mem p = some (o, heap', mem')) :
    SameSizes heap heap' := by
  simp only [rtheapFree, Option.bind_eq_bind, Option.bind_eq_some_iff] at h
  obtain ⟨⟨pre, e, post⟩, -, h⟩ := h
  dsimp only at h
  split at h
  · cases h
    exact ⟨rfl, rfl⟩
  split at h
  · obtain ⟨⟨bsize, e', m⟩, -, h⟩ := Option.bind_eq_some_iff.mp h
    cases h
    exact ⟨rfl, rfl⟩
  split at h
  · cases h
    exact ⟨rfl, rfl⟩
  · cases h
    exact ⟨rfl, rfl⟩

theorem step_sizes (h : step st a = some (st', o)) : SameSizes st.heap st'.heap := by
  cases a with
  | alloc n =>
    simp only [step] at h
    split at h
    · cases h
    cases halloc : rtheapAlloc st.heap st.mem n with
    | none =>
      rw [halloc] at h
      cases h
    | some result =>
      obtain ⟨block, heap, mem⟩ := result
      rw [halloc] at h
      dsimp only at h
      split at h
      · cases h
        exact rtheapAlloc_sizes halloc
      · cases h
        exact rtheapAlloc_sizes halloc
  | free b =>
    simp only [step] at h
    split at h
    · cases hfree : rtheapFree st.heap st.mem b.addr with
      | none =>
        rw [hfree] at h
        cases h
      | some result =>
        obtain ⟨res, heap, mem⟩ := result
        rw [hfree] at h
        dsimp only at h
        split at h
        · cases h
          exact rtheapFree_sizes hfree
        · cases h
          exact rtheapFree_sizes hfree
    · cases h
  | write b mem =>
    simp only [step] at h
    split at h
    · cases h
      exact ⟨rfl, rfl⟩
    · cases h

/-- **A step keeps the page map complete.** -/
theorem Kept.step (hk : Kept st) (hG : Exact st a) (h : step st a = some (st', o)) :
    Kept st' := by
  obtain ⟨xs, B, J, hc⟩ := hk
  obtain ⟨xs', B', J', hmoved⟩ := step_moved J hG h
  obtain ⟨hps, hnp⟩ := step_sizes h
  refine ⟨xs', B', J', ?_⟩
  rw [hps, hnp]
  exact hc.moved J hmoved

end Steps

/-! ## From the start -/

/-- Each extent has room for the header and a page, and if it is longer than the
    heap that is asked for, the header has room for the map of its pages. -/
def HasRoom (heapaddr large : Option Area) (heapsize pagesize : Nat) (suprt : Bool) :
    Prop :=
  headerSize heapsize pagesize + pagesize ≤ (heapArea heapaddr large suprt heapsize).2 ∧
    (heapsize < (heapArea heapaddr large suprt heapsize).2 →
      (heapArea heapaddr large suprt heapsize).2 + 39 * pagesize <
        headerSize heapsize pagesize * (pagesize + 1))

section Init

variable {heapaddr large : Option Area} {core : Nat → Option Area}
  {heapsize pagesize : Nat} {suprt : Bool} {heap : Rtheap} {mem mem₀ : Mem} {st₀ st : St}

/-- A map that is in the header leaves a byte behind it, since headers are a
    multiple of 16 bytes. -/
theorem byte_behind (hg : Geometry pagesize (Nat.log2 pagesize))
    (hroom : headerSize heapsize pagesize + 2 * pagesize ≤ KMALLOC_LIMIT)
    (hmap : KMALLOC_LIMIT + 39 * pagesize < headerSize heapsize pagesize * (pagesize + 1)) :
    KMALLOC_LIMIT + 40 * pagesize < headerSize heapsize pagesize * (pagesize + 1) := by
  have hlimit : KMALLOC_LIMIT = 2 ^ 17 := rfl
  obtain ⟨h, hh⟩ : 16 ∣ headerSize heapsize pagesize := Nat.dvd_mul_left ..
  obtain ⟨hsize, hge, -⟩ := hg
  generalize Nat.log2 pagesize = k at hsize hge
  have hge' : 4 ≤ k := hge
  have hk : k ≤ 16 := by
    by_contra hlt
    have hle : 2 ^ 17 ≤ 2 ^ k := Nat.pow_le_pow_right (Nat.succ_pos 1) (by omega)
    omega
  rw [hh] at hroom hmap ⊢
  subst hsize
  rw [hlimit] at hroom hmap ⊢
  interval_cases k <;> omega

theorem ready_of_room (h : rtheapInit heapaddr large core heapsize pagesize suprt mem₀ ≠
      .error RTHEAP_PARAM)
    (hroom : HasRoom heapaddr large heapsize pagesize suprt) :
    Ready (newHeap heapsize pagesize (heapArea heapaddr large suprt heapsize).2) := by
  obtain ⟨hg, hmax, htwo⟩ := accepted_spec h
  obtain ⟨hpage, hmap⟩ := hroom
  rcases Nat.lt_or_ge heapsize (heapArea heapaddr large suprt heapsize).2 with hlt | hle
  · have hlimit : KMALLOC_LIMIT = 2 ^ 17 := rfl
    have hsize : (heapArea heapaddr large suprt heapsize).2 = KMALLOC_LIMIT := by
      rcases heapArea_cases heapaddr large heapsize suprt with ⟨-, hsize⟩ | ⟨-, hsize⟩
      · omega
      · rw [hsize]
    have hmap' := hmap hlt
    rw [hsize] at hlt hmap' ⊢
    have hps : 0 < pagesize := by
      rw [hg.size]
      exact Nat.pow_pos (Nat.succ_pos 1)
    have hge : 48 ≤ headerSize heapsize pagesize :=
      Nat.le_trans (Nat.le_add_right ..) (headerSize_ge heapsize pagesize)
    have hfits := (fits_longer hg htwo (Nat.le_of_lt hlt) (by omega)).mpr hmap'
    have hpages : headerSize heapsize pagesize +
      (newHeap heapsize pagesize KMALLOC_LIMIT).npages * pagesize ≤ KMALLOC_LIMIT :=
      hfits.pages
    have hnp := @npages_of_room heapsize pagesize KMALLOC_LIMIT hg (by omega) (by omega)
    have hbyte := byte_behind hg (by omega) hmap'
    have hless : headerSize heapsize pagesize < KMALLOC_LIMIT := by omega
    exact {
      geometry := hg
      hdr_pos := by
        show 0 < headerSize heapsize pagesize
        omega
      hdr_aligned := Nat.dvd_mul_left ..
      npages := hfits.pages
      some_page := Nat.lt_of_lt_of_le (Nat.succ_pos 1) hfits.two_pages
      npages_lt := by
        have hle := Nat.mul_le_mul_left (newHeap heapsize pagesize KMALLOC_LIMIT).npages hps
        omega
      header := by
        show 40 + _ < headerSize heapsize pagesize
        rw [hnp]
        generalize headerSize heapsize pagesize = hdrsize at hbyte hge hless
        obtain ⟨k, rfl⟩ : ∃ k, hdrsize = k + 40 := ⟨hdrsize - 40, by omega⟩
        have hdiv := @Nat.div_lt_iff_lt_mul pagesize (KMALLOC_LIMIT - (k + 40)) k hps
        rw [Nat.mul_add, Nat.mul_one, Nat.add_mul] at hbyte
        omega }
  · exact newHeap_ready hg hmax hle hpage

/-- **The page map of a new heap is complete**, and all pages are free. -/
theorem kept_init (hinit : rtheapInit heapaddr large core heapsize pagesize suprt mem₀ =
      .ok (heap, mem))
    (hcore : ∀ i j area area', i < j → core i = some area → core j = some area' →
      area.addr + (heapArea heapaddr large suprt heapsize).2 ≤ area'.addr ∨
        area'.addr + (heapArea heapaddr large suprt heapsize).2 ≤ area.addr)
    (hroom : HasRoom heapaddr large heapsize pagesize suprt) : Kept ⟨heap, mem, []⟩ := by
  obtain ⟨xs, J, hfresh⟩ :=
    rtheapInit_fresh hinit (ready_of_room (accepted_of_init hinit) hroom) hcore
  exact ⟨xs, fun _ => [], J, complete_fresh hfresh⟩

/-- **And so it stays.** -/
theorem kept_run (h : Reach step Exact st₀ st) (h0 : Kept st₀) : Kept st :=
  h.invariant h0 fun _ _ _ _ hs hG hstep => hs.step hG hstep

end Init

end RtaiHeapComplete
