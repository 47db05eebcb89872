import Rtai.RegistryErrors

/-! # The links of the registry while names are inserted

    Between the two sections of an insertion a name has no address yet.
    `Linked` is what holds of the table then: the addresses are found, and a
    name and its address point at each other.  Several insertions may be under
    way. -/

namespace RtaiRegistryLinks

open RtaiProbing RtaiRegistry RtaiRegistrySlots RtaiRegistryErrors

/-- **NAMES AND ADDRESSES POINT AT EACH OTHER**, but for the names whose address
    is not there yet. -/
structure Linked (list : Slots) (n : Nat) : Prop where
  pos : 0 < n
  adrs : Column n (adrs list)
  toAdr : ∀ k, Seat n k → NONAME < (list k).name → (list k).alink ≠ 0 →
    Seat n (list k).alink ∧ NOADR < (list (list k).alink).adr ∧ (list (list k).alink).nlink = k
  toName : ∀ j, Seat n j → NOADR < (list j).adr →
    Seat n (list j).nlink ∧ NONAME < (list (list j).nlink).name ∧
      (list (list j).nlink).alink = j
  unused : (list 0).adr = 0

theorem linked_cleared {n : Nat} (hn : 0 < n) : Linked cleared n where
  pos := hn
  adrs := column_empty n
  toAdr := fun _ _ h => absurd h (Nat.not_lt_zero 1)
  toName := fun _ _ h => absurd h (Nat.not_lt_zero 1)
  unused := rfl

/-- The name stands for the address. -/
def Names (list : Slots) (n name adr : Nat) : Prop :=
  ∃ k, Seat n k ∧ NONAME < name ∧ (list k).name = name ∧ (list k).alink ≠ 0 ∧
    (list (list k).alink).adr = adr

/-- The slot of a name that waits for its address. -/
def Waiting (list : Slots) (n k : Nat) : Prop :=
  Seat n k ∧ NONAME < (list k).name ∧ (list k).alink = 0

section Links

variable {list list' : Slots} {n k j name adr : Nat} {type : Int} {t : Nat}

theorem Linked.names_adr (L : Linked list n) (h : Names list n name adr) :
    NOADR < adr ∧ ∃ j, Seat n j ∧ (list j).adr = adr := by
  obtain ⟨k, hk, hname, rfl, hlink, rfl⟩ := h
  obtain ⟨h1, h2, -⟩ := L.toAdr k hk hname hlink
  exact ⟨h2, _, h1, rfl⟩

/-! ## What does not touch the links -/

theorem Linked.relabel (L : Linked list n)
    (h : ∀ x, (list' x).name = (list x).name ∧ (list' x).adr = (list x).adr ∧
      (list' x).alink = (list x).alink ∧ (list' x).nlink = (list x).nlink) :
    Linked list' n := by
  have hadrs : RtaiRegistry.adrs list' = RtaiRegistry.adrs list :=
    funext fun x => (h x).2.1
  refine ⟨L.pos, hadrs ▸ L.adrs, ?_, ?_, ?_⟩
  · intro k hk hname hlink
    rw [(h k).1] at hname
    rw [(h k).2.2.1] at hlink ⊢
    rw [(h _).2.1, (h _).2.2.2]
    exact L.toAdr k hk hname hlink
  · intro j hj hadr
    rw [(h j).2.1] at hadr
    rw [(h j).2.2.2, (h _).1, (h _).2.2.1]
    exact L.toName j hj hadr
  · rw [(h 0).2.1]
    exact L.unused

theorem names_relabel (h : ∀ x, (list' x).name = (list x).name ∧ (list' x).adr = (list x).adr ∧
      (list' x).alink = (list x).alink ∧ (list' x).nlink = (list x).nlink) :
    Names list' n name adr ↔ Names list n name adr := by
  unfold Names
  constructor
  · rintro ⟨k, hk, hname, h1, h2, h3⟩
    rw [(h k).1] at h1
    rw [(h k).2.2.1] at h2 h3
    rw [(h _).2.1] at h3
    exact ⟨k, hk, hname, h1, h2, h3⟩
  · rintro ⟨k, hk, hname, h1, h2, h3⟩
    refine ⟨k, hk, hname, (h k).1.trans h1, ?_, ?_⟩
    · rw [(h k).2.2.1]
      exact h2
    · rw [(h k).2.2.1, (h _).2.1]
      exact h3

/-! ## The section of the name -/

theorem setName_self (list : Slots) (k : Nat) :
    setName name type t list k k = { list k with
      name := name, type := type, tsk := t, count := 1, alink := 0 } := by
  unfold setName
  rw [Function.update_self]

theorem setName_of_ne (list : Slots) {k x : Nat} (h : x ≠ k) :
    setName name type t list k x = list x := by
  unfold setName
  rw [Function.update_of_ne h]

/-- A slot without a name is nobody's. -/
theorem Linked.nlink_ne (L : Linked list n) (hk : (list k).name ≤ NONAME)
    (hj : Seat n j) (hadr : NOADR < (list j).adr) : (list j).nlink ≠ k := by
  rintro rfl
  exact absurd (L.toName j hj hadr).2.1 (not_lt.mpr hk)

/-- **A name is inserted that has no address yet.** -/
theorem Linked.setName (L : Linked list n) (hfree : (list k).name ≤ NONAME) :
    Linked (setName name type t list k) n := by
  have hadrs := @adrs_setName name type t list k
  have hadr : ∀ x, (RtaiRegistry.setName name type t list k x).adr =
      (list x).adr := fun x => congrFun hadrs x
  have hnlink : ∀ x, (RtaiRegistry.setName name type t list k x).nlink = (list x).nlink := by
    intro x
    by_cases hx : x = k
    · rw [hx, setName_self]
    · rw [setName_of_ne list hx]
  refine ⟨L.pos, hadrs ▸ L.adrs, ?_, ?_, (hadr 0).trans L.unused⟩
  · intro x hx hname hlink
    by_cases hxk : x = k
    · rw [hxk, setName_self] at hlink
      exact absurd rfl hlink
    · rw [setName_of_ne list hxk] at hname hlink ⊢
      rw [hadr, hnlink]
      exact L.toAdr x hx hname hlink
  · intro j hj hj1
    rw [hadr] at hj1
    have hne := L.nlink_ne hfree hj hj1
    rw [hnlink, setName_of_ne list hne]
    exact L.toName j hj hj1

theorem names_setName {m a : Nat} (hfree : (list k).name ≤ NONAME) :
    Names (setName name type t list k) n m a ↔ Names list n m a := by
  have hadr : ∀ x, (setName name type t list k x).adr = (list x).adr :=
    fun x => congrFun (adrs_setName list k) x
  constructor
  · rintro ⟨x, hx, hm, h1, h2, h3⟩
    have hxk : x ≠ k := by
      rintro rfl
      rw [setName_self] at h2
      exact h2 rfl
    rw [hadr] at h3
    rw [setName_of_ne list hxk] at h1 h2 h3
    exact ⟨x, hx, hm, h1, h2, h3⟩
  · rintro ⟨x, hx, hm, h1, h2, h3⟩
    have hxk : x ≠ k := by
      rintro rfl
      rw [← h1] at hm
      exact absurd hm (not_lt.mpr hfree)
    refine ⟨x, hx, hm, ?_, ?_, ?_⟩
    · rw [setName_of_ne list hxk]
      exact h1
    · rw [setName_of_ne list hxk]
      exact h2
    · rw [hadr, setName_of_ne list hxk]
      exact h3

/-! ## The section of the address -/

/-- What the section writes. -/
theorem setAdr_fields (adr : Nat) (list : Slots) (k j x : Nat) :
    (setAdr adr list k j x).name = (list x).name ∧
      (setAdr adr list k j x).adr = (if x = j then adr else (list x).adr) ∧
      (setAdr adr list k j x).alink = (if x = k then j else (list x).alink) ∧
      (setAdr adr list k j x).nlink = (if x = j then k else (list x).nlink) := by
  unfold setAdr
  by_cases hxk : x = k <;> by_cases hxj : x = j <;> by_cases hkj : k = j <;>
    simp_all

/-- **A name that waits gets its address.** -/
theorem Linked.setAdr (L : Linked list n) (hk : Waiting list n k)
    (hj : Seat n j) (hj1 : (list j).adr ≤ NOADR) (hadr : NOADR < adr)
    (hcol : Column n (Function.update (RtaiRegistry.adrs list) j adr)) :
    Linked (setAdr adr list k j) n := by
  obtain ⟨hseat, hlive, hwait⟩ := hk
  have hf := setAdr_fields adr list k j
  have hadrs : RtaiRegistry.adrs (RtaiRegistry.setAdr adr list k j) =
      Function.update (RtaiRegistry.adrs list) j adr := by
    funext x
    rw [Function.update_apply]
    exact (hf x).2.1
  refine ⟨L.pos, hadrs ▸ hcol, ?_, ?_, ?_⟩
  · intro x hx hname hlink
    rw [(hf x).1] at hname
    rw [(hf x).2.2.1] at hlink ⊢
    by_cases hxk : x = k
    · rw [if_pos hxk, (hf j).2.1, (hf j).2.2.2, if_pos rfl, if_pos rfl]
      exact ⟨hj, hadr, hxk.symm⟩
    · rw [if_neg hxk] at hlink ⊢
      obtain ⟨h1, h2, h3⟩ := L.toAdr x hx hname hlink
      have hne : (list x).alink ≠ j := by
        rintro rfl
        exact absurd h2 (not_lt.mpr hj1)
      rw [(hf _).2.1, (hf _).2.2.2, if_neg hne, if_neg hne]
      exact ⟨h1, h2, h3⟩
  · intro y hy hy1
    rw [(hf y).2.1] at hy1
    rw [(hf y).2.2.2]
    by_cases hyj : y = j
    · rw [if_pos hyj, (hf k).1, (hf k).2.2.1, if_pos rfl]
      exact ⟨hseat, hlive, hyj.symm⟩
    · rw [if_neg hyj] at hy1 ⊢
      obtain ⟨h1, h2, h3⟩ := L.toName y hy hy1
      have hne : (list y).nlink ≠ k := by
        intro heq
        rw [heq, hwait] at h3
        have := hy.1
        omega
      rw [(hf _).1, (hf _).2.2.1, if_neg hne]
      exact ⟨h1, h2, h3⟩
  · have hj0 : 0 ≠ j := by
      have := hj.1
      omega
    rw [(hf 0).2.1, if_neg hj0]
    exact L.unused

theorem Linked.names_setAdr (L : Linked list n) (hk : Waiting list n k)
    (hj : Seat n j) (hj1 : (list j).adr ≤ NOADR) {m a : Nat} :
    Names (RtaiRegistry.setAdr adr list k j) n m a ↔
      Names list n m a ∨ m = (list k).name ∧ a = adr := by
  obtain ⟨hseat, hlive, hwait⟩ := hk
  have hf := setAdr_fields adr list k j
  constructor
  · rintro ⟨x, hx, hm, h1, h2, h3⟩
    rw [(hf x).1] at h1
    rw [(hf x).2.2.1] at h2 h3
    by_cases hxk : x = k
    · rw [if_pos hxk, (hf j).2.1, if_pos rfl] at h3
      exact Or.inr ⟨hxk ▸ h1.symm, h3.symm⟩
    · rw [if_neg hxk] at h2 h3
      have hne : (list x).alink ≠ j := by
        intro heq
        have h4 := (L.toAdr x hx (h1 ▸ hm) h2).2.1
        rw [heq] at h4
        exact absurd h4 (not_lt.mpr hj1)
      rw [(hf _).2.1, if_neg hne] at h3
      exact Or.inl ⟨x, hx, hm, h1, h2, h3⟩
  · rintro (⟨x, hx, hm, h1, h2, h3⟩ | ⟨rfl, rfl⟩)
    · have hxk : x ≠ k := by
        rintro rfl
        exact h2 hwait
      have hne : (list x).alink ≠ j := by
        intro heq
        have h4 := (L.toAdr x hx (h1 ▸ hm) h2).2.1
        rw [heq] at h4
        exact absurd h4 (not_lt.mpr hj1)
      refine ⟨x, hx, hm, (hf x).1.trans h1, ?_, ?_⟩
      · rw [(hf x).2.2.1, if_neg hxk]
        exact h2
      · rw [(hf x).2.2.1, if_neg hxk, (hf _).2.1, if_neg hne]
        exact h3
    · have hj0 : j ≠ 0 := by
        have := hj.1
        omega
      refine ⟨k, hseat, hlive, (hf k).1, ?_, ?_⟩
      · rw [(hf k).2.2.1, if_pos rfl]
        exact hj0
      · rw [(hf k).2.2.1, if_pos rfl, (hf j).2.1, if_pos rfl]

/-! ## Removal -/

/-- **An address goes, and its name with it.** -/
theorem Linked.removes (L : Linked list n) (hj : Seat n j)
    (hadr : NOADR < (list j).adr) : Linked (removed list n (list j).nlink j) n := by
  obtain ⟨h1, h2, h3⟩ := L.toName j hj hadr
  have hle := vacated_le n (RtaiRegistry.names list) (list j).nlink
  have hle' := vacated_le n (RtaiRegistry.adrs list) j
  have hcol := L.adrs.erases L.pos hj hadr
  have heq : RtaiRegistry.adrs (removed list n (list j).nlink j) =
      Function.update (RtaiRegistry.adrs list) j (vacated n (RtaiRegistry.adrs list) j) := by
    funext x
    rw [Function.update_apply]
    rfl
  refine ⟨L.pos, heq ▸ hcol, ?_, ?_, ?_⟩
  · intro x hx hname hlink
    have hxk : x ≠ (list j).nlink := by
      rintro rfl
      have hname' : NONAME < if (list j).nlink = (list j).nlink then
          vacated n (RtaiRegistry.names list) (list j).nlink
        else (list (list j).nlink).name := hname
      rw [if_pos rfl] at hname'
      exact absurd hname' (not_lt.mpr hle)
    have hname' : NONAME < (list x).name := by
      have h : NONAME < if x = (list j).nlink then _ else (list x).name := hname
      rw [if_neg hxk] at h
      exact h
    obtain ⟨g1, g2, g3⟩ := L.toAdr x hx hname' hlink
    have hne : (list x).alink ≠ j := by
      intro heq
      rw [heq] at g3
      exact hxk g3.symm
    refine ⟨g1, ?_, g3⟩
    show NOADR < if (list x).alink = j then _ else (list (list x).alink).adr
    rw [if_neg hne]
    exact g2
  · intro y hy hy1
    have hyj : y ≠ j := by
      rintro rfl
      have h : NOADR < if y = y then vacated n (RtaiRegistry.adrs list) y
        else (list y).adr := hy1
      rw [if_pos rfl] at h
      exact absurd h (not_lt.mpr hle')
    have hy1' : NOADR < (list y).adr := by
      have h : NOADR < if y = j then _ else (list y).adr := hy1
      rw [if_neg hyj] at h
      exact h
    obtain ⟨g1, g2, g3⟩ := L.toName y hy hy1'
    have hne : (list y).nlink ≠ (list j).nlink := by
      intro heq
      rw [heq, h3] at g3
      exact hyj g3.symm
    refine ⟨g1, ?_, g3⟩
    show NONAME < if (list y).nlink = (list j).nlink then _
      else (list (list y).nlink).name
    rw [if_neg hne]
    exact g2
  · have hj0 : 0 ≠ j := by
      have := hj.1
      omega
    show (if 0 = j then _ else (list 0).adr) = 0
    rw [if_neg hj0]
    exact L.unused

/-- What still stands for an address. -/
theorem Linked.names_removed (L : Linked list n) (hj : Seat n j)
    (hadr : NOADR < (list j).adr) {m a : Nat} (h : Names list n m a)
    (hne : a ≠ (list j).adr) :
    Names (removed list n (list j).nlink j) n m a := by
  obtain ⟨x, hx, hm, h1, h2, h3⟩ := h
  have hlink : (list x).alink ≠ j := by
    intro heq
    rw [heq] at h3
    exact hne h3.symm
  have hxk : x ≠ (list j).nlink := by
    rintro rfl
    exact hlink (L.toName j hj hadr).2.2
  refine ⟨x, hx, hm, ?_, h2, ?_⟩
  · show (if x = (list j).nlink then _ else (list x).name) = m
    rw [if_neg hxk]
    exact h1
  · show (if (list x).alink = j then _ else (list (list x).alink).adr) = a
    rw [if_neg hlink]
    exact h3

/-- A slot of the table after a removal has its address, or none. -/
theorem adr_removed (x : Nat) : (removed list n k j x).adr = (list x).adr ∨
      (removed list n k j x).adr ≤ NOADR := by
  show (if x = j then vacated n (adrs list) j else (list x).adr) = _ ∨
    (if x = j then vacated n (adrs list) j else (list x).adr) ≤ NOADR
  by_cases hx : x = j
  · right
    rw [if_pos hx]
    exact vacated_le ..
  · left
    rw [if_neg hx]

/-- A name that waits goes on waiting. -/
theorem Linked.waiting_removed (L : Linked list n) (hj : Seat n j)
    (hadr : NOADR < (list j).adr) (h : Waiting list n k) :
    Waiting (removed list n (list j).nlink j) n k := by
  obtain ⟨hseat, hlive, hwait⟩ := h
  have hne : k ≠ (list j).nlink := by
    rintro rfl
    have h3 := (L.toName j hj hadr).2.2
    rw [hwait] at h3
    have := hj.1
    omega
  refine ⟨hseat, ?_, hwait⟩
  show NONAME < if k = (list j).nlink then _ else (list k).name
  rw [if_neg hne]
  exact hlive

/-- **WHAT A REMOVAL BY ADDRESS LEAVES**: the links, the other addresses with
    their names, and the names that wait. -/
structure Leaves (list list' : Slots) (n adr : Nat) : Prop where
  linked : Linked list' n
  names : ∀ m a, Names list n m a → a ≠ adr → Names list' n m a
  adrs : ∀ x, (list' x).adr = (list x).adr ∨ (list' x).adr ≤ NOADR
  waiting : ∀ k, Waiting list n k → Waiting list' n k

theorem Leaves.same (L : Linked list n) (adr : Nat) : Leaves list list n adr where
  linked := L
  names := fun _ _ h _ => h
  adrs := fun _ => Or.inl rfl
  waiting := fun _ h => h

/-- A count does not touch the links. -/
theorem Linked.counted (L : Linked list n) (k : Nat) (dec : Int) :
    Leaves list (counted list k dec) n adr := by
  have hf := counted_fields list k dec
  refine ⟨L.relabel hf, ?_, ?_, ?_⟩
  · intro m a h _
    exact (names_relabel hf).mpr h
  · intro x
    exact Or.inl (hf x).2.1
  · rintro x ⟨h1, h2, h3⟩
    exact ⟨h1, (hf x).1 ▸ h2, (hf x).2.2.1.trans h3⟩

theorem Leaves.trans {list'' : Slots} (h : Leaves list list' n adr)
    (h' : Leaves list' list'' n adr) : Leaves list list'' n adr where
  linked := h'.linked
  names := fun m a hm hne => h'.names m a (h.names m a hm hne) hne
  adrs := by
    intro x
    rcases h'.adrs x with heq | hle
    · rw [heq]
      exact h.adrs x
    · exact Or.inr hle
  waiting := fun k hk => h'.waiting k (h.waiting k hk)

/-- **`hash_rem_adr`** removes no other address, and not another's name. -/
theorem Linked.remAdr (L : Linked list n) (hadr : NOADR < adr) (dec : Int) :
    Leaves list (hashRemAdr adr list n dec).1 n adr := by
  by_cases hreg : ∃ j, Seat n j ∧ (list j).adr = adr
  · obtain ⟨j, hj, rfl⟩ := hreg
    have hfound := L.adrs.finds L.pos hadr hj rfl
    have hcount := @Linked.counted list n (list j).adr L (list j).nlink dec
    have hf := counted_fields list (list j).nlink dec j
    unfold hashRemAdr
    rw [show lookup n (list j).adr (RtaiRegistry.adrs list) = some j from hfound]
    dsimp only
    rw [if_pos rfl]
    dsimp only
    by_cases hgoes : lastRef list (list j).nlink dec
    · rw [if_pos hgoes, clearName_clearAdr]
      refine hcount.trans ?_
      have L' := hcount.linked
      have hadr' : NOADR < (RtaiRegistry.counted list (list j).nlink dec j).adr := by
        rw [hf.2.1]
        exact hadr
      refine ⟨L'.removes hj hadr', ?_, fun x => adr_removed x,
        fun k hk => L'.waiting_removed hj hadr' hk⟩
      intro m a hm hne
      refine L'.names_removed hj hadr' hm ?_
      rw [hf.2.1]
      exact hne
    · rw [if_neg hgoes]
      exact hcount
  · have hno : ∀ j, Seat n j → RtaiRegistry.adrs list j ≠ adr :=
      fun j hj heq => hreg ⟨j, hj, heq⟩
    unfold hashRemAdr
    rcases lookup_misses L.pos hno with ⟨j, hj, hs, h0⟩ | ⟨hs, -⟩
    · rw [hs]
      dsimp only
      rw [if_neg (show ¬ (list j).adr = adr from hno j hj)]
      exact Leaves.same L adr
    · rw [hs]
      exact Leaves.same L adr

/-- What a lookup returns is an address that its name stands for. -/
theorem Linked.getAdr_names (L : Linked list n) (hname : NONAME < name)
    (h : getAdr ⟨list, n⟩ name ≠ 0) :
    Names list n name (getAdr ⟨list, n⟩ name) := by
  revert h
  unfold getAdr hashFindName
  rcases search_spec L.pos name (fun k => decide
    (names list k ≠ 0 ∧ names list k ≠ name)) with ⟨d, -, hs, -⟩ | ⟨hs, -⟩
  · rw [show lookup n name (names list) = _ from hs]
    dsimp only
    by_cases hk : (list (seat n (home n name) d)).name = name
    · rw [if_pos hk]
      intro h
      refine ⟨_, seat_seat L.pos _ d, hname, hk, ?_, rfl⟩
      intro h0
      refine h ?_
      show (list (list _).alink).adr = 0
      rw [h0]
      exact L.unused
    · rw [if_neg hk]
      intro h
      exact absurd rfl h
  · rw [show lookup n name (names list) = _ from hs]
    intro h
    exact absurd rfl h

end Links

end RtaiRegistryLinks
