import Rtai.Registry

/-! # What keeps the registry together

    Between two calls the names and the addresses are columns whose searches
    are right, and the slot numbers lead from every name to its address and
    back.  Each function of the registry keeps this, or does not concern
    it. -/

namespace RtaiRegistrySlots

open RtaiProbing RtaiRegistry

/-- **THE NAMES AND THE ADDRESSES BELONG TO EACH OTHER.** -/
structure Consistent (list : Slots) (n : Nat) : Prop where
  pos : 0 < n
  names : Column n (names list)
  adrs : Column n (adrs list)
  toAdr : ∀ k, Seat n k → NONAME < (list k).name →
    Seat n (list k).alink ∧ NOADR < (list (list k).alink).adr ∧ (list (list k).alink).nlink = k
  toName : ∀ j, Seat n j → NOADR < (list j).adr →
    Seat n (list j).nlink ∧ NONAME < (list (list j).nlink).name ∧
      (list (list j).nlink).alink = j

theorem consistent_cleared {n : Nat} (hn : 0 < n) : Consistent cleared n where
  pos := hn
  names := column_empty n
  adrs := column_empty n
  toAdr := fun _ _ h => absurd h (Nat.not_lt_zero 1)
  toName := fun _ _ h => absurd h (Nat.not_lt_zero 1)

section Tables

variable {list list' : Slots} {n k j : Nat}

/-- What is known about the objects is of no matter. -/
theorem Consistent.relabel (C : Consistent list n)
    (h : ∀ x, (list' x).name = (list x).name ∧ (list' x).adr = (list x).adr ∧
      (list' x).alink = (list x).alink ∧ (list' x).nlink = (list x).nlink) :
    Consistent list' n := by
  have hnames : RtaiRegistry.names list' = RtaiRegistry.names list :=
    funext fun x => (h x).1
  have hadrs : RtaiRegistry.adrs list' = RtaiRegistry.adrs list :=
    funext fun x => (h x).2.1
  refine ⟨C.pos, hnames ▸ C.names, hadrs ▸ C.adrs, ?_, ?_⟩
  · intro k hk hname
    obtain ⟨h1, -, h3, -⟩ := h k
    rw [h1] at hname
    rw [h3, (h _).2.1, (h _).2.2.2]
    exact C.toAdr k hk hname
  · intro j hj hadr
    obtain ⟨-, h2, -, h4⟩ := h j
    rw [h2] at hadr
    rw [h4, (h _).1, (h _).2.2.1]
    exact C.toName j hj hadr

/-- A new count changes nothing else. -/
theorem relabel_count (c : Nat) (x : Nat) :
    (Function.update list k { list k with count := c } x).name = (list x).name ∧
      (Function.update list k { list k with count := c } x).adr = (list x).adr ∧
      (Function.update list k { list k with count := c } x).alink = (list x).alink ∧
      (Function.update list k { list k with count := c } x).nlink = (list x).nlink := by
  by_cases hx : x = k
  · subst hx
    rw [Function.update_self]
    exact ⟨rfl, rfl, rfl, rfl⟩
  · rw [Function.update_of_ne hx]
    exact ⟨rfl, rfl, rfl, rfl⟩

theorem Consistent.incCount (C : Consistent list n) (k : Nat) :
    Consistent (incCount list k) n :=
  C.relabel (relabel_count _)

theorem Consistent.decCount (C : Consistent list n) (k : Nat) :
    Consistent (decCount list k) n :=
  C.relabel (relabel_count _)

theorem Consistent.counted (C : Consistent list n) (k : Nat) (dec : Int) :
    Consistent (counted list k dec) n := by
  unfold RtaiRegistry.counted
  split
  · exact C.decCount k
  · exact C

/-- There are as many addresses as names: when there is no vacant seat for an
    address there is none for a name. -/
theorem Consistent.full (C : Consistent list n) (h : ∀ j, Seat n j → NOADR < (list j).adr) :
    ∀ k, Seat n k → NONAME < (list k).name := by
  have hfull : (taken n (RtaiRegistry.adrs list)).card = n :=
    card_taken_eq.mpr h
  have hle : (taken n (RtaiRegistry.adrs list)).card ≤
      (taken n (RtaiRegistry.names list)).card := by
    refine Finset.card_le_card_of_injOn (fun j => (list j).nlink) ?_ ?_
    · intro j hj
      obtain ⟨hseat, hadr⟩ := mem_taken.mp (Finset.mem_coe.mp hj)
      obtain ⟨h1, h2, -⟩ := C.toName j hseat hadr
      exact Finset.mem_coe.mpr (mem_taken.mpr ⟨h1, h2⟩)
    · intro i hi j hj heq
      obtain ⟨hi1, hi2⟩ := mem_taken.mp (Finset.mem_coe.mp hi)
      obtain ⟨hj1, hj2⟩ := mem_taken.mp (Finset.mem_coe.mp hj)
      have hi3 := (C.toName i hi1 hi2).2.2
      have hj3 := (C.toName j hj1 hj2).2.2
      dsimp only at heq
      rw [heq] at hi3
      exact hi3.symm.trans hj3
  have hcard : (taken n (RtaiRegistry.names list)).card = n :=
    le_antisymm card_taken_le (le_of_eq_of_le hfull.symm hle)
  exact card_taken_eq.mp hcard

/-- The fields of a table into which a name and its address have been put. -/
theorem registered_fields (name adr : Nat) (type : Int) (tsk : Nat) (x : Nat) :
    (setAdr adr (setName name type tsk list k) k j x).name =
        (if x = k then name else (list x).name) ∧
      (setAdr adr (setName name type tsk list k) k j x).adr =
        (if x = j then adr else (list x).adr) ∧
      (setAdr adr (setName name type tsk list k) k j x).alink =
        (if x = k then j else (list x).alink) ∧
      (setAdr adr (setName name type tsk list k) k j x).nlink =
        (if x = j then k else (list x).nlink) ∧
      (setAdr adr (setName name type tsk list k) k j x).type =
        (if x = k then type else (list x).type) ∧
      (setAdr adr (setName name type tsk list k) k j x).tsk =
        (if x = k then tsk else (list x).tsk) ∧
      (setAdr adr (setName name type tsk list k) k j x).count =
        (if x = k then 1 else (list x).count) := by
  unfold setAdr setName
  by_cases hxk : x = k <;> by_cases hxj : x = j <;> by_cases hkj : k = j <;>
    simp_all [Function.update_apply]

end Tables

/-! ## What is registered -/

/-- What the registry knows of a name. -/
structure Object where
  adr : Nat
  type : Int
  tsk : Nat
  count : Nat
  deriving DecidableEq

/-- The object of the name in slot `k`. -/
def objectAt (list : Slots) (k : Nat) : Object where
  adr := (list (list k).alink).adr
  type := (list k).type
  tsk := (list k).tsk
  count := (list k).count

/-- The name is the one of slot `k`. -/
def NamedAt (list : Slots) (n k name : Nat) : Prop :=
  Seat n k ∧ NONAME < name ∧ (list k).name = name

/-- The name stands for the object. -/
def Registered (list : Slots) (n name : Nat) (o : Object) : Prop :=
  ∃ k, NamedAt list n k name ∧ objectAt list k = o

/-- Nothing is registered to begin with. -/
theorem not_registered_cleared {n name : Nat} {o : Object} :
    ¬ Registered cleared n name o := by
  rintro ⟨k, ⟨-, hname, hk⟩, -⟩
  rw [← hk] at hname
  exact absurd hname (Nat.not_lt_zero 1)

/-- The name stands for nothing. -/
def Unknown (list : Slots) (n name : Nat) : Prop :=
  ∀ k, Seat n k → (list k).name ≠ name

/-- The address is nobody's. -/
def Nameless (list : Slots) (n adr : Nat) : Prop :=
  ∀ j, Seat n j → (list j).adr ≠ adr

section Registered

variable {list : Slots} {n k k' name adr : Nat} {o o' : Object}

theorem Consistent.sameSlot (C : Consistent list n) (h : NamedAt list n k name)
    (h' : NamedAt list n k' name) : k = k' := by
  refine C.names.once k k' h.1 h'.1 ?_ (h.2.2.trans h'.2.2.symm)
  show NONAME < (list k).name
  rw [h.2.2]
  exact h.2.1

/-- **A name stands for one object.** -/
theorem Consistent.sameObject (C : Consistent list n)
    (h : Registered list n name o) (h' : Registered list n name o') :
    o = o' := by
  obtain ⟨k, hk, rfl⟩ := h
  obtain ⟨k', hk', rfl⟩ := h'
  rw [C.sameSlot hk hk']

theorem NamedAt.live (h : NamedAt list n k name) : NONAME < (list k).name := by
  rw [h.2.2]
  exact h.2.1

/-- **An address has one name.** -/
theorem Consistent.sameName (C : Consistent list n) {name' : Nat}
    (h : Registered list n name o) (h' : Registered list n name' o')
    (heq : o.adr = o'.adr) : name = name' := by
  obtain ⟨k, hk, rfl⟩ := h
  obtain ⟨k', hk', rfl⟩ := h'
  obtain ⟨h1, h2, h3⟩ := C.toAdr k hk.1 hk.live
  obtain ⟨g1, g2, g3⟩ := C.toAdr k' hk'.1 hk'.live
  have hlink : (list k).alink = (list k').alink :=
    C.adrs.once _ _ h1 g1 h2 heq
  have hkk : k = k' := by
    rw [hlink] at h3
    exact h3.symm.trans g3
  rw [← hk.2.2, ← hk'.2.2, hkk]

/-- The address of an object is found in its own slot. -/
theorem Consistent.adrSlot (C : Consistent list n) (h : NamedAt list n k name) :
    Seat n (list k).alink ∧ NOADR < (objectAt list k).adr ∧ (list (list k).alink).nlink = k :=
  C.toAdr k h.1 h.live

/-- An address that is somebody's has a name. -/
theorem Consistent.named (C : Consistent list n) {j : Nat} (hj : Seat n j)
    (hadr : NOADR < (list j).adr) :
    NamedAt list n (list j).nlink (list (list j).nlink).name ∧
      (objectAt list (list j).nlink).adr = (list j).adr := by
  obtain ⟨h1, h2, h3⟩ := C.toName j hj hadr
  refine ⟨⟨h1, h2, rfl⟩, ?_⟩
  show (list (list (list j).nlink).alink).adr = _
  rw [h3]

/-- The address of a registered object is not nameless. -/
theorem Consistent.not_nameless (C : Consistent list n)
    (h : Registered list n name o) : ¬ Nameless list n o.adr := by
  obtain ⟨k, hk, rfl⟩ := h
  intro hno
  exact hno _ (C.adrSlot hk).1 rfl

/-- A name is registered or unknown. -/
theorem registered_or_unknown (list : Slots) (n : Nat) (h : NONAME < name) :
    (∃ k, NamedAt list n k name) ∨ Unknown list n name := by
  by_cases hk : ∃ k, Seat n k ∧ (list k).name = name
  · obtain ⟨k, hseat, hname⟩ := hk
    exact Or.inl ⟨k, hseat, h, hname⟩
  · right
    intro k hseat hname
    exact hk ⟨k, hseat, hname⟩

/-- An address is somebody's or nameless. -/
theorem Consistent.adr_cases (C : Consistent list n) (h : NOADR < adr) :
    (∃ k, ∃ m, NamedAt list n k m ∧ (objectAt list k).adr = adr) ∨
      Nameless list n adr := by
  by_cases hj : ∃ j, Seat n j ∧ (list j).adr = adr
  · obtain ⟨j, hseat, hadr⟩ := hj
    obtain ⟨h1, h2⟩ := C.named hseat (hadr ▸ h)
    exact Or.inl ⟨_, _, h1, h2.trans hadr⟩
  · right
    intro j hseat hadr
    exact hj ⟨j, hseat, hadr⟩

end Registered

/-! ## Lookups -/

section Lookups

variable {list : Slots} {n k name adr : Nat} {inc : Bool}

/-- **A registered name is found.** -/
theorem hashFindName_registered (C : Consistent list n) (h : NamedAt list n k name) :
    hashFindName name list n inc =
      (if inc then incCount list k else list, (objectAt list k).adr, k) := by
  unfold hashFindName
  rw [C.names.finds C.pos h.2.1 h.1 h.2.2]
  dsimp only
  rw [if_pos h.2.2]
  rfl

/-- **A name that is not registered is not found.** -/
theorem hashFindName_unknown (C : Consistent list n) (h : Unknown list n name) :
    hashFindName name list n inc = (list, 0, 0) := by
  unfold hashFindName
  rcases lookup_misses (f := names list) C.pos h with ⟨k, hk, hs, h0⟩ | ⟨hs, -⟩
  · rw [hs]
    dsimp only
    rw [if_neg (h k hk)]
  · rw [hs]

/-- **A registered address is found.** -/
theorem hashFindAdr_registered (C : Consistent list n) (h : NamedAt list n k name) :
    hashFindAdr (objectAt list k).adr list n inc =
      (if inc then incCount list k else list, name) := by
  obtain ⟨h1, h2, h3⟩ := C.adrSlot h
  unfold hashFindAdr
  rw [C.adrs.finds C.pos h2 h1 rfl]
  dsimp only
  rw [if_pos (show (list (list k).alink).adr = (objectAt list k).adr from rfl), h3, h.2.2]

/-- **An address that is not registered is not found.** -/
theorem hashFindAdr_nameless (C : Consistent list n)
    (h : Nameless list n adr) : hashFindAdr adr list n inc = (list, 0) := by
  unfold hashFindAdr
  rcases lookup_misses (f := adrs list) C.pos h with ⟨k, hk, hs, h0⟩ | ⟨hs, -⟩
  · rw [hs]
    dsimp only
    rw [if_neg (h k hk)]
  · rw [hs]

end Lookups

/-! ## Insertion -/

section Insertion

variable {list : Slots} {n k j name adr : Nat} {type : Int} {tsk : Nat}

/-- The table with a name in slot `k` and its address in slot `j`. -/
def inserted (list : Slots) (name adr : Nat) (type : Int) (tsk k j : Nat) :
    Slots :=
  setAdr adr (setName name type tsk list k) k j

theorem names_inserted : names (inserted list name adr type tsk k j) =
    Function.update (names list) k name := by
  funext x
  rw [Function.update_apply]
  exact (registered_fields name adr type tsk x).1

theorem adrs_inserted : adrs (inserted list name adr type tsk k j) =
    Function.update (adrs list) j adr := by
  funext x
  rw [Function.update_apply]
  exact (registered_fields name adr type tsk x).2.1

/-- **An insertion keeps the registry together.** -/
theorem Consistent.inserts (C : Consistent list n) (hk : Seat n k)
    (hj : Seat n j) (hname : NONAME < name) (hadr : NOADR < adr)
    (hk1 : (list k).name ≤ NONAME) (hj1 : (list j).adr ≤ NOADR)
    (hnames : Column n (Function.update (RtaiRegistry.names list) k name))
    (hadrs : Column n (Function.update (RtaiRegistry.adrs list) j adr)) :
    Consistent (inserted list name adr type tsk k j) n where
  pos := C.pos
  names := names_inserted ▸ hnames
  adrs := adrs_inserted ▸ hadrs
  toAdr := by
    intro x hx hlive
    have hf := fun k j => @registered_fields list k j
    obtain ⟨f1, -, f3, -⟩ := hf k j name adr type tsk x
    rw [show (inserted list name adr type tsk k j x).name = _ from f1] at hlive
    rw [show (inserted list name adr type tsk k j x).alink = _ from f3]
    by_cases hxk : x = k
    · subst hxk
      rw [if_pos rfl]
      obtain ⟨-, g2, -, g4, -⟩ := hf x j name adr type tsk j
      refine ⟨hj, ?_, ?_⟩
      · show NOADR < (setAdr adr (setName name type tsk list x) x j j).adr
        rw [g2, if_pos rfl]
        exact hadr
      · show (setAdr adr (setName name type tsk list x) x j j).nlink = x
        rw [g4, if_pos rfl]
    · rw [if_neg hxk] at hlive ⊢
      obtain ⟨h1, h2, h3⟩ := C.toAdr x hx hlive
      have hne : (list x).alink ≠ j := by
        intro h
        rw [h] at h2
        omega
      obtain ⟨-, g2, -, g4, -⟩ := hf k j name adr type tsk (list x).alink
      refine ⟨h1, ?_, ?_⟩
      · show NOADR < (setAdr adr _ k j (list x).alink).adr
        rw [g2, if_neg hne]
        exact h2
      · show (setAdr adr _ k j (list x).alink).nlink = x
        rw [g4, if_neg hne]
        exact h3
  toName := by
    intro x hx hlive
    have hf := fun k j => @registered_fields list k j
    obtain ⟨-, f2, -, f4, -⟩ := hf k j name adr type tsk x
    rw [show (inserted list name adr type tsk k j x).adr = _ from f2] at hlive
    rw [show (inserted list name adr type tsk k j x).nlink = _ from f4]
    by_cases hxj : x = j
    · subst hxj
      rw [if_pos rfl]
      obtain ⟨g1, -, g3, -⟩ := hf k x name adr type tsk k
      refine ⟨hk, ?_, ?_⟩
      · show NONAME < (setAdr adr (setName name type tsk list k) k x k).name
        rw [g1, if_pos rfl]
        exact hname
      · show (setAdr adr (setName name type tsk list k) k x k).alink = x
        rw [g3, if_pos rfl]
    · rw [if_neg hxj] at hlive ⊢
      obtain ⟨h1, h2, h3⟩ := C.toName x hx hlive
      have hne : (list x).nlink ≠ k := by
        intro h
        rw [h] at h2
        omega
      obtain ⟨g1, -, g3, -⟩ := hf k j name adr type tsk (list x).nlink
      refine ⟨h1, ?_, ?_⟩
      · show NONAME < (setAdr adr _ k j (list x).nlink).name
        rw [g1, if_neg hne]
        exact h2
      · show (setAdr adr _ k j (list x).nlink).alink = x
        rw [g3, if_neg hne]
        exact h3

/-- **A new name with a new address** is put into the table, unless every slot
    has a name. -/
theorem hashInsName_new {inc : Bool} (C : Consistent list n)
    (hname : NONAME < name) (h : Unknown list n name) (hadr : NOADR < adr)
    (ha : Nameless list n adr) :
    (∃ k j, Seat n k ∧ Seat n j ∧ (list k).name ≤ NONAME ∧ (list j).adr ≤ NOADR ∧
      hashInsName name adr type tsk list n inc =
        (inserted list name adr type tsk k j, (k : Int)) ∧
      Consistent (inserted list name adr type tsk k j) n) ∨
    ((∀ k, Seat n k → NONAME < (list k).name) ∧
      hashInsName name adr type tsk list n inc = (list, 0)) := by
  unfold hashInsName
  rcases C.names.places C.pos hname h with ⟨k, hk, hs, hk1, hcol⟩ | ⟨hs, hall⟩
  · rw [hs]
    dsimp only
    rw [if_neg (h k hk)]
    have hsame : adrs (setName name type tsk list k) = adrs list := by
      funext x
      unfold adrs setName
      by_cases hx : x = k
      · rw [hx, Function.update_self]
      · rw [Function.update_of_ne hx]
    have hno : ∀ x, Seat n x → adrs list x ≠ adr := ha
    rcases C.adrs.places C.pos hadr hno with
      ⟨j, hj, hs', hj1, hcol'⟩ | ⟨-, hall⟩
    · left
      have hins : hashInsAdr adr (setName name type tsk list k) n k =
          (inserted list name adr type tsk k j, (j : Int)) := by
        unfold hashInsAdr
        rw [hsame, hs']
        dsimp only
        have hne : (setName name type tsk list k j).adr ≠ adr := fun h =>
          ha j hj ((congrFun hsame j).symm.trans h)
        rw [if_neg hne]
        rfl
      refine ⟨k, j, hk, hj, hk1, hj1, ?_, C.inserts hk hj hname hadr hk1 hj1 hcol hcol'⟩
      rw [hins]
      dsimp only
      rw [if_neg (by have := hj.1; omega)]
    · -- a seat for the name means a seat for the address
      have hfull := C.full hall k hk
      exact absurd hfull (not_lt.mpr hk1)
  · right
    rw [hs]
    exact ⟨hall, rfl⟩

/-- What is registered after an insertion. -/
theorem registered_inserted (C : Consistent list n) (hk : Seat n k)
    (hname : NONAME < name) (hk1 : (list k).name ≤ NONAME)
    (hj1 : (list j).adr ≤ NOADR) {m : Nat} {o : Object} :
    Registered (inserted list name adr type tsk k j) n m o ↔ Registered list n m o ∨
        m = name ∧ o = { adr := adr, type := type, tsk := tsk, count := 1 } := by
  have hf := fun k j => @registered_fields list k j
  -- the object of the new slot, and of every other one
  have hnew : objectAt (inserted list name adr type tsk k j) k =
      { adr := adr, type := type, tsk := tsk, count := 1 } := by
    obtain ⟨-, -, f3, -, f5, f6, f7⟩ := hf k j name adr type tsk k
    obtain ⟨-, g2, -⟩ := hf k j name adr type tsk j
    unfold objectAt inserted
    rw [f3, f5, f6, f7, if_pos rfl, if_pos rfl, if_pos rfl, if_pos rfl, g2, if_pos rfl]
  have hold : ∀ x, Seat n x → x ≠ k → NONAME < (list x).name →
      objectAt (inserted list name adr type tsk k j) x = objectAt list x := by
    intro x hx hxk hlive
    obtain ⟨-, h2, -⟩ := C.toAdr x hx hlive
    have hne : (list x).alink ≠ j := by
      intro h
      rw [h] at h2
      omega
    obtain ⟨-, -, f3, -, f5, f6, f7⟩ := hf k j name adr type tsk x
    obtain ⟨-, g2, -⟩ := hf k j name adr type tsk (list x).alink
    unfold objectAt inserted
    rw [f3, f5, f6, f7, if_neg hxk, if_neg hxk, if_neg hxk, if_neg hxk, g2, if_neg hne]
  have hnames : ∀ x, (inserted list name adr type tsk k j x).name =
      if x = k then name else (list x).name := fun x =>
    (hf k j name adr type tsk x).1
  constructor
  · rintro ⟨x, ⟨hx, hm, hxm⟩, ho⟩
    rw [hnames] at hxm
    by_cases hxk : x = k
    · subst hxk
      rw [if_pos rfl] at hxm
      right
      exact ⟨hxm.symm, ho.symm.trans hnew⟩
    · rw [if_neg hxk] at hxm
      left
      have hlive : NONAME < (list x).name := by rw [hxm]; exact hm
      exact ⟨x, ⟨hx, hm, hxm⟩, (hold x hx hxk hlive).symm.trans ho⟩
  · rintro (⟨x, hat, ho⟩ | ⟨rfl, rfl⟩)
    · have hxk : x ≠ k := by
        rintro rfl
        have := hat.live
        omega
      refine ⟨x, ⟨hat.1, hat.2.1, ?_⟩, (hold x hat.1 hxk hat.live).trans ho⟩
      rw [hnames, if_neg hxk]
      exact hat.2.2
    · refine ⟨k, ⟨hk, hname, ?_⟩, hnew⟩
      rw [hnames, if_pos rfl]

end Insertion

/-! ## Counting -/

section Counting

variable {list : Slots} {n k name : Nat} {c : Nat}

/-- The table with another count in a slot. -/
def recounted (list : Slots) (k c : Nat) : Slots :=
  Function.update list k { list k with count := c }

theorem Consistent.recounts (C : Consistent list n) (k c : Nat) :
    Consistent (recounted list k c) n :=
  C.relabel (relabel_count c)

theorem namedAt_recounted {k' m : Nat} :
    NamedAt (recounted list k c) n k' m ↔ NamedAt list n k' m := by
  unfold NamedAt
  rw [show (recounted list k c k').name = _ from (relabel_count c k').1]

theorem objectAt_recounted (list : Slots) (k c x : Nat) : objectAt (recounted list k c) x =
      { objectAt list x with
        count := if x = k then c else (list x).count } := by
  have hadr : ∀ y, (recounted list k c y).adr = (list y).adr := fun y =>
    (relabel_count c y).2.1
  unfold objectAt
  rw [show (recounted list k c x).alink = _ from (relabel_count c x).2.2.1, hadr]
  unfold recounted
  by_cases hx : x = k
  · subst hx
    rw [Function.update_self, if_pos rfl]
  · rw [Function.update_of_ne hx, if_neg hx]

/-- What is registered when an object has another count. -/
theorem registered_recounted (C : Consistent list n)
    (h : NamedAt list n k name) {m : Nat} {o : Object} :
    Registered (recounted list k c) n m o ↔
      if m = name then o = { objectAt list k with count := c }
      else Registered list n m o := by
  unfold Registered
  by_cases hm : m = name
  · subst hm
    rw [if_pos rfl]
    constructor
    · rintro ⟨x, hx, rfl⟩
      rw [C.sameSlot (namedAt_recounted.mp hx) h, objectAt_recounted, if_pos rfl]
    · rintro rfl
      refine ⟨k, namedAt_recounted.mpr h, ?_⟩
      rw [objectAt_recounted, if_pos rfl]
  · rw [if_neg hm]
    have hne : ∀ x, NamedAt list n x m → x ≠ k := by
      rintro x hx rfl
      exact hm (hx.2.2.symm.trans h.2.2)
    constructor
    · rintro ⟨x, hx, rfl⟩
      have hx' := namedAt_recounted.mp hx
      refine ⟨x, hx', ?_⟩
      rw [objectAt_recounted, if_neg (hne x hx')]
      rfl
    · rintro ⟨x, hx, rfl⟩
      refine ⟨x, namedAt_recounted.mpr hx, ?_⟩
      rw [objectAt_recounted, if_neg (hne x hx)]
      rfl

theorem counted_eq (list : Slots) (k : Nat) {dec : Int} (h : dec ≠ 0) :
    counted list k dec = recounted list k ((list k).count - 1) := by
  unfold counted
  by_cases hc : (list k).count = 0
  · have h0 : (list k).count - 1 = (list k).count := by omega
    rw [if_neg fun h => h.2 hc, h0]
    exact (Function.update_eq_self ..).symm
  · rw [if_pos ⟨h, hc⟩]
    rfl

theorem counted_zero (list : Slots) (k : Nat) : counted list k 0 = list := by
  unfold counted
  rw [if_neg fun h => h.1 rfl]

end Counting

/-! ## Removal -/

section Removal

variable {list : Slots} {n k j name adr : Nat} {dec : Int}

/-- The table without the name in slot `k` and the address in slot `j`. -/
def removed (list : Slots) (n k j : Nat) : Slots := fun x =>
  { list x with
    name := if x = k then vacated n (names list) k else (list x).name
    adr := if x = j then vacated n (adrs list) j else (list x).adr }

theorem clearAdr_clearName (list : Slots) (n k j : Nat) :
    clearAdr (clearName list n k) n j = removed list n k j := by
  have hsame : adrs (clearName list n k) = adrs list := by
    funext x
    unfold adrs clearName
    by_cases hx : x = k
    · rw [hx, Function.update_self]
    · rw [Function.update_of_ne hx]
  funext x
  unfold clearAdr
  rw [hsame]
  unfold clearName removed
  by_cases hxj : x = j <;> by_cases hxk : x = k <;> by_cases hjk : j = k <;>
    simp_all

theorem clearName_clearAdr (list : Slots) (n k j : Nat) :
    clearName (clearAdr list n j) n k = removed list n k j := by
  have hsame : names (clearAdr list n j) = names list := by
    funext x
    unfold names clearAdr
    by_cases hx : x = j
    · rw [hx, Function.update_self]
    · rw [Function.update_of_ne hx]
  funext x
  unfold clearName
  rw [hsame]
  unfold clearAdr removed
  by_cases hxj : x = j <;> by_cases hxk : x = k <;> by_cases hjk : j = k <;>
    simp_all [Function.update_apply]

/-- **A removal keeps the registry together.** -/
theorem Consistent.removes (C : Consistent list n) (h : NamedAt list n k name) :
    Consistent (removed list n k (list k).alink) n where
  pos := C.pos
  names := by
    have hcol := C.names.erases C.pos h.1 h.live
    have heq : RtaiRegistry.names (removed list n k (list k).alink) =
        Function.update (RtaiRegistry.names list) k
          (vacated n (RtaiRegistry.names list) k) := by
      funext x
      rw [Function.update_apply]
      rfl
    rw [heq]
    exact hcol
  adrs := by
    obtain ⟨h1, h2, -⟩ := C.adrSlot h
    have hcol := C.adrs.erases C.pos h1 h2
    have heq : RtaiRegistry.adrs (removed list n k (list k).alink) =
        Function.update (RtaiRegistry.adrs list) (list k).alink
          (vacated n (RtaiRegistry.adrs list) (list k).alink) := by
      funext x
      rw [Function.update_apply]
      rfl
    rw [heq]
    exact hcol
  toAdr := by
    intro x hx hlive
    have hle := vacated_le n (RtaiRegistry.names list) k
    have hxk : x ≠ k := by
      rintro rfl
      have hname : (removed list n x (list x).alink x).name =
        vacated n (RtaiRegistry.names list) x := if_pos rfl
      rw [hname] at hlive
      exact absurd hlive (not_lt.mpr hle)
    have hname : (removed list n k (list k).alink x).name = (list x).name :=
      if_neg hxk
    rw [hname] at hlive
    obtain ⟨h1, h2, h3⟩ := C.toAdr x hx hlive
    refine ⟨h1, ?_, h3⟩
    -- two names do not share an address
    have hne : (list x).alink ≠ (list k).alink := by
      intro heq
      rw [heq, (C.adrSlot h).2.2] at h3
      exact hxk h3.symm
    show NOADR < (removed list n k (list k).alink (list x).alink).adr
    have hadr : (removed list n k (list k).alink (list x).alink).adr =
        (list (list x).alink).adr := if_neg hne
    rw [hadr]
    exact h2
  toName := by
    intro x hx hlive
    have hle := vacated_le n (RtaiRegistry.adrs list) (list k).alink
    have hxj : x ≠ (list k).alink := by
      rintro rfl
      have hadr : (removed list n k (list k).alink (list k).alink).adr =
        vacated n (RtaiRegistry.adrs list) (list k).alink := if_pos rfl
      rw [hadr] at hlive
      exact absurd hlive (not_lt.mpr hle)
    have hadr : (removed list n k (list k).alink x).adr = (list x).adr :=
      if_neg hxj
    rw [hadr] at hlive
    obtain ⟨h1, h2, h3⟩ := C.toName x hx hlive
    refine ⟨h1, ?_, h3⟩
    have hne : (list x).nlink ≠ k := by
      rintro rfl
      exact hxj h3.symm
    show NONAME < (removed list n k (list k).alink (list x).nlink).name
    have hname : (removed list n k (list k).alink (list x).nlink).name =
        (list (list x).nlink).name := if_neg hne
    rw [hname]
    exact h2

/-- What is registered after a removal. -/
theorem registered_removed (C : Consistent list n) (h : NamedAt list n k name)
    {m : Nat} {o : Object} :
    Registered (removed list n k (list k).alink) n m o ↔ m ≠ name ∧ Registered list n m o := by
  have hle := vacated_le n (names list) k
  have hself : ∀ x, NamedAt (removed list n k (list k).alink) n x m → x ≠ k := by
    rintro x hx rfl
    have hlive := hx.live
    have hname : (removed list n x (list x).alink x).name =
      vacated n (names list) x := if_pos rfl
    rw [hname] at hlive
    exact absurd hlive (not_lt.mpr hle)
  have hname : ∀ x, x ≠ k → (removed list n k (list k).alink x).name = (list x).name :=
    fun x hx => if_neg hx
  have hobj : ∀ x, NamedAt list n x m → x ≠ k →
      objectAt (removed list n k (list k).alink) x = objectAt list x := by
    intro x hx hxk
    have hne : (list x).alink ≠ (list k).alink := by
      intro heq
      have h3 := (C.adrSlot hx).2.2
      rw [heq, (C.adrSlot h).2.2] at h3
      exact hxk h3.symm
    have hadr : (removed list n k (list k).alink (list x).alink).adr =
        (list (list x).alink).adr := if_neg hne
    show Object.mk (removed list n k (list k).alink (list x).alink).adr
      _ _ _ = _
    rw [hadr]
    rfl
  constructor
  · rintro ⟨x, hx, rfl⟩
    have hxk := hself x hx
    have hat : NamedAt list n x m := by
      refine ⟨hx.1, hx.2.1, ?_⟩
      rw [← hname x hxk]
      exact hx.2.2
    refine ⟨?_, x, hat, (hobj x hat hxk).symm⟩
    rintro rfl
    exact hxk (C.sameSlot hat h)
  · rintro ⟨hm, x, hx, rfl⟩
    have hxk : x ≠ k := by
      rintro rfl
      exact hm (hx.2.2.symm.trans h.2.2)
    refine ⟨x, ⟨hx.1, hx.2.1, ?_⟩, hobj x hx hxk⟩
    rw [hname x hxk]
    exact hx.2.2

/-- The table after a removal that counts when `dec` is not 0. -/
def dropped (list : Slots) (n k : Nat) (dec : Int) : Slots :=
  if lastRef list k dec then
    removed (counted list k dec) n k (list k).alink
  else counted list k dec

/-- A count does not move a slot. -/
theorem counted_fields (list : Slots) (k : Nat) (dec : Int) (x : Nat) :
    (counted list k dec x).name = (list x).name ∧ (counted list k dec x).adr = (list x).adr ∧
      (counted list k dec x).alink = (list x).alink ∧
      (counted list k dec x).nlink = (list x).nlink := by
  by_cases hd : dec = 0
  · subst hd
    rw [counted_zero]
    exact ⟨rfl, rfl, rfl, rfl⟩
  · rw [counted_eq list k hd]
    exact relabel_count _ x

/-- The count that a removal returns. -/
theorem dropped_count (hd : dec ≠ 0) :
    (dropped list n k dec k).count = (list k).count - 1 := by
  have hc : (counted list k dec k).count = (list k).count - 1 := by
    rw [counted_eq list k hd]
    unfold recounted
    rw [Function.update_self]
  unfold dropped
  split
  · exact hc
  · exact hc

/-- **A registered name is removed**, or has one reference less. -/
theorem hashRemName_registered (C : Consistent list n) (h : NamedAt list n k name) :
    hashRemName name list n dec = (dropped list n k dec,
      if dec ≠ 0 then (((list k).count - 1 : Nat) : Int) else k) := by
  have hlink : (list k).alink ≠ 0 := by
    have := (C.adrSlot h).1.1
    omega
  have hfields := counted_fields list k dec
  unfold hashRemName
  rw [C.names.finds C.pos h.2.1 h.1 h.2.2]
  dsimp only
  rw [if_pos h.2.2]
  have hlink' : (clearName (counted list k dec) n k k).alink = (list k).alink := by
    unfold clearName
    rw [Function.update_self]
    exact (hfields k).2.2.1
  rw [hlink', if_pos hlink, clearAdr_clearName]
  by_cases hd : dec = 0
  · rw [if_neg (not_not.mpr hd), if_neg (not_not.mpr hd)]
    rfl
  · rw [if_pos hd, if_pos hd, ← dropped_count (n := n) hd]
    rfl

/-- **A registered address is removed**, or has one reference less. -/
theorem hashRemAdr_registered (C : Consistent list n) (h : NamedAt list n k name) :
    hashRemAdr (objectAt list k).adr list n dec = (dropped list n k dec,
      if dec ≠ 0 then (((list k).count - 1 : Nat) : Int)
      else (list k).alink) := by
  obtain ⟨h1, h2, h3⟩ := C.adrSlot h
  have hfields := counted_fields list k dec
  unfold hashRemAdr
  rw [C.adrs.finds C.pos h2 h1 rfl]
  dsimp only
  rw [if_pos (show (list (list k).alink).adr = (objectAt list k).adr from rfl),
    h3, (hfields _).2.2.2, h3, clearName_clearAdr]
  by_cases hd : dec = 0
  · rw [if_neg (not_not.mpr hd), if_neg (not_not.mpr hd)]
    rfl
  · rw [if_pos hd, if_pos hd, ← dropped_count (n := n) hd]
    have hnlink : (dropped list n k dec (list k).alink).nlink = k := by
      unfold dropped
      split
      · exact (hfields _).2.2.2.trans h3
      · exact (hfields _).2.2.2.trans h3
    show (dropped list n k dec, ((dropped list n k dec
      (dropped list n k dec (list k).alink).nlink).count : Int)) = _
    rw [hnlink]

/-- **A name that is not registered**: the call returns `dec`, or 0 when the
    search has gone round without meeting an empty slot. -/
theorem hashRemName_unknown (C : Consistent list n) (h : Unknown list n name) :
    (hashRemName name list n dec = (list, dec) ∧ ∃ k, Seat n k ∧ (list k).name = 0) ∨
    (hashRemName name list n dec = (list, 0) ∧ ∀ k, Seat n k → (list k).name ≠ 0) := by
  unfold hashRemName
  rcases lookup_misses (f := names list) C.pos h with
    ⟨k, hk, hs, h0⟩ | ⟨hs, hall⟩
  · rw [hs]
    dsimp only
    rw [if_neg (h k hk)]
    exact Or.inl ⟨rfl, k, hk, h0⟩
  · rw [hs]
    exact Or.inr ⟨rfl, hall⟩

/-- **An address that is not registered** -/
theorem hashRemAdr_nameless (C : Consistent list n) (h : Nameless list n adr) :
    (hashRemAdr adr list n dec = (list, dec) ∧ ∃ j, Seat n j ∧ (list j).adr = 0) ∨
    (hashRemAdr adr list n dec = (list, 0) ∧ ∀ j, Seat n j → (list j).adr ≠ 0) := by
  unfold hashRemAdr
  rcases lookup_misses (f := adrs list) C.pos h with
    ⟨k, hk, hs, h0⟩ | ⟨hs, hall⟩
  · rw [hs]
    dsimp only
    rw [if_neg (h k hk)]
    exact Or.inl ⟨rfl, k, hk, h0⟩
  · rw [hs]
    exact Or.inr ⟨rfl, hall⟩

/-- A removal keeps the registry together. -/
theorem Consistent.drops (C : Consistent list n) (h : NamedAt list n k name)
    (dec : Int) : Consistent (dropped list n k dec) n := by
  have C' := C.counted k dec
  have hfields := counted_fields list k dec k
  have h' : NamedAt (RtaiRegistry.counted list k dec) n k name :=
    ⟨h.1, h.2.1, hfields.1.trans h.2.2⟩
  unfold dropped
  split
  · have := C'.removes h'
    rw [hfields.2.2.1] at this
    exact this
  · exact C'

/-- What is registered when a reference has been dropped. -/
theorem registered_dropped (C : Consistent list n)
    (h : NamedAt list n k name) (hc : 0 < (list k).count) {m : Nat}
    {o : Object} :
    Registered (dropped list n k dec) n m o ↔
      if m = name then dec ≠ 0 ∧ 1 < (list k).count ∧
        o = { objectAt list k with count := (list k).count - 1 }
      else Registered list n m o := by
  by_cases hd : dec = 0
  · subst hd
    unfold dropped
    rw [if_pos (show lastRef list k 0 = true from rfl), counted_zero, registered_removed C h]
    by_cases hm : m = name
    · rw [if_pos hm]
      exact ⟨fun h => absurd hm h.1, fun h => absurd rfl h.1⟩
    · rw [if_neg hm]
      exact ⟨fun h => h.2, fun h => ⟨hm, h⟩⟩
  · have hlast : lastRef list k dec = decide ((list k).count = 1) := by
      unfold lastRef
      rw [decide_eq_false hd, Bool.false_or]
      by_cases h1 : (list k).count = 1
      · rw [h1]
        rfl
      · rw [decide_eq_false h1, Bool.and_eq_false_iff]
        right
        exact decide_eq_false (by omega)
    unfold dropped
    rw [hlast, counted_eq list k hd]
    by_cases h1 : (list k).count = 1
    · rw [decide_eq_true h1, if_pos rfl]
      have C' := C.recounts k ((list k).count - 1)
      have h' := (namedAt_recounted (k := k) (c := (list k).count - 1)).mpr h
      have hlink : (recounted list k ((list k).count - 1) k).alink =
          (list k).alink := (relabel_count _ k).2.2.1
      have hrem := registered_removed C' h' (m := m) (o := o)
      rw [hlink] at hrem
      rw [hrem, registered_recounted C h]
      by_cases hm : m = name
      · rw [if_pos hm, if_pos hm]
        constructor
        · exact fun h => absurd hm h.1
        · rintro ⟨-, hlt, -⟩
          omega
      · rw [if_neg hm, if_neg hm]
        exact ⟨fun h => h.2, fun h => ⟨hm, h⟩⟩
    · rw [decide_eq_false h1, if_neg Bool.false_ne_true, registered_recounted C h]
      by_cases hm : m = name
      · rw [if_pos hm, if_pos hm]
        exact ⟨fun h => ⟨hd, by omega, h⟩, fun h => h.2.2⟩
      · rw [if_neg hm, if_neg hm]

end Removal

end RtaiRegistrySlots
