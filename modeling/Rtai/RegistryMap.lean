import Rtai.RegistrySlots

/-! # The registry is a finite map

    What the registry is for: a one-to-one map from names to objects, with at
    most as many entries as there are slots.  `ObjectMap` is that map, and
    `ObjectMap.Step` what each service does to it.  The hashed registry is
    shown to answer as the map does. -/

namespace RtaiRegistryMap

open RtaiProbing RtaiRegistry RtaiRegistrySlots

/-! ## The map -/

/-- **A ONE-TO-ONE MAP FROM NAMES TO OBJECTS**, with at most `n` entries. -/
structure ObjectMap (n : Nat) where
  pairs : Finset (Nat × Object)
  oneName : ∀ p ∈ pairs, ∀ q ∈ pairs, p.1 = q.1 → p = q
  oneAdr : ∀ p ∈ pairs, ∀ q ∈ pairs, p.2.adr = q.2.adr → p = q
  used : ∀ p ∈ pairs, 0 < p.2.count
  card_le : pairs.card ≤ n

namespace ObjectMap

variable {n : Nat} (M : ObjectMap n) {name : Nat} {o : Object}

/-- The name stands for nothing. -/
def Free (name : Nat) : Prop := ∀ o, (name, o) ∉ M.pairs

/-- The address is nobody's. -/
def NoneAt (adr : Nat) : Prop := ∀ m o, (m, o) ∈ M.pairs → o.adr ≠ adr

/-- No objects. -/
def empty (n : Nat) : ObjectMap n where
  pairs := ∅
  oneName := fun p hp => absurd hp (Finset.notMem_empty p)
  oneAdr := fun p hp => absurd hp (Finset.notMem_empty p)
  used := fun p hp => absurd hp (Finset.notMem_empty p)
  card_le := Nat.zero_le n

/-- A new object. -/
def add (name : Nat) (o : Object) (hname : M.Free name)
    (hadr : M.NoneAt o.adr) (hused : 0 < o.count) (hroom : M.pairs.card < n) :
    ObjectMap n where
  pairs := insert (name, o) M.pairs
  oneName := by
    intro p hp q hq h
    rcases Finset.mem_insert.mp hp with rfl | hp <;>
      rcases Finset.mem_insert.mp hq with rfl | hq
    · rfl
    · exact absurd hq (by rw [← Prod.mk.eta (p := q), ← h]; exact hname q.2)
    · exact absurd hp (by rw [← Prod.mk.eta (p := p), h]; exact hname p.2)
    · exact M.oneName p hp q hq h
  oneAdr := by
    intro p hp q hq h
    rcases Finset.mem_insert.mp hp with rfl | hp <;>
      rcases Finset.mem_insert.mp hq with rfl | hq
    · rfl
    · exact absurd h.symm (hadr q.1 q.2 hq)
    · exact absurd h (hadr p.1 p.2 hp)
    · exact M.oneAdr p hp q hq h
  used := by
    intro p hp
    rcases Finset.mem_insert.mp hp with rfl | hp
    · exact hused
    · exact M.used p hp
  card_le := le_trans (Finset.card_insert_le ..) hroom

/-- An object goes. -/
def remove (name : Nat) (o : Object) : ObjectMap n where
  pairs := M.pairs.erase (name, o)
  oneName := fun p hp q hq =>
    M.oneName p (Finset.mem_of_mem_erase hp) q (Finset.mem_of_mem_erase hq)
  oneAdr := fun p hp q hq =>
    M.oneAdr p (Finset.mem_of_mem_erase hp) q (Finset.mem_of_mem_erase hq)
  used := fun p hp => M.used p (Finset.mem_of_mem_erase hp)
  card_le := le_trans (Finset.card_erase_le ..) M.card_le

/-- The object of a name gets another count. -/
def recount (name : Nat) (o : Object) (h : (name, o) ∈ M.pairs) (c : Nat)
    (hc : 0 < c) : ObjectMap n :=
  (M.remove name o).add name { o with count := c }
    (by
      intro o' ho'
      obtain ⟨hne, ho'⟩ := Finset.mem_erase.mp ho'
      exact hne (M.oneName _ ho' _ h rfl))
    (by
      intro m o' ho' heq
      obtain ⟨hne, ho'⟩ := Finset.mem_erase.mp ho'
      exact hne (M.oneAdr _ ho' _ h heq))
    hc (lt_of_lt_of_le (Finset.card_erase_lt_of_mem h) M.card_le)

end ObjectMap

/-! ## The services -/

/-- The calls. -/
inductive Op where
  | register (name adr : Nat) (type : Int) (t : Nat)
  | drgOnName (name : Nat)
  | drgOnAdr (adr : Nat)
  | getAdr (name : Nat)
  | getType (name : Nat)
  | getName (adr : Nat) (irandu : List Nat)
  | getAdrCnt (name : Nat)
  | drgOnNameCnt (name : Nat)
  | drgOnAdrCnt (adr : Nat)
  deriving DecidableEq

/-- What a service answers: that it has succeeded, that it has failed, or a
    value. -/
inductive Reply where
  | success
  | failure
  | value (v : Int)
  deriving DecidableEq

open ObjectMap in
/-- What each service does to the map. -/
inductive ObjectMap.Step {n : Nat} (M : ObjectMap n) :
    Op → ObjectMap n → Reply → Prop where
  | register (name adr : Nat) (type : Int) (t : Nat) (hname : M.Free name)
      (hadr : M.NoneAt adr) (hroom : M.pairs.card < n) :
      Step M (.register name adr type t)
        (M.add name ⟨adr, type, t, 1⟩ hname hadr Nat.one_pos hroom) .success
  /-- The name is registered already. -/
  | present (name adr : Nat) (type : Int) (t : Nat) (o : Object) (h : (name, o) ∈ M.pairs) :
      Step M (.register name adr type t) M .failure
  /-- There is no room for another name. -/
  | noRoom (name adr : Nat) (type : Int) (t : Nat) (hname : M.Free name)
      (hfull : M.pairs.card = n) :
      Step M (.register name adr type t) M .failure
  | drgOnName (name : Nat) (o : Object) (h : (name, o) ∈ M.pairs) :
      Step M (.drgOnName name) (M.remove name o) .success
  | drgOnNameFree (name : Nat) (h : M.Free name) : Step M (.drgOnName name) M .failure
  | drgOnAdr (name : Nat) (o : Object) (h : (name, o) ∈ M.pairs) :
      Step M (.drgOnAdr o.adr) (M.remove name o) .success
  | drgOnAdrNone (adr : Nat) (h : M.NoneAt adr) : Step M (.drgOnAdr adr) M .failure
  | getAdr (name : Nat) (o : Object) (h : (name, o) ∈ M.pairs) :
      Step M (.getAdr name) M (.value o.adr)
  | getAdrFree (name : Nat) (h : M.Free name) : Step M (.getAdr name) M (.value 0)
  | getType (name : Nat) (o : Object) (h : (name, o) ∈ M.pairs) :
      Step M (.getType name) M (.value o.type)
  | getTypeFree (name : Nat) (h : M.Free name) : Step M (.getType name) M (.value (-EINVAL))
  | getName (name : Nat) (o : Object) (irandu : List Nat) (h : (name, o) ∈ M.pairs) :
      Step M (.getName o.adr irandu) M (.value name)
  | getNameNone (adr : Nat) (irandu : List Nat) (hne : adr ≠ 0)
      (h : M.NoneAt adr) : Step M (.getName adr irandu) M (.value 0)
  /-- A name is made up that stands for nothing. -/
  | madeUp (irandu before after : List Nat) (name : Nat)
      (hl : madeUp irandu = before ++ name :: after) (h : M.Free name)
      (hbefore : ∀ m ∈ before, ¬ M.Free m) :
      Step M (.getName 0 irandu) M (.value name)
  | noneMadeUp (irandu : List Nat) (h : ∀ m ∈ RtaiRegistry.madeUp irandu, ¬ M.Free m) :
      Step M (.getName 0 irandu) M (.value 0)
  | getAdrCnt (name : Nat) (o : Object) (h : (name, o) ∈ M.pairs) : Step M (.getAdrCnt name)
        (M.recount name o h (o.count + 1) (Nat.succ_pos _)) (.value o.adr)
  | getAdrCntFree (name : Nat) (h : M.Free name) : Step M (.getAdrCnt name) M (.value 0)
  | drgOnNameCnt (name : Nat) (o : Object) (h : (name, o) ∈ M.pairs) (hc : 0 < o.count - 1) :
      Step M (.drgOnNameCnt name) (M.recount name o h (o.count - 1) hc)
        (.value (o.count - 1 : Nat))
  /-- The last reference is dropped. -/
  | lastOnName (name : Nat) (o : Object) (h : (name, o) ∈ M.pairs) (hc : o.count = 1) :
      Step M (.drgOnNameCnt name) (M.remove name o) (.value 0)
  | drgOnAdrCnt (name : Nat) (o : Object) (h : (name, o) ∈ M.pairs) (hc : 0 < o.count - 1) :
      Step M (.drgOnAdrCnt o.adr) (M.recount name o h (o.count - 1) hc)
        (.value (o.count - 1 : Nat))
  | lastOnAdr (name : Nat) (o : Object) (h : (name, o) ∈ M.pairs) (hc : o.count = 1) :
      Step M (.drgOnAdrCnt o.adr) (M.remove name o) (.value 0)

/-- The replies to the calls of a run. -/
inductive ObjectMap.Runs {n : Nat} :
    ObjectMap n → List Op → List Reply → Prop where
  | nil (M : ObjectMap n) : Runs M [] []
  | cons {M M' : ObjectMap n} {op : Op} {ops : List Op} {v : Reply}
      {replies : List Reply} (h : M.Step op M' v) (rest : M'.Runs ops replies) :
      Runs M (op :: ops) (v :: replies)

/-! ## The registry -/

/-- The service that the source provides. -/
def exec (reg : Registry) : Op → Registry × Int
  | .register name adr type t => rtRegister reg name adr type t
  | .drgOnName name => rtDrgOnName reg name
  | .drgOnAdr adr => rtDrgOnAdr reg adr
  | .getAdr name => (reg, getAdr reg name)
  | .getType name => (reg, getType reg name)
  | .getName adr irandu => (reg, getName reg adr irandu)
  | .getAdrCnt name => ((getAdrCnt reg name).1, (getAdrCnt reg name).2)
  | .drgOnNameCnt name => rtDrgOnNameCnt reg name
  | .drgOnAdrCnt adr => rtDrgOnAdrCnt reg adr

/-- What the services of a run return. -/
def answers : Registry → List Op → List Int
  | _, [] => []
  | reg, op :: ops => (exec reg op).2 :: answers (exec reg op).1 ops

/-- The registry after the calls of a run. -/
def ran : Registry → List Op → Registry
  | reg, [] => reg
  | reg, op :: ops => ran (exec reg op).1 ops

/-- The calls of a run satisfy `P` in the state in which they are made. -/
def Always (P : Registry → Op → Prop) : Registry → List Op → Prop
  | _, [] => True
  | reg, op :: ops => P reg op ∧ Always P (exec reg op).1 ops

/-- A returned value is what the map says: a positive number on success, 0 on
    failure. -/
def Agrees (v : Int) : Reply → Prop
  | .success => 0 < v
  | .failure => v = 0
  | .value w => v = w

/-- The registry after `rt_registry_alloc`. -/
def rtRegistryAlloc (maxSlots : Nat) : Registry where
  lxrtList := cleared
  maxSlots := maxSlots

/-- The name stands for the object. -/
abbrev Has (reg : Registry) (name : Nat) (o : Object) : Prop :=
  Registered reg.lxrtList reg.maxSlots name o

/-- Proper names are registered, for addresses that are nobody's, and
    references are dropped of what is registered. -/
def WellCalled (reg : Registry) : Op → Prop
  | .register name adr _ _ => NONAME < name ∧ ∀ m o, Has reg m o → o.adr ≠ adr
  | .drgOnNameCnt name => ∃ o, Has reg name o
  | .drgOnAdrCnt adr => ∃ m o, Has reg m o ∧ o.adr = adr
  | _ => True

/-- No call is about the names and addresses that mark empty slots, and no
    object has more references than an `unsigned short` counts. -/
def NoMark (reg : Registry) : Op → Prop
  | .register _ adr _ _ => NOADR < adr
  | .drgOnName name => NONAME < name
  | .drgOnAdr adr => NOADR < adr
  | .getAdr name => NONAME < name
  | .getType name => NONAME < name
  | .getName adr _ => adr = 0 ∨ NOADR < adr
  | .getAdrCnt name =>
    NONAME < name ∧ ∀ o, Has reg name o → o.count + 1 < 65536
  | .drgOnNameCnt _ => True
  | .drgOnAdrCnt _ => True

/-! ## The registry stands for a map -/

/-- **THE REGISTRY STANDS FOR THE MAP.** -/
structure Represents {n : Nat} (reg : Registry) (M : ObjectMap n) : Prop where
  slots : reg.maxSlots = n
  consistent : Consistent reg.lxrtList n
  pairs : ∀ m o, (m, o) ∈ M.pairs ↔ Registered reg.lxrtList n m o

theorem represents_alloc {n : Nat} (hn : 0 < n) :
    Represents (rtRegistryAlloc n) (ObjectMap.empty n) where
  slots := rfl
  consistent := consistent_cleared hn
  pairs := by
    intro m o
    constructor
    · intro h
      exact absurd h (Finset.notMem_empty _)
    · intro h
      exact absurd h not_registered_cleared

section Represents

variable {n : Nat} {reg : Registry} {M : ObjectMap n} {name adr : Nat} {o : Object}

/-- An entry of the map has a slot. -/
theorem Represents.slot (R : Represents reg M) (h : (name, o) ∈ M.pairs) :
    ∃ k, NamedAt reg.lxrtList n k name ∧ objectAt reg.lxrtList k = o :=
  (R.pairs name o).mp h

theorem Represents.mem (R : Represents reg M) {k : Nat} (h : NamedAt reg.lxrtList n k name) :
    (name, objectAt reg.lxrtList k) ∈ M.pairs :=
  (R.pairs name _).mpr ⟨k, h, rfl⟩

theorem Represents.used (R : Represents reg M) {k : Nat}
    (h : NamedAt reg.lxrtList n k name) : 0 < (reg.lxrtList k).count :=
  M.used _ (R.mem h)

theorem Represents.free (R : Represents reg M)
    (h : Unknown reg.lxrtList n name) : M.Free name := by
  intro o ho
  obtain ⟨k, hk, -⟩ := R.slot ho
  exact h k hk.1 hk.2.2

theorem Represents.noneAt (R : Represents reg M)
    (h : Nameless reg.lxrtList n adr) : M.NoneAt adr := by
  intro m o ho heq
  obtain ⟨k, hk, rfl⟩ := R.slot ho
  exact h _ (R.consistent.adrSlot hk).1 heq

/-- A name has a slot, or is free. -/
theorem Represents.cases (R : Represents reg M) (h : NONAME < name) :
    (∃ k, NamedAt reg.lxrtList n k name) ∨ Unknown reg.lxrtList n name ∧ M.Free name := by
  rcases registered_or_unknown reg.lxrtList n h with hk | hno
  · exact Or.inl hk
  · exact Or.inr ⟨hno, R.free hno⟩

/-- There are as many entries as slots with a name. -/
theorem Represents.card (R : Represents reg M) :
    M.pairs.card = (taken n (names reg.lxrtList)).card := by
  symm
  refine Finset.card_bij (fun k _ => ((reg.lxrtList k).name, objectAt reg.lxrtList k)) ?_ ?_ ?_
  · intro k hk
    obtain ⟨hseat, hlive⟩ := mem_taken.mp hk
    exact R.mem ⟨hseat, hlive, rfl⟩
  · intro k hk k' hk' heq
    obtain ⟨hseat, hlive⟩ := mem_taken.mp hk
    obtain ⟨hseat', -⟩ := mem_taken.mp hk'
    exact R.consistent.names.once k k' hseat hseat' hlive (congrArg Prod.fst heq)
  · rintro ⟨m, o⟩ hmo
    obtain ⟨k, hk, rfl⟩ := R.slot hmo
    exact ⟨k, mem_taken.mpr ⟨hk.1, hk.live⟩, Prod.ext hk.2.2 rfl⟩

/-- Looking a name up. -/
theorem Represents.getAdr_mem (R : Represents reg M)
    (h : (name, o) ∈ M.pairs) : getAdr reg name = o.adr := by
  obtain ⟨k, hk, rfl⟩ := R.slot h
  unfold getAdr
  rw [R.slots, hashFindName_registered R.consistent hk]

theorem Represents.getAdr_free (R : Represents reg M)
    (h : Unknown reg.lxrtList n name) : getAdr reg name = 0 := by
  unfold getAdr
  rw [R.slots, hashFindName_unknown R.consistent h]

/-- The address of an object is not `NULL`. -/
theorem Represents.adr_pos (R : Represents reg M)
    (h : (name, o) ∈ M.pairs) : NOADR < o.adr := by
  obtain ⟨k, hk, rfl⟩ := R.slot h
  exact (R.consistent.adrSlot hk).2.1

/-- A name that is looked up in vain is free. -/
theorem Represents.getAdr_eq_zero (R : Represents reg M)
    (hname : NONAME < name) : getAdr reg name = 0 ↔ M.Free name := by
  constructor
  · intro h0 o ho
    have hpos := R.adr_pos ho
    rw [← R.getAdr_mem ho, h0] at hpos
    exact absurd hpos (Nat.not_lt_zero 1)
  · intro hfree
    rcases R.cases hname with ⟨k, hk⟩ | ⟨hno, -⟩
    · exact absurd (R.mem hk) (hfree _)
    · exact R.getAdr_free hno

/-- The registry stands for the map without a name, and for the map with
    another count. -/
theorem Represents.removes (R : Represents reg M) {list' : Slots}
    (h : (name, o) ∈ M.pairs) (C : Consistent list' n)
    (hreg : ∀ m o', Registered list' n m o' ↔ m ≠ name ∧ Registered reg.lxrtList n m o') :
    Represents { reg with lxrtList := list' } (M.remove name o) where
  slots := R.slots
  consistent := C
  pairs := by
    intro m o'
    rw [hreg, ← R.pairs]
    show (m, o') ∈ M.pairs.erase (name, o) ↔ _
    rw [Finset.mem_erase]
    constructor
    · rintro ⟨hne, hmem⟩
      refine ⟨?_, hmem⟩
      rintro rfl
      exact hne (M.oneName _ hmem _ h rfl)
    · rintro ⟨hne, hmem⟩
      exact ⟨fun heq => hne (congrArg Prod.fst heq), hmem⟩

theorem Represents.recounts (R : Represents reg M) {list' : Slots} {c : Nat}
    (h : (name, o) ∈ M.pairs) (hc : 0 < c) (C : Consistent list' n)
    (hreg : ∀ m o', Registered list' n m o' ↔
      if m = name then o' = { o with count := c }
      else Registered reg.lxrtList n m o') :
    Represents { reg with lxrtList := list' } (M.recount name o h c hc) where
  slots := R.slots
  consistent := C
  pairs := by
    intro m o'
    rw [hreg]
    show (m, o') ∈ insert (name, { o with count := c }) (M.pairs.erase (name, o)) ↔ _
    rw [Finset.mem_insert, Finset.mem_erase]
    by_cases hm : m = name
    · subst hm
      rw [if_pos rfl]
      constructor
      · rintro (heq | ⟨hne, hmem⟩)
        · exact congrArg Prod.snd heq
        · exact absurd (M.oneName _ hmem _ h rfl) hne
      · rintro rfl
        exact Or.inl rfl
    · rw [if_neg hm, ← R.pairs]
      constructor
      · rintro (heq | ⟨-, hmem⟩)
        · exact absurd (congrArg Prod.fst heq) hm
        · exact hmem
      · intro hmem
        exact Or.inr ⟨fun heq => hm (congrArg Prod.fst heq), hmem⟩

end Represents

/-! ## Every service replies as the map does -/

/-- The map makes the step, with a reply that agrees. -/
def Follows {n : Nat} (M : ObjectMap n) (op : Op) (r : Registry × Int) :
    Prop :=
  ∃ M' v, M.Step op M' v ∧ Represents r.1 M' ∧ Agrees r.2 v

section Services

variable {n : Nat} {reg : Registry} {M : ObjectMap n} {name adr : Nat}

theorem Represents.nameless (R : Represents reg M) (hadr : NOADR < adr)
    (h : ∀ m o, Registered reg.lxrtList n m o → o.adr ≠ adr) :
    Nameless reg.lxrtList n adr := by
  rcases R.consistent.adr_cases hadr with ⟨k, m, hk, heq⟩ | hno
  · exact absurd heq (h m _ ⟨k, hk, rfl⟩)
  · exact hno

theorem register_follows (R : Represents reg M) (type : Int) (t : Nat)
    (hname : NONAME < name) (hadr : NOADR < adr)
    (hno : ∀ m o, Registered reg.lxrtList n m o → o.adr ≠ adr) :
    Follows M (.register name adr type t) (rtRegister reg name adr type t) := by
  have C := R.consistent
  have hless := R.nameless hadr hno
  unfold rtRegister
  rcases R.cases hname with ⟨k, hk⟩ | ⟨hunk, hfree⟩
  · have hmem := R.mem hk
    have hne : getAdr reg name ≠ 0 := by
      rw [R.getAdr_mem hmem]
      exact Nat.pos_iff_ne_zero.mp (lt_trans Nat.one_pos (R.adr_pos hmem))
    rw [if_pos hne]
    exact ⟨M, .failure, .present name adr type t _ hmem, R, rfl⟩
  · rw [if_neg (not_not.mpr (R.getAdr_free hunk))]
    unfold registr
    rw [R.slots]
    rcases hashInsName_new C hname hunk hadr hless with
      ⟨k, j, hk, hj, hk1, hj1, hins, C'⟩ | ⟨hall, hins⟩
    · rw [hins]
      have hroom : M.pairs.card < n := by
        rw [R.card]
        refine lt_of_le_of_ne card_taken_le fun h => ?_
        exact absurd (card_taken_eq.mp h k hk) (not_lt.mpr hk1)
      refine ⟨_, .success, .register name adr type t hfree
        (R.noneAt hless) hroom, ⟨R.slots, C', ?_⟩, ?_⟩
      · intro m o
        have hreg : Registered (inserted reg.lxrtList name adr type t k j) n
            m o ↔ _ := registered_inserted C hk hname hk1 hj1
        refine Iff.trans ?_ hreg.symm
        rw [← R.pairs]
        show (m, o) ∈ insert (name, _) M.pairs ↔ _
        rw [Finset.mem_insert, Prod.mk.injEq]
        exact or_comm
      · show 0 < |(k : Int)|
        have := hk.1
        rw [abs_pos]
        omega
    · rw [hins]
      refine ⟨M, .failure, .noRoom name adr type t hfree ?_, R, rfl⟩
      rw [R.card]
      exact card_taken_eq.mpr hall

/-- A removal of a registered object. -/
theorem drops_follows {op : Op} {k : Nat} {dec v : Int}
    (R : Represents reg M) (hk : NamedAt reg.lxrtList n k name)
    (hgone : dec = 0 ∨ (reg.lxrtList k).count = 1 →
      ∃ w, M.Step op (M.remove name (objectAt reg.lxrtList k)) w ∧ Agrees v w)
    (hleft : dec ≠ 0 → ∀ hc : 0 < (objectAt reg.lxrtList k).count - 1,
      ∃ w, M.Step op (M.recount name _ (R.mem hk) _ hc) w ∧ Agrees v w) :
    Follows M op ({ reg with lxrtList := dropped reg.lxrtList n k dec }, v) := by
  have C := R.consistent
  have hused := R.used hk
  have hmem := R.mem hk
  by_cases hgoes : dec = 0 ∨ (reg.lxrtList k).count = 1
  · obtain ⟨w, hstep, hw⟩ := hgone hgoes
    refine ⟨_, w, hstep, R.removes hmem (C.drops hk dec) fun m o => ?_, hw⟩
    rw [registered_dropped C hk hused]
    by_cases hm : m = name
    · rw [if_pos hm]
      constructor
      · rintro ⟨hd, hlt, -⟩
        rcases hgoes with h | h
        · exact absurd h hd
        · omega
      · exact fun h => absurd hm h.1
    · rw [if_neg hm]
      exact ⟨fun h => ⟨hm, h⟩, fun h => h.2⟩
  · rw [not_or] at hgoes
    have hc : 0 < (objectAt reg.lxrtList k).count - 1 := by
      have h1 := hgoes.2
      show 0 < (reg.lxrtList k).count - 1
      omega
    obtain ⟨w, hstep, hw⟩ := hleft hgoes.1 hc
    refine ⟨_, w, hstep, R.recounts hmem hc (C.drops hk dec) fun m o => ?_, hw⟩
    rw [registered_dropped C hk hused]
    by_cases hm : m = name
    · rw [if_pos hm, if_pos hm]
      constructor
      · exact fun h => h.2.2
      · intro h
        exact ⟨hgoes.1, Nat.lt_of_sub_pos hc, h⟩
    · rw [if_neg hm, if_neg hm]

theorem drgOnName_follows (R : Represents reg M) (hname : NONAME < name) :
    Follows M (.drgOnName name) (rtDrgOnName reg name) := by
  obtain rfl := R.slots
  unfold rtDrgOnName Registry.after
  rcases R.cases hname with ⟨k, hk⟩ | ⟨hunk, hfree⟩
  · rw [hashRemName_registered R.consistent hk]
    refine drops_follows R hk (fun _ => ?_) fun h => absurd rfl h
    refine ⟨.success, .drgOnName name _ (R.mem hk), ?_⟩
    rw [if_neg (not_not.mpr rfl)]
    exact Int.natCast_pos.mpr hk.1.1
  · have hrem : hashRemName name reg.lxrtList reg.maxSlots 0 = (reg.lxrtList, 0) := by
      rcases @hashRemName_unknown _ _ _ 0 R.consistent hunk with
        ⟨h, -⟩ | ⟨h, -⟩ <;> exact h
    rw [hrem]
    exact ⟨M, .failure, .drgOnNameFree name hfree, R, rfl⟩

theorem drgOnAdr_follows (R : Represents reg M) (hadr : NOADR < adr) :
    Follows M (.drgOnAdr adr) (rtDrgOnAdr reg adr) := by
  obtain rfl := R.slots
  unfold rtDrgOnAdr Registry.after
  rcases R.consistent.adr_cases hadr with ⟨k, m, hk, rfl⟩ | hno
  · rw [hashRemAdr_registered R.consistent hk]
    refine drops_follows R hk (fun _ => ?_) fun h => absurd rfl h
    refine ⟨.success, .drgOnAdr m _ (R.mem hk), ?_⟩
    rw [if_neg (not_not.mpr rfl)]
    exact Int.natCast_pos.mpr (R.consistent.adrSlot hk).1.1
  · have hrem : hashRemAdr adr reg.lxrtList reg.maxSlots 0 = (reg.lxrtList, 0) := by
      rcases @hashRemAdr_nameless _ _ _ 0 R.consistent hno with
        ⟨h, -⟩ | ⟨h, -⟩ <;> exact h
    rw [hrem]
    exact ⟨M, .failure, .drgOnAdrNone adr (R.noneAt hno), R, rfl⟩

theorem drgOnNameCnt_follows (R : Represents reg M) {o : Object}
    (h : Registered reg.lxrtList n name o) :
    Follows M (.drgOnNameCnt name) (rtDrgOnNameCnt reg name) := by
  obtain ⟨k, hk, rfl⟩ := h
  have hd : -EFAULT ≠ 0 := by decide
  obtain rfl := R.slots
  unfold rtDrgOnNameCnt Registry.after
  rw [hashRemName_registered R.consistent hk, if_pos hd]
  refine drops_follows R hk (fun hgoes => ?_) fun _ hc => ?_
  · have h1 := hgoes.resolve_left hd
    refine ⟨.value 0, .lastOnName name _ (R.mem hk) h1, ?_⟩
    rw [h1]
    rfl
  · exact ⟨_, .drgOnNameCnt name _ (R.mem hk) hc, rfl⟩

theorem drgOnAdrCnt_follows (R : Represents reg M) {o : Object}
    (h : Registered reg.lxrtList n name o) :
    Follows M (.drgOnAdrCnt o.adr) (rtDrgOnAdrCnt reg o.adr) := by
  obtain ⟨k, hk, rfl⟩ := h
  have hd : -EFAULT ≠ 0 := by decide
  obtain rfl := R.slots
  unfold rtDrgOnAdrCnt Registry.after
  rw [hashRemAdr_registered R.consistent hk, if_pos hd]
  refine drops_follows R hk (fun hgoes => ?_) fun _ hc => ?_
  · have h1 := hgoes.resolve_left hd
    refine ⟨.value 0, .lastOnAdr name _ (R.mem hk) h1, ?_⟩
    rw [h1]
    rfl
  · exact ⟨_, .drgOnAdrCnt name _ (R.mem hk) hc, rfl⟩

theorem getAdr_follows (R : Represents reg M) (hname : NONAME < name) :
    Follows M (.getAdr name) (reg, (getAdr reg name : Int)) := by
  rcases R.cases hname with ⟨k, hk⟩ | ⟨hunk, hfree⟩
  · have hmem := R.mem hk
    refine ⟨M, _, .getAdr name _ hmem, R, ?_⟩
    rw [R.getAdr_mem hmem]
    rfl
  · refine ⟨M, _, .getAdrFree name hfree, R, ?_⟩
    rw [R.getAdr_free hunk]
    rfl

theorem getType_follows (R : Represents reg M) (hname : NONAME < name) :
    Follows M (.getType name) (reg, getType reg name) := by
  unfold getType
  rw [R.slots]
  rcases R.cases hname with ⟨k, hk⟩ | ⟨hunk, hfree⟩
  · have hmem := R.mem hk
    have hne : (objectAt reg.lxrtList k).adr ≠ 0 :=
      Nat.pos_iff_ne_zero.mp (lt_trans Nat.one_pos (R.adr_pos hmem))
    rw [hashFindName_registered R.consistent hk]
    dsimp only
    rw [if_pos hne]
    exact ⟨M, _, .getType name _ hmem, R, rfl⟩
  · rw [hashFindName_unknown R.consistent hunk]
    exact ⟨M, _, .getTypeFree name hfree, R, rfl⟩

theorem getAdrCnt_follows (R : Represents reg M) (hname : NONAME < name)
    (hcount : ∀ o, Registered reg.lxrtList n name o → o.count + 1 < 65536) :
    Follows M (.getAdrCnt name) ((getAdrCnt reg name).1, ((getAdrCnt reg name).2 : Int)) := by
  obtain rfl := R.slots
  have C := R.consistent
  unfold getAdrCnt Registry.after
  rcases R.cases hname with ⟨k, hk⟩ | ⟨hunk, hfree⟩
  · have hlt : (reg.lxrtList k).count + 1 < 65536 := hcount _ ⟨k, hk, rfl⟩
    have hinc : incCount reg.lxrtList k =
        recounted reg.lxrtList k ((objectAt reg.lxrtList k).count + 1) := by
      unfold incCount recounted toCount
      rw [Nat.mod_eq_of_lt hlt]
      rfl
    rw [hashFindName_registered C hk, if_pos rfl, hinc]
    refine ⟨_, _, .getAdrCnt name _ (R.mem hk), ?_, rfl⟩
    exact R.recounts (R.mem hk) (Nat.succ_pos _) (C.recounts ..)
      fun m o => registered_recounted C hk
  · rw [hashFindName_unknown C hunk]
    exact ⟨M, _, .getAdrCntFree name hfree, R, rfl⟩

/-- The first name of a list that is free. -/
theorem find_free (R : Represents reg M) {l : List Nat} (hl : ∀ m ∈ l, NONAME < m) :
    (∃ before m after, l = before ++ m :: after ∧ M.Free m ∧ (∀ m' ∈ before, ¬ M.Free m') ∧
      (l.find? fun m => getAdr reg m = 0).getD 0 = m) ∨
    ((∀ m ∈ l, ¬ M.Free m) ∧ (l.find? fun m => getAdr reg m = 0).getD 0 = 0) := by
  induction l with
  | nil =>
    right
    exact ⟨fun m hm => (nomatch hm), rfl⟩
  | cons m l ih =>
    have hm := hl m List.mem_cons_self
    by_cases h0 : getAdr reg m = 0
    · left
      refine ⟨[], m, l, rfl, (R.getAdr_eq_zero hm).mp h0, fun m' hm' => (nomatch hm'), ?_⟩
      rw [List.find?_cons_of_pos (by exact decide_eq_true h0)]
      rfl
    · have hnot : ¬ M.Free m := fun h => h0 ((R.getAdr_eq_zero hm).mpr h)
      rw [List.find?_cons_of_neg (by exact fun h => h0 (of_decide_eq_true h))]
      rcases ih fun m' hm' => hl m' (List.mem_cons_of_mem m hm') with
        ⟨before, m', after, rfl, hfree, hbefore, hfind⟩ | ⟨hall, hfind⟩
      · left
        refine ⟨m :: before, m', after, rfl, hfree, ?_, hfind⟩
        intro x hx
        rcases List.mem_cons.mp hx with rfl | hx
        · exact hnot
        · exact hbefore x hx
      · right
        refine ⟨?_, hfind⟩
        intro x hx
        rcases List.mem_cons.mp hx with rfl | hx
        · exact hnot
        · exact hall x hx

theorem getName_follows (R : Represents reg M) (irandu : List Nat)
    (hadr : adr = 0 ∨ NOADR < adr) :
    Follows M (.getName adr irandu) (reg, (getName reg adr irandu : Int)) := by
  unfold getName
  rcases hadr with rfl | hadr
  · rw [if_pos rfl]
    have hnames : ∀ m ∈ madeUp irandu, NONAME < m := by
      intro m hm
      obtain ⟨r, -, rfl⟩ := List.mem_map.mp hm
      unfold NONAME MAX_NAM2NUM
      omega
    rcases find_free R hnames with
      ⟨before, m, after, hl, hfree, hbefore, hfind⟩ | ⟨hall, hfind⟩
    · refine ⟨M, _, .madeUp irandu before after m hl hfree hbefore, R, ?_⟩
      rw [hfind]
      rfl
    · refine ⟨M, _, .noneMadeUp irandu hall, R, ?_⟩
      rw [hfind]
      rfl
  · have hne : adr ≠ 0 := by
      unfold NOADR at hadr
      omega
    rw [if_neg hne, R.slots]
    rcases R.consistent.adr_cases hadr with ⟨k, m, hk, rfl⟩ | hno
    · rw [hashFindAdr_registered R.consistent hk]
      exact ⟨M, _, .getName m _ irandu (R.mem hk), R, rfl⟩
    · rw [hashFindAdr_nameless R.consistent hno]
      exact ⟨M, _, .getNameNone adr irandu hne (R.noneAt hno), R, rfl⟩

/-- **EVERY SERVICE REPLIES AS THE MAP DOES.** -/
theorem exec_follows {op : Op} (R : Represents reg M)
    (hcall : WellCalled reg op) (hmark : NoMark reg op) :
    Follows M op (exec reg op) := by
  obtain rfl := R.slots
  cases op with
  | register name adr type t =>
    exact register_follows R type t hcall.1 hmark hcall.2
  | drgOnName name => exact drgOnName_follows R hmark
  | drgOnAdr adr => exact drgOnAdr_follows R hmark
  | getAdr name => exact getAdr_follows R hmark
  | getType name => exact getType_follows R hmark
  | getName adr irandu => exact getName_follows R irandu hmark
  | getAdrCnt name => exact getAdrCnt_follows R hmark.1 hmark.2
  | drgOnNameCnt name =>
    obtain ⟨o, ho⟩ := hcall
    exact drgOnNameCnt_follows R ho
  | drgOnAdrCnt adr =>
    obtain ⟨m, o, ho, rfl⟩ := hcall
    exact drgOnAdrCnt_follows R ho

end Services

/-- The replies of a run agree. -/
theorem answers_agree {n : Nat} :
    ∀ (ops : List Op) {reg : Registry} {M : ObjectMap n}, Represents reg M →
      Always (fun reg op => WellCalled reg op ∧ NoMark reg op) reg ops →
      ∃ replies, M.Runs ops replies ∧ List.Forall₂ Agrees (answers reg ops) replies := by
  intro ops
  induction ops with
  | nil =>
    intro reg M _ _
    exact ⟨[], .nil M, .nil⟩
  | cons op ops ih =>
    intro reg M R hrun
    obtain ⟨⟨hcall, hmark⟩, hrest⟩ := hrun
    obtain ⟨M', v, hstep, R', hv⟩ := exec_follows R hcall hmark
    obtain ⟨replies, hruns, hagree⟩ := ih R' hrest
    exact ⟨v :: replies, .cons hstep hruns, .cons hv hagree⟩

/-- **THE REGISTRY IS A FINITE MAP** in every run in which no call is about a
    name or an address that marks an empty slot, and no object gets more
    references than its count can hold. -/
theorem registry_is_map {n : Nat} (hn : 0 < n) (ops : List Op)
    (h : Always (fun reg op => WellCalled reg op ∧ NoMark reg op) (rtRegistryAlloc n) ops) :
    ∃ replies, (ObjectMap.empty n).Runs ops replies ∧
      List.Forall₂ Agrees (answers (rtRegistryAlloc n) ops) replies :=
  answers_agree ops (represents_alloc hn) h

/-- A semaphore is registered and looked up. -/
theorem registry_is_map_found : ∃ replies, (ObjectMap.empty 103).Runs
        [.register 2 4096 IS_SEM 0, .getAdr 2] replies ∧
      List.Forall₂ Agrees (answers (rtRegistryAlloc 103)
          [.register 2 4096 IS_SEM 0, .getAdr 2]) replies := by
  refine registry_is_map (by decide) _ ⟨⟨⟨Nat.lt_succ_self 1, ?_⟩, show 1 < 4096 by decide⟩,
      ⟨trivial, Nat.lt_succ_self 1⟩, trivial⟩
  intro m o h
  exact absurd h not_registered_cleared

/-! ## More references than a count can hold -/

section Wraps

variable {n k name : Nat}

/-- The name is opened `j` more times, and one reference is dropped. -/
def openings (name j : Nat) : List Op :=
  List.replicate j (.getAdrCnt name) ++ [.drgOnNameCnt name]

theorem openings_succ (name j : Nat) :
    openings name (j + 1) = .getAdrCnt name :: openings name j := rfl

/-- What the registry answers in the end. -/
theorem answers_openings : ∀ (j : Nat) {list : Slots}, Consistent list n →
      NamedAt list n k name → (list k).count < 65536 →
      Always WellCalled ⟨list, n⟩ (openings name j) ∧
      (answers ⟨list, n⟩ (openings name j)).getLast? =
        some ((((list k).count + j) % 65536 - 1 : Nat) : Int) := by
  intro j
  induction j with
  | zero =>
    intro list C hk hc
    refine ⟨⟨⟨_, k, hk, rfl⟩, trivial⟩, ?_⟩
    show some (hashRemName name list n (-EFAULT)).2 = _
    rw [hashRemName_registered C hk, if_pos (by decide), Nat.add_zero, Nat.mod_eq_of_lt hc]
  | succ j ih =>
    intro list C hk hc
    have C' := C.incCount k
    have hk' : NamedAt (incCount list k) n k name := namedAt_recounted.mpr hk
    have hc' : (incCount list k k).count = ((list k).count + 1) % 65536 := by
      unfold incCount
      rw [Function.update_self]
      rfl
    have hlt : (incCount list k k).count < 65536 := by
      rw [hc']
      exact Nat.mod_lt _ (by decide)
    obtain ⟨hall, hlast⟩ := ih C' hk' hlt
    have hnext : (exec ⟨list, n⟩ (.getAdrCnt name)).1 = ⟨incCount list k, n⟩ := by
      show (getAdrCnt ⟨list, n⟩ name).1 = _
      unfold getAdrCnt
      rw [hashFindName_registered C hk]
      rfl
    rw [openings_succ]
    refine ⟨⟨trivial, by rw [hnext]; exact hall⟩, ?_⟩
    have hcons : ∀ (v : Int) l w, List.getLast? l = some w → (v :: l).getLast? = some w := by
      intro v l w h
      rw [List.getLast?_cons, h]
      rfl
    refine (hcons _ _ _ (by rw [hnext]; exact hlast)).trans ?_
    rw [hc', Nat.mod_add_mod, Nat.add_assoc, Nat.add_comm 1 j]

/-- What the map says in the end. -/
theorem runs_openings : ∀ (j : Nat) {M : ObjectMap n} {o : Object} {replies : List Reply},
      (name, o) ∈ M.pairs → M.Runs (openings name j) replies →
      1 < o.count + j →
      replies.getLast? = some (.value (o.count + j - 1 : Nat)) := by
  intro j
  induction j with
  | zero =>
    intro M o replies h hruns hc
    cases hruns with
    | cons hstep hrest =>
      cases hrest with
      | nil =>
        cases hstep with
        | drgOnNameCnt _ o' h' hc' =>
          have ho : o' = o :=
            congrArg Prod.snd (M.oneName _ h' _ h rfl)
          rw [ho]
          rfl
        | lastOnName _ o' h' hc' =>
          have ho : o' = o :=
            congrArg Prod.snd (M.oneName _ h' _ h rfl)
          rw [ho] at hc'
          omega
  | succ j ih =>
    intro M o replies h hruns hc
    rw [openings_succ] at hruns
    cases hruns with
    | @cons _ M' _ _ v replies hstep hrest =>
      cases hstep with
      | getAdrCnt _ o' h' =>
        have ho : o' = o := congrArg Prod.snd (M.oneName _ h' _ h rfl)
        subst ho
        have hmem : (name, { o' with count := o'.count + 1 }) ∈
            (M.recount name o' h' (o'.count + 1) (Nat.succ_pos _)).pairs :=
          Finset.mem_insert_self ..
        have hlast := ih hmem hrest (by dsimp only; omega)
        rw [List.getLast?_cons, hlast]
        dsimp only
        rw [Nat.add_assoc, Nat.add_comm 1 j]
        rfl
      | getAdrCntFree _ hfree => exact absurd h (hfree o)

theorem agrees_last {vs : List Int} {ws : List Reply}
    (h : List.Forall₂ Agrees vs ws) {v : Int} {w : Reply}
    (hv : vs.getLast? = some v) (hw : ws.getLast? = some w) : Agrees v w := by
  induction h with
  | nil => exact nomatch hv
  | @cons a b as bs hab hrest ih =>
    cases hrest with
    | nil =>
      cases hv
      cases hw
      exact hab
    | @cons a' b' as' bs' _ _ => exact ih hv hw

end Wraps

/-- **AN OBJECT WITH 65536 REFERENCES HAS A COUNT OF 0.** A name is registered
    and opened 65535 times, then one reference is dropped: the registry answers
    that it was the last one. -/
theorem references_wrap : ∃ ops, Always WellCalled (rtRegistryAlloc 103) ops ∧
      ¬ ∃ replies, (ObjectMap.empty 103).Runs ops replies ∧
        List.Forall₂ Agrees (answers (rtRegistryAlloc 103) ops) replies := by
  have C := consistent_cleared (n := 103) (by decide)
  have hno : ∀ m o, ¬ Registered cleared 103 m o := fun _ _ =>
    not_registered_cleared
  rcases @hashInsName_new cleared 103 2 4096 IS_SEM 0 true C (by decide)
    (fun _ _ => nofun) (by decide) (fun _ _ => nofun) with
    ⟨k, j, hk, hj, hk1, hj1, hins, C'⟩ | ⟨hall, -⟩
  · have hfirst : exec (rtRegistryAlloc 103) (.register 2 4096 IS_SEM 0) =
        (⟨inserted cleared 2 4096 IS_SEM 0 k j, 103⟩, |(k : Int)|) := by
      show rtRegister (rtRegistryAlloc 103) 2 4096 IS_SEM 0 = _
      have h0 : getAdr (rtRegistryAlloc 103) 2 = 0 :=
        (represents_alloc (n := 103) (by decide)).getAdr_free fun _ _ => nofun
      unfold rtRegister
      rw [if_neg (not_not.mpr h0)]
      unfold registr
      rw [show (rtRegistryAlloc 103).lxrtList = cleared from rfl,
        show (rtRegistryAlloc 103).maxSlots = 103 from rfl, hins]
      rfl
    have hf := @registered_fields cleared k j 2 4096 IS_SEM 0 k
    have hat : NamedAt (inserted cleared 2 4096 IS_SEM 0 k j) 103 k 2 :=
      ⟨hk, Nat.lt_succ_self 1, hf.1.trans (if_pos rfl)⟩
    have hcount : (inserted cleared 2 4096 IS_SEM 0 k j k).count = 1 :=
      hf.2.2.2.2.2.2.trans (if_pos rfl)
    obtain ⟨hall, hlast⟩ := answers_openings 65535 C' hat (by rw [hcount]; decide)
    rw [hcount] at hlast
    refine ⟨.register 2 4096 IS_SEM 0 :: openings 2 65535,
      ⟨⟨Nat.lt_succ_self 1, fun m o h => absurd h (hno m o)⟩, by rw [hfirst]; exact hall⟩, ?_⟩
    rintro ⟨replies, hruns, hagree⟩
    cases hruns with
    | @cons _ M' _ _ v replies hstep hrest =>
      cases hagree with
      | cons _ hagree =>
        rw [hfirst] at hagree
        cases hstep with
        | register _ _ _ _ hname hadr hroom =>
          have hw := runs_openings 65535
            (Finset.mem_insert_self ..) hrest (by dsimp only; omega)
          have heq := agrees_last hagree hlast hw
          have hz : (((1 + 65535) % 65536 - 1 : ℕ) : Int) = ((1 + 65535 - 1 : ℕ) : Int) := heq
          exact absurd hz (by decide)
        | present _ _ _ _ o h => exact Finset.notMem_empty _ h
        | noRoom _ _ _ _ _ hfull =>
          exact absurd hfull (by decide)
  · exact absurd (hall 1 ⟨by decide, by decide⟩) (by decide)

end RtaiRegistryMap
