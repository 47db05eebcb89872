import Rtai.RegistryMap

/-! # Registrations that fail

    What `rt_register` leaves behind when it returns 0, and when an address gets
    a second name.  The name is written first: an address that already has a
    name is found, or not found, only after that. -/

namespace RtaiRegistryErrors

open RtaiProbing RtaiRegistry RtaiRegistrySlots RtaiRegistryMap

/-- Nobody else has the address. -/
def NobodyElses (reg : Registry) (name adr : Nat) : Prop :=
  ∀ m o, Has reg m o → o.adr = adr → m = name

/-- **A REGISTRATION WITHOUT SIDE EFFECTS**: one that fails changes nothing, and
    one that succeeds does not give a second name to an address. -/
def Registers (reg : Registry) (name adr : Nat) (type : Int) (t : Nat) : Prop :=
  ((rtRegister reg name adr type t).2 = 0 → (rtRegister reg name adr type t).1 = reg) ∧
  ((rtRegister reg name adr type t).2 ≠ 0 → NobodyElses reg name adr)

/-- No address has two names. -/
def OneName (reg : Registry) : Prop :=
  ∀ m m' o o', Has reg m o → Has reg m' o' → o.adr = o'.adr → m = m'

/-- Every slot has a name. -/
def Full (reg : Registry) : Prop :=
  ∀ k, Seat reg.maxSlots k → NONAME < (reg.lxrtList k).name

/-- The slot that the search for a seat comes to has the key already. -/
def Stands (n v : Nat) (f : Nat → Nat) : Prop :=
  ∃ k, vacancy n v f = some k ∧ f k = v

/-- The name is known, or there is no slot for it, or the address is nobody
    else's and the slot for it does not hold it (it does when the address is
    the code of that slot; then the slot for the name must be such a one
    too). -/
def MayRegister (reg : Registry) (name adr : Nat) : Prop :=
  getAdr reg name ≠ 0 ∨ Full reg ∨ NobodyElses reg name adr ∧
      (Stands reg.maxSlots adr (adrs reg.lxrtList) →
        Stands reg.maxSlots name (names reg.lxrtList))

section Registration

variable {list : Slots} {n name adr : Nat} {type : Int} {t : Nat}

theorem getAdr_unknown (C : Consistent list n) (h : Unknown list n name) :
    getAdr ⟨list, n⟩ name = 0 := by
  unfold getAdr
  rw [hashFindName_unknown C h]

theorem getAdr_named (C : Consistent list n) {k : Nat}
    (h : NamedAt list n k name) : getAdr ⟨list, n⟩ name ≠ 0 := by
  have hadr := (C.adrSlot h).2.1
  unfold getAdr
  rw [hashFindName_registered C h]
  exact Nat.pos_iff_ne_zero.mp (lt_trans Nat.one_pos hadr)

/-- What a lookup that counts returns. -/
theorem getAdrCnt_adr (reg : Registry) (name : Nat) :
    (getAdrCnt reg name).2 = getAdr reg name := by
  unfold getAdrCnt getAdr hashFindName Registry.after
  cases lookup reg.maxSlots name (names reg.lxrtList) with
  | none => rfl
  | some k =>
    dsimp only
    by_cases hk : (reg.lxrtList k).name = name
    · rw [if_pos hk, if_pos hk]
    · rw [if_neg hk, if_neg hk]

/-- The first half of an insertion leaves the addresses. -/
theorem adrs_setName (list : Slots) (k : Nat) :
    adrs (setName name type t list k) = adrs list := by
  funext x
  unfold adrs setName
  by_cases hx : x = k
  · rw [hx, Function.update_self]
  · rw [Function.update_of_ne hx]

theorem setName_ne {list : Slots} {k : Nat} (h : (list k).name ≠ name) :
    setName name type t list k ≠ list := by
  intro heq
  refine h ?_
  have hk := congrArg Entry.name (congrFun heq k)
  unfold setName at hk
  rw [Function.update_self] at hk
  exact hk.symm

/-- A name is found in no slot of a full table that does not have it. -/
theorem full_getAdr (C : Consistent list n) (hfull : Full ⟨list, n⟩)
    (h0 : getAdr ⟨list, n⟩ name = 0) :
    vacancy n name (names list) = none := by
  rcases vacancy_cases C.pos name (names list) with ⟨k, hk, hs, hf⟩ | ⟨hs, -⟩
  · have hlive := hfull k hk
    rcases hf with hf | hf
    · have hk' : NamedAt list n k name := ⟨hk, hf ▸ hlive, hf⟩
      exact absurd h0 (getAdr_named C hk')
    · exact absurd hlive (not_lt.mpr hf)
  · exact hs

/-- The slot for the address has the address already. -/
theorem hashInsAdr_stands {k j : Nat} (hs : vacancy n adr (adrs list) = some j)
    (hj : (list j).adr = adr) : hashInsAdr adr list n k = (list, -(j : Int)) := by
  unfold hashInsAdr
  rw [hs]
  exact if_pos hj

theorem hashInsAdr_puts {k j : Nat} (hs : vacancy n adr (adrs list) = some j)
    (hj : (list j).adr ≠ adr) :
    hashInsAdr adr list n k = (setAdr adr list k j, (j : Int)) := by
  unfold hashInsAdr
  rw [hs]
  exact if_neg hj

/-- **What an insertion does**: it finds no slot, or the name's, or it writes the
    name and then finds the address, or a slot for it. -/
theorem hashInsName_cases (C : Consistent list n) :
    (hashInsName name adr type t list n true = (list, 0) ∧ Full ⟨list, n⟩ ∧
        ¬ Stands n name (names list)) ∨
      ∃ k, Seat n k ∧ vacancy n name (names list) = some k ∧
        ((hashInsName name adr type t list n true =
              (incCount list k, -(k : Int)) ∧ (list k).name = name) ∨
          (hashInsName name adr type t list n true =
              (setName name type t list k, 0) ∧ (list k).name ≠ name ∧
            (list k).name ≤ NONAME ∧ Stands n adr (adrs list)) ∨
          ∃ j, hashInsName name adr type t list n true =
              (setAdr adr (setName name type t list k) k j, (k : Int)) ∧
            (list k).name ≠ name ∧ (list k).name ≤ NONAME ∧
            ¬ Stands n adr (adrs list)) := by
  rcases vacancy_cases C.pos name (names list) with
    ⟨k, hk, hs, hf⟩ | ⟨hs, hall⟩
  · right
    refine ⟨k, hk, hs, ?_⟩
    unfold hashInsName
    rw [hs]
    dsimp only
    by_cases hname : (list k).name = name
    · left
      rw [if_pos hname]
      exact ⟨rfl, hname⟩
    right
    have hle : (list k).name ≤ NONAME := hf.resolve_left hname
    rw [if_neg hname]
    have hsame := @adrs_setName name type t list k
    rcases vacancy_cases C.pos adr (adrs list) with
      ⟨j, hj, hsj, -⟩ | ⟨-, hallj⟩
    · have hsj' := hsj
      rw [← hsame] at hsj'
      have hadrj : (setName name type t list k j).adr = (list j).adr :=
        congrFun hsame j
      by_cases hadr : (list j).adr = adr
      · left
        have hle0 : -(j : Int) ≤ 0 := by omega
        rw [hashInsAdr_stands hsj' (hadrj.trans hadr)]
        exact ⟨Prod.ext rfl (if_pos hle0), hname, hle, j, hsj, hadr⟩
      · right
        have hpos : ¬ (j : Int) ≤ 0 := by
          have := hj.1
          omega
        rw [hashInsAdr_puts hsj' fun h => hadr (hadrj.symm.trans h)]
        refine ⟨j, Prod.ext rfl (if_neg hpos), hname, hle, ?_⟩
        rintro ⟨j', hsj', hj'⟩
        rw [hsj] at hsj'
        obtain rfl := Option.some.inj hsj'
        exact hadr hj'
    · exact absurd (C.full hallj k hk) (not_lt.mpr hle)
  · left
    unfold hashInsName
    rw [hs]
    refine ⟨rfl, hall, ?_⟩
    rintro ⟨k, hs', -⟩
    rw [hs] at hs'
    exact nomatch hs'

/-- **WHEN A REGISTRATION HAS NO SIDE EFFECTS.** -/
theorem registers_iff (C : Consistent list n) :
    Registers ⟨list, n⟩ name adr type t ↔ MayRegister ⟨list, n⟩ name adr := by
  unfold Registers MayRegister rtRegister
  by_cases h0 : getAdr ⟨list, n⟩ name = 0
  · rw [if_neg (not_not.mpr h0)]
    unfold registr Registry.after
    have hfull : ∀ k, vacancy n name (names list) = some k → ¬ Full ⟨list, n⟩ := by
      intro k hs h
      rw [full_getAdr C h h0] at hs
      exact nomatch hs
    rcases @hashInsName_cases list n name adr type t C with
      ⟨hins, hall, -⟩ | ⟨k, hk, hs, ⟨hins, hname⟩ |
        ⟨hins, hname, -, hstands⟩ | ⟨j, hins, hname, -, hstands⟩⟩
    · rw [hins]
      constructor
      · intro _
        exact Or.inr (Or.inl hall)
      · intro _
        exact ⟨fun _ => rfl, fun h => absurd rfl h⟩
    · -- the slot has the name already
      have hk0 : |-(k : Int)| ≠ 0 := by
        have := hk.1
        rw [abs_ne_zero]
        omega
      rw [hins]
      constructor
      · rintro ⟨-, hnone⟩
        right; right
        exact ⟨hnone hk0, fun _ => ⟨k, hs, hname⟩⟩
      · rintro (h | h | ⟨hnone, -⟩)
        · exact absurd h0 h
        · exact absurd h (hfull k hs)
        · exact ⟨fun h => absurd h hk0, fun _ => hnone⟩
    · -- the address is found when the name has been written: it is stuck
      have hnot : ¬ Stands n name (names list) := by
        rintro ⟨k', hs', hk'⟩
        rw [hs] at hs'
        obtain rfl := Option.some.inj hs'
        exact hname hk'
      rw [hins]
      constructor
      · rintro ⟨hsame, -⟩
        have heq := congrArg Registry.lxrtList (hsame rfl)
        exact absurd heq (setName_ne hname)
      · rintro (h | h | ⟨-, h⟩)
        · exact absurd h0 h
        · exact absurd h (hfull k hs)
        · exact absurd (h hstands) hnot
    · have hk0 : |(k : Int)| ≠ 0 := by
        have := hk.1
        rw [abs_ne_zero]
        omega
      rw [hins]
      constructor
      · rintro ⟨-, hnone⟩
        right; right
        exact ⟨hnone hk0, fun h => absurd h hstands⟩
      · rintro (h | h | ⟨hnone, -⟩)
        · exact absurd h0 h
        · exact absurd h (hfull k hs)
        · exact ⟨fun h => absurd h hk0, fun _ => hnone⟩
  · rw [if_pos h0]
    constructor
    · intro _
      exact Or.inl h0
    · intro _
      exact ⟨fun _ => rfl, fun h => absurd rfl h⟩

end Registration

/-! ## Runs -/

/-- A call that keeps the registry together: no name or address that marks an
    empty slot is registered or deregistered, and an address that has a name
    gets no other. -/
def Keeps (reg : Registry) : Op → Prop
  | .register name adr _ _ =>
    NONAME < name ∧ NOADR < adr ∧ MayRegister reg name adr
  | .drgOnName name => NONAME < name
  | .drgOnAdr adr => NOADR < adr
  | .drgOnNameCnt name => NONAME < name
  | .drgOnAdrCnt adr => NOADR < adr
  | _ => True

section Runs

variable {list : Slots} {n k name adr : Nat} {type : Int} {t : Nat}

theorem remName_consistent (C : Consistent list n) (hname : NONAME < name)
    (dec : Int) : Consistent (hashRemName name list n dec).1 n := by
  rcases registered_or_unknown list n hname with ⟨k, hk⟩ | hunk
  · rw [hashRemName_registered C hk]
    exact C.drops hk dec
  · rcases @hashRemName_unknown list n name dec C hunk with ⟨h, -⟩ | ⟨h, -⟩ <;>
      rw [h] <;> exact C

theorem remAdr_consistent (C : Consistent list n) (hadr : NOADR < adr)
    (dec : Int) : Consistent (hashRemAdr adr list n dec).1 n := by
  rcases C.adr_cases hadr with ⟨k, m, hk, rfl⟩ | hno
  · rw [hashRemAdr_registered C hk]
    exact C.drops hk dec
  · rcases @hashRemAdr_nameless list n adr dec C hno with ⟨h, -⟩ | ⟨h, -⟩ <;>
      rw [h] <;> exact C

/-- A name that is looked up counts a reference, of whatever slot. -/
theorem getAdrCnt_consistent (C : Consistent list n) (name : Nat) :
    Consistent (getAdrCnt ⟨list, n⟩ name).1.lxrtList n := by
  unfold getAdrCnt hashFindName Registry.after
  cases lookup n name (names list) with
  | none => exact C
  | some k =>
    dsimp only
    split
    · exact C.incCount k
    · exact C

theorem rtRegister_named (C : Consistent list n) (h : NamedAt list n k name) :
    rtRegister ⟨list, n⟩ name adr type t = (⟨list, n⟩, 0) := by
  unfold rtRegister
  rw [if_pos (getAdr_named C h)]

/-- A new name with a new address is registered, if there is room. -/
theorem rtRegister_new (C : Consistent list n) (hname : NONAME < name)
    (h : Unknown list n name) (hadr : NOADR < adr)
    (ha : Nameless list n adr) :
    (∃ k j, Seat n k ∧ (list k).name ≤ NONAME ∧ (list j).adr ≤ NOADR ∧
      rtRegister ⟨list, n⟩ name adr type t =
        (⟨inserted list name adr type t k j, n⟩, (k : Int)) ∧
      Consistent (inserted list name adr type t k j) n) ∨
    rtRegister ⟨list, n⟩ name adr type t = (⟨list, n⟩, 0) := by
  unfold rtRegister
  rw [if_neg (not_not.mpr (getAdr_unknown C h))]
  unfold registr
  rcases @hashInsName_new list n name adr type t true C hname h hadr ha with
    ⟨k, j, hk, hj, hk1, hj1, hins, C'⟩ | ⟨-, hins⟩
  · left
    refine ⟨k, j, hk, hk1, hj1, ?_, C'⟩
    rw [hins]
    exact Prod.ext rfl (abs_of_nonneg (Int.natCast_nonneg k))
  · right
    rw [hins]
    exact Prod.ext rfl abs_zero

/-- What a registration does that keeps the registry together. -/
theorem rtRegister_kept (C : Consistent list n) (hname : NONAME < name)
    (hadr : NOADR < adr) (h : MayRegister ⟨list, n⟩ name adr) :
    rtRegister ⟨list, n⟩ name adr type t = (⟨list, n⟩, 0) ∨
    ∃ k j, Seat n k ∧ (list k).name ≤ NONAME ∧ (list j).adr ≤ NOADR ∧
      rtRegister ⟨list, n⟩ name adr type t =
        (⟨inserted list name adr type t k j, n⟩, (k : Int)) ∧
      Consistent (inserted list name adr type t k j) n := by
  rcases registered_or_unknown list n hname with ⟨k, hk⟩ | hunk
  · left
    exact rtRegister_named C hk
  · have h0 := getAdr_unknown C hunk
    rcases h with h | hfull | ⟨hnone, -⟩
    · exact absurd h0 h
    · left
      have hs := full_getAdr C hfull h0
      unfold rtRegister registr hashInsName
      rw [if_neg (not_not.mpr h0), hs]
      rfl
    · have hless : Nameless list n adr := by
        rcases C.adr_cases hadr with ⟨k, m, hk, heq⟩ | hno
        · have hm := hnone m _ ⟨k, hk, rfl⟩ heq
          exact absurd (hk.2.2.trans hm) (hunk k hk.1)
        · exact hno
      exact (rtRegister_new C hname hunk hadr hless).symm

theorem exec_consistent {op : Op} (C : Consistent list n)
    (h : Keeps ⟨list, n⟩ op) : Consistent (exec ⟨list, n⟩ op).1.lxrtList n := by
  cases op with
  | register name adr type t =>
    show Consistent (rtRegister ⟨list, n⟩ name adr type t).1.lxrtList n
    rcases @rtRegister_kept list n name adr type t C h.1 h.2.1 h.2.2 with
      hsame | ⟨k, j, -, -, -, hins, C'⟩
    · rw [hsame]
      exact C
    · rw [hins]
      exact C'
  | drgOnName name => exact remName_consistent C h 0
  | drgOnAdr adr => exact remAdr_consistent C h 0
  | getAdr name => exact C
  | getType name => exact C
  | getName adr irandu => exact C
  | getAdrCnt name => exact getAdrCnt_consistent C name
  | drgOnNameCnt name => exact remName_consistent C h (-EFAULT)
  | drgOnAdrCnt adr => exact remAdr_consistent C h (-EFAULT)

/-- No service changes the number of slots. -/
theorem exec_maxSlots (reg : Registry) (op : Op) :
    (exec reg op).1.maxSlots = reg.maxSlots := by
  cases op with
  | register name adr type t =>
    show (rtRegister reg name adr type t).1.maxSlots = _
    unfold rtRegister
    split <;> rfl
  | _ => rfl

theorem ran_consistent :
    ∀ (ops : List Op) {reg : Registry}, Consistent reg.lxrtList reg.maxSlots →
      Always Keeps reg ops →
      Consistent (ran reg ops).lxrtList (ran reg ops).maxSlots := by
  intro ops
  induction ops with
  | nil =>
    intro reg C _
    exact C
  | cons op ops ih =>
    intro reg C h
    refine ih ?_ h.2
    rw [exec_maxSlots]
    exact exec_consistent C h.1

/-- **FAILED REGISTRATIONS CHANGE NOTHING, AND ADDRESSES HAVE ONE NAME**, in
    every run in which no address that has a name is registered again while
    there is a slot for the new name.  In the state that is reached, a
    registration is without side effects exactly when it meets that
    condition. -/
theorem registers_without_side_effects {n : Nat} (hn : 0 < n) (ops : List Op)
    (h : Always Keeps (rtRegistryAlloc n) ops) :
    OneName (ran (rtRegistryAlloc n) ops) ∧ ∀ name adr type t,
        Registers (ran (rtRegistryAlloc n) ops) name adr type t ↔
          MayRegister (ran (rtRegistryAlloc n) ops) name adr := by
  have C := @ran_consistent ops (rtRegistryAlloc n) (consistent_cleared hn) h
  refine ⟨?_, ?_⟩
  · intro m m' o o' hm hm' heq
    exact C.sameName hm hm' heq
  · intro name adr type t
    exact registers_iff C

/-- A semaphore is registered. -/
theorem registers_without_side_effects_once :
    OneName (ran (rtRegistryAlloc 103) [.register 2 4096 IS_SEM 0]) ∧ ∀ name adr type t,
        Registers (ran (rtRegistryAlloc 103) [.register 2 4096 IS_SEM 0]) name adr type t ↔
          MayRegister (ran (rtRegistryAlloc 103) [.register 2 4096 IS_SEM 0])
            name adr := by
  refine registers_without_side_effects (by decide) _
    ⟨⟨Nat.lt_succ_self 1, show 1 < 4096 by decide, ?_⟩, trivial⟩
  right; right
  constructor
  · intro m o h
    exact absurd h not_registered_cleared
  · rintro ⟨k, -, hk⟩
    exact absurd hk (show (0 : Nat) ≠ 4096 by decide)

end Runs

/-! ## An address is registered again -/

/-- An address that has a name is registered under another. -/
def again : List Op := [.register 2 4096 IS_SEM 0]

/-- The same, with a slot emptied before it: 4096 and 4199 have one home. -/
def aside : List Op :=
  [.register 2 4096 IS_SEM 0, .register 3 4199 IS_SEM 0, .drgOnName 2]

/-- **THE NAME IS STUCK**: the call returns 0 and the name is there, without an
    address.  And where a slot has been emptied before the address, it gets a
    second name. -/
theorem address_registered_again :
    ¬ Registers (ran (rtRegistryAlloc 103) again) 3 4096 IS_SEM 0 ∧
      ¬ Registers (ran (rtRegistryAlloc 103) aside) 4 4199 IS_SEM 0 ∧
      ¬ OneName (ran (rtRegistryAlloc 103) (aside ++ [.register 4 4199 IS_SEM 0])) := by
  refine ⟨?_, ?_, ?_⟩
  · rintro ⟨hsame, -⟩
    have h := congrArg (fun reg => (reg.lxrtList 4).name) (hsame (by decide))
    exact absurd h (by decide)
  · rintro ⟨-, hnone⟩
    have h := hnone (by decide) 3 _ ⟨4, ⟨⟨by decide, by decide⟩, by decide, by decide⟩, rfl⟩
      (by decide)
    exact absurd h (by decide)
  · intro h
    have heq := h 3 4 _ _ ⟨4, ⟨⟨by decide, by decide⟩, by decide, by decide⟩, rfl⟩
      ⟨5, ⟨⟨by decide, by decide⟩, by decide, by decide⟩, rfl⟩
      (by decide)
    exact absurd heq (by decide)

end RtaiRegistryErrors
