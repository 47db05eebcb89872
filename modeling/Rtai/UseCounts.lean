import Rtai.RegistryErrors

/-! # sem.c, mbx.c, shm.c: named objects and their use counts

    A named object is made by the first creation of its name, and given back
    with the last of the deletions.  What the registry returns decides: a 0 of
    `rt_drg_on_adr_cnt` or `rt_drg_on_name_cnt` is the order to free. -/

namespace RtaiUseCounts

open RtaiProbing RtaiRegistry RtaiRegistrySlots RtaiRegistryMap
open RtaiRegistryErrors

/-! ## The functions -/

/-- What stands at an address that is in use. -/
inductive Contents where
  | sem
  | mbx
  | chunk
  | other
  deriving DecidableEq

/-- Ghost: what has become of the object that a named creation has made at an
    address. -/
structure Life where
  opened : Nat
  closed : Nat
  freed : Nat
  deriving DecidableEq

/-- A use begins. -/
def Life.open (l : Life) : Life := { l with opened := l.opened + 1 }

/-- A use ends. -/
def Life.close (l : Life) : Life := { l with closed := l.closed + 1 }

/-- The memory is freed. -/
def Life.free (l : Life) : Life := { l with freed := l.freed + 1 }

/-- The registry, the memory in use, and the ghost. -/
structure World where
  reg : Registry
  heap : Nat → Option Contents
  life : Nat → Option Life

variable (w : World)

/-- Ghost: something happens to the object at an address. -/
def World.note (adr : Nat) (f : Life → Life) : World :=
  { w with life := Function.update w.life adr ((w.life adr).map f) }

/-- `rt_free(adr)` -/
def World.release (adr : Nat) : World :=
  { w with heap := Function.update w.heap adr none }.note adr Life.free

/-- `_rt_typed_named_sem_init`, `_rt_typed_named_mbx_init` and
    `rt_named_malloc`.  `mem` is what the allocation returns, `made` what is
    made of it, and `left` what is left of it when it cannot be registered. -/
def namedInit (type : Int) (made : Contents) (left : Option Contents)
    (name : Nat) (mem : Option Nat) : World × Nat :=
  let r := getAdrCnt w.reg name
  if r.2 ≠ 0 then ({ w with reg := r.1 }.note r.2 Life.open, r.2)
  else
    match mem with
    | none => ({ w with reg := r.1 }, 0)
    | some adr =>
      let q := rtRegister r.1 name adr type 0
      if q.2 ≠ 0 then
        ({ reg := q.1
           heap := Function.update w.heap adr (some made)
           life := Function.update w.life adr (some ⟨1, 0, 0⟩) }, adr)
      else
        ({ w with reg := q.1, heap := Function.update w.heap adr left }, 0)

/-- `rt_typed_named_sem_init`. -/
def rtTypedNamedSemInit (name : Nat) (mem : Option Nat) : World × Nat :=
  namedInit w IS_SEM .sem none name mem

/-- `_rt_typed_named_mbx_init` does not look whether `rt_typed_mbx_init` has
    got a buffer.  If it has not, the mailbox has no magic number. -/
def rtTypedNamedMbxInit (name : Nat) (mem : Option Nat) (buf : Bool) : World × Nat :=
  namedInit w IS_MBX (if buf then .mbx else .other) none name mem

/-- A chunk that cannot be registered is given to `rt_hfree`, which frees
    memory of the group heap: it stays in use. -/
def rtNamedMalloc (name : Nat) (mem : Option Nat) : World × Nat :=
  namedInit w IS_HPCK .chunk (some .chunk) name mem

/-- The error values. -/
def RTE_BASE : Int := 0xFFFB

def RT_OBJREM : Int := 4

/-- The value is the one of `RTE_OBJREM`, unless `CONFIG_RTAI_USE_NEWERR`. -/
def RTE_OBJINV : Int := RTE_BASE + RT_OBJREM

/-- `rt_named_sem_delete` and `rt_named_mbx_delete`: the object is deleted when
    it has the magic number of its kind. -/
def namedDelete (kind : Contents) (err : Int) (adr : Nat) : World × Int :=
  let r := rtDrgOnAdrCnt w.reg adr
  let w := { w with reg := r.1 }.note adr Life.close
  if r.2 = 0 then
    if w.heap adr = some kind then (w.release adr, 0) else (w, err)
  else (w, r.2)

/-- `rt_named_sem_delete`. -/
def rtNamedSemDelete (sem : Nat) : World × Int :=
  namedDelete w .sem RTE_OBJINV sem

/-- `rt_named_mbx_delete`. -/
def rtNamedMbxDelete (mbx : Nat) : World × Int :=
  namedDelete w .mbx (-EFAULT) mbx

/-- `rt_named_free`.  The numbers are what `rt_get_name` draws for `NULL`. -/
def rtNamedFree (adr : Nat) (irandu : List Nat) : World :=
  let name := getName w.reg adr irandu
  let r := rtDrgOnNameCnt w.reg name
  let w := { w with reg := r.1 }.note adr Life.close
  if r.2 = 0 then w.release adr else w

/-- The creations and the deletions. -/
inductive Call where
  | semInit (name : Nat) (mem : Option Nat)
  | mbxInit (name : Nat) (mem : Option Nat) (buf : Bool)
  | malloc (name : Nat) (mem : Option Nat)
  | semDelete (sem : Nat)
  | mbxDelete (mbx : Nat)
  | free (adr : Nat) (irandu : List Nat)
  deriving DecidableEq

/-- What a call does. -/
def World.call : Call → World
  | .semInit name mem => (rtTypedNamedSemInit w name mem).1
  | .mbxInit name mem buf => (rtTypedNamedMbxInit w name mem buf).1
  | .malloc name mem => (rtNamedMalloc w name mem).1
  | .semDelete sem => (rtNamedSemDelete w sem).1
  | .mbxDelete mbx => (rtNamedMbxDelete w mbx).1
  | .free adr irandu => rtNamedFree w adr irandu

/-- The world after a run. -/
def World.calls : World → List Call → World
  | w, [] => w
  | w, c :: cs => (w.call c).calls cs

/-- The calls of a run satisfy `P` in the state in which they are made. -/
def World.Always (P : World → Call → Prop) : World → List Call → Prop
  | _, [] => True
  | w, c :: cs => P w c ∧ (w.call c).Always P cs

/-! ## What the services of the registry do -/

section Services

variable {list : Slots} {n k name adr : Nat} {type : Int} {t : Nat}

theorem getAdrCnt_named (C : Consistent list n) (h : NamedAt list n k name)
    (hlt : (list k).count + 1 < 65536) :
    getAdrCnt ⟨list, n⟩ name =
      (⟨recounted list k ((list k).count + 1), n⟩, (objectAt list k).adr) := by
  unfold getAdrCnt
  rw [hashFindName_registered C h, if_pos rfl]
  have hinc : incCount list k = recounted list k ((list k).count + 1) := by
    unfold incCount recounted toCount
    rw [Nat.mod_eq_of_lt hlt]
  rw [hinc]
  rfl

theorem getAdrCnt_unknown (C : Consistent list n) (h : Unknown list n name) :
    getAdrCnt ⟨list, n⟩ name = (⟨list, n⟩, 0) := by
  unfold getAdrCnt
  rw [hashFindName_unknown C h]
  rfl

theorem rtDrgOnNameCnt_named (C : Consistent list n) (h : NamedAt list n k name) :
    rtDrgOnNameCnt ⟨list, n⟩ name =
      (⟨dropped list n k (-EFAULT), n⟩, (((list k).count - 1 : Nat) : Int)) := by
  unfold rtDrgOnNameCnt
  rw [hashRemName_registered C h, if_pos (show -EFAULT ≠ 0 by decide)]
  rfl

theorem rtDrgOnAdrCnt_named (C : Consistent list n) (h : NamedAt list n k name) :
    rtDrgOnAdrCnt ⟨list, n⟩ (objectAt list k).adr =
      (⟨dropped list n k (-EFAULT), n⟩, (((list k).count - 1 : Nat) : Int)) := by
  unfold rtDrgOnAdrCnt
  rw [hashRemAdr_registered C h, if_pos (show -EFAULT ≠ 0 by decide)]
  rfl

end Services

/-! ## What a counted removal promises -/

/-- A search for a key that ends at a slot which does not hold it: there is an
    empty one, and the key is not its code. -/
def Ends (n v : Nat) (f : Nat → Nat) : Prop :=
  ∃ k, lookup n v f = some k ∧ f k ≠ v

/-- What is registered is as before, except for one reference of one object. -/
def OneLess (reg reg' : Registry) (name : Nat) (o : Object) : Prop :=
  ∀ m o', Has reg' m o' ↔
    if m = name then 1 < o.count ∧ o' = { o with count := o.count - 1 }
    else Has reg m o'

/-- **A COUNTED REMOVAL IS RIGHT**: it returns the references that are left of a
    registered object, which is removed with the last one, and it returns a
    negative value and changes nothing when there is no such object. -/
def CountsRight (reg : Registry) (r : Registry × Int) (P : Nat → Object → Prop) : Prop :=
  (∀ m o, Has reg m o → P m o →
    0 < o.count ∧ r.2 = ((o.count - 1 : Nat) : Int) ∧ OneLess reg r.1 m o) ∧
  ((∀ m o, Has reg m o → ¬ P m o) → r.2 < 0 ∧ r.1 = reg)

/-- A removal by name counts right. -/
def NameCountsRight (reg : Registry) (name : Nat) : Prop :=
  CountsRight reg (rtDrgOnNameCnt reg name) fun m _ => m = name

/-- A removal by address counts right. -/
def AdrCountsRight (reg : Registry) (adr : Nat) : Prop :=
  CountsRight reg (rtDrgOnAdrCnt reg adr) fun _ o => o.adr = adr

/-- The name is registered, or the search for it ends at an empty slot. -/
def MayDropName (reg : Registry) (name : Nat) : Prop :=
  (∃ o, Has reg name o) ∨ Ends reg.maxSlots name (names reg.lxrtList)

/-- The address can be found. -/
def MayDropAdr (reg : Registry) (adr : Nat) : Prop :=
  (∃ m o, Has reg m o ∧ o.adr = adr) ∨ Ends reg.maxSlots adr (adrs reg.lxrtList)

/-- Every object has references. -/
def Used (list : Slots) (n : Nat) : Prop :=
  ∀ m o, Registered list n m o → 0 < o.count

section Removal

variable {list : Slots} {n k name adr : Nat} {dec : Int}

theorem hashRemName_ends (h : Ends n name (names list)) :
    hashRemName name list n dec = (list, dec) := by
  obtain ⟨k, hs, hk⟩ := h
  unfold hashRemName
  rw [hs]
  exact if_neg hk

theorem hashRemAdr_ends (h : Ends n adr (adrs list)) :
    hashRemAdr adr list n dec = (list, dec) := by
  obtain ⟨j, hs, hj⟩ := h
  unfold hashRemAdr
  rw [hs]
  exact if_neg hj

/-- A counted removal that comes to its key, or to the end, returns no negative
    value. -/
theorem hashRemName_nonneg (hd : dec ≠ 0) (h : ¬ Ends n name (names list)) :
    0 ≤ (hashRemName name list n dec).2 := by
  unfold hashRemName
  cases hs : lookup n name (names list) with
  | none => exact le_refl 0
  | some k =>
    have hk : (list k).name = name := by
      by_contra hne
      exact h ⟨k, hs, hne⟩
    dsimp only
    rw [if_pos hk, if_pos hd]
    exact Int.natCast_nonneg _

theorem hashRemAdr_nonneg (hd : dec ≠ 0) (h : ¬ Ends n adr (adrs list)) :
    0 ≤ (hashRemAdr adr list n dec).2 := by
  unfold hashRemAdr
  cases hs : lookup n adr (adrs list) with
  | none => exact le_refl 0
  | some j =>
    have hj : (list j).adr = adr := by
      by_contra hne
      exact h ⟨j, hs, hne⟩
    dsimp only
    rw [if_pos hj, if_pos hd]
    exact Int.natCast_nonneg _

theorem dropped_oneLess (C : Consistent list n) (U : Used list n) (h : NamedAt list n k name) :
    OneLess ⟨list, n⟩ ⟨dropped list n k (-EFAULT), n⟩ name (objectAt list k) := by
  intro m o'
  have hdrop : Registered (dropped list n k (-EFAULT)) n m o' ↔ _ :=
    registered_dropped C h (U name _ ⟨k, h, rfl⟩)
  refine hdrop.trans ?_
  by_cases hm : m = name
  · rw [if_pos hm, if_pos hm]
    constructor
    · rintro ⟨-, h1, h2⟩
      exact ⟨h1, h2⟩
    · rintro ⟨h1, h2⟩
      exact ⟨by decide, h1, h2⟩
  · rw [if_neg hm, if_neg hm]

/-- **WHEN A COUNTED REMOVAL BY NAME IS RIGHT.** -/
theorem nameCountsRight_iff (C : Consistent list n) (U : Used list n) :
    NameCountsRight ⟨list, n⟩ name ↔ MayDropName ⟨list, n⟩ name := by
  constructor
  · rintro ⟨-, hno⟩
    by_contra hnot
    have hends : ¬ Ends n name (names list) := fun h => hnot (Or.inr h)
    have hlt := (hno fun m o hm heq => hnot (Or.inl ⟨o, heq ▸ hm⟩)).1
    have hle : 0 ≤ (rtDrgOnNameCnt ⟨list, n⟩ name).2 :=
      hashRemName_nonneg (by decide) hends
    omega
  · rintro (⟨o, k, hk, rfl⟩ | hends)
    · constructor
      · rintro m o hm rfl
        obtain rfl : o = objectAt list k := C.sameObject hm ⟨k, hk, rfl⟩
        refine ⟨U m _ hm, ?_, ?_⟩
        · rw [rtDrgOnNameCnt_named C hk]
          rfl
        · rw [rtDrgOnNameCnt_named C hk]
          exact dropped_oneLess C U hk
      · intro hno
        exact absurd rfl (hno name _ ⟨k, hk, rfl⟩)
    · have hrem : rtDrgOnNameCnt ⟨list, n⟩ name = (⟨list, n⟩, -EFAULT) := by
        unfold rtDrgOnNameCnt
        rw [hashRemName_ends hends]
        rfl
      constructor
      · rintro m o ⟨k, hk, rfl⟩ rfl
        obtain ⟨k', hs, hne⟩ := hends
        have hfind := C.names.finds C.pos hk.2.1 hk.1 hk.2.2
        rw [hs] at hfind
        obtain rfl := Option.some.inj hfind
        exact absurd hk.2.2 hne
      · intro _
        rw [hrem]
        exact ⟨show -EFAULT < 0 by decide, rfl⟩

/-- **WHEN A COUNTED REMOVAL BY ADDRESS IS RIGHT.** -/
theorem adrCountsRight_iff (C : Consistent list n) (U : Used list n) :
    AdrCountsRight ⟨list, n⟩ adr ↔ MayDropAdr ⟨list, n⟩ adr := by
  constructor
  · rintro ⟨-, hno⟩
    by_contra hnot
    have hends : ¬ Ends n adr (adrs list) := fun h => hnot (Or.inr h)
    have hlt := (hno fun m o hm heq => hnot (Or.inl ⟨m, o, hm, heq⟩)).1
    have hle : 0 ≤ (rtDrgOnAdrCnt ⟨list, n⟩ adr).2 :=
      hashRemAdr_nonneg (by decide) hends
    omega
  · rintro (⟨m, o, ⟨k, hk, rfl⟩, rfl⟩ | hends)
    · constructor
      · rintro m' o' hm' heq
        obtain rfl : m' = m := C.sameName hm' ⟨k, hk, rfl⟩ heq
        obtain rfl : o' = objectAt list k := C.sameObject hm' ⟨k, hk, rfl⟩
        refine ⟨U m' _ hm', ?_, ?_⟩
        · rw [rtDrgOnAdrCnt_named C hk]
          rfl
        · rw [rtDrgOnAdrCnt_named C hk]
          exact dropped_oneLess C U hk
      · intro hno
        exact absurd rfl (hno m _ ⟨k, hk, rfl⟩)
    · have hrem : rtDrgOnAdrCnt ⟨list, n⟩ adr = (⟨list, n⟩, -EFAULT) := by
        unfold rtDrgOnAdrCnt
        rw [hashRemAdr_ends hends]
        rfl
      constructor
      · rintro m o ⟨k, hk, rfl⟩ heq
        obtain ⟨h1, h2, -⟩ := C.adrSlot hk
        obtain ⟨j, hs, hne⟩ := hends
        have hfind := C.adrs.finds C.pos h2 h1 rfl
        rw [show (objectAt list k).adr = adr from heq, hs] at hfind
        obtain rfl := Option.some.inj hfind
        exact absurd heq hne
      · intro _
        rw [hrem]
        exact ⟨show -EFAULT < 0 by decide, rfl⟩

end Removal

/-! ## The accounts of the objects -/

/-- The object is registered with the references that have not been given back,
    or all have, and it has been freed. -/
def Settled (T : Nat → Object → Prop) (adr : Nat) (l : Life) : Prop :=
  (∃ m o, T m o ∧ o.adr = adr ∧ o.count + l.closed = l.opened ∧ l.freed = 0) ∨
    ((∀ m o, T m o → o.adr ≠ adr) ∧ l.opened ≤ l.closed ∧ l.freed = 1)

/-- Only what is registered at the address matters. -/
theorem Settled.frame {T T' : Nat → Object → Prop} {adr : Nat} {l : Life}
    (h : ∀ m o, o.adr = adr → (T m o ↔ T' m o)) (hs : Settled T adr l) :
    Settled T' adr l := by
  rcases hs with ⟨m, o, ho, hadr, hcount⟩ | ⟨hno, hclosed⟩
  · left
    exact ⟨m, o, (h m o hadr).mp ho, hadr, hcount⟩
  · right
    refine ⟨?_, hclosed⟩
    intro m o ho hadr
    exact hno m o ((h m o hadr).mpr ho) hadr

/-- **THE ACCOUNTS ARE IN ORDER.** -/
structure Accounts (w : World) : Prop where
  consistent : Consistent w.reg.lxrtList w.reg.maxSlots
  used : Used w.reg.lxrtList w.reg.maxSlots
  allocated : ∀ m o, Has w.reg m o → w.heap o.adr ≠ none
  lives : ∀ adr l, w.life adr = some l → Settled (Has w.reg) adr l

section Accounts

variable {w : World} {n k name adr : Nat} {o : Object}

theorem World.note_life (w : World) (adr b : Nat) (f : Life → Life) : (w.note adr f).life b =
      if b = adr then (w.life adr).map f else w.life b := by
  unfold World.note
  exact Function.update_apply ..

theorem World.note_heap (w : World) (adr : Nat) (f : Life → Life) :
    (w.note adr f).heap = w.heap := rfl

/-- The object of one name changes, and the accounts with it. -/
theorem Accounts.change (A : Accounts w) (h : Has w.reg name o)
    {list' : Slots} {P : Object → Prop} (C' : Consistent list' w.reg.maxSlots)
    (hreg : ∀ m o', Registered list' w.reg.maxSlots m o' ↔
      if m = name then P o' else Has w.reg m o')
    (hP : ∀ o', P o' → 0 < o'.count ∧ o'.adr = o.adr)
    {heap' : Nat → Option Contents} {life' : Nat → Option Life}
    (hheap : ∀ b, b ≠ o.adr → heap' b = w.heap b)
    (hheap' : (∃ o', P o') → heap' o.adr ≠ none)
    (hlife : ∀ b, b ≠ o.adr → life' b = w.life b)
    (hlife' : ∀ l, life' o.adr = some l → Settled (Registered list' w.reg.maxSlots) o.adr l) :
    Accounts ⟨⟨list', w.reg.maxSlots⟩, heap', life'⟩ where
  consistent := C'
  used := by
    intro m o' ho'
    rw [hreg] at ho'
    by_cases hm : m = name
    · rw [if_pos hm] at ho'
      exact (hP o' ho').1
    · rw [if_neg hm] at ho'
      exact A.used m o' ho'
  allocated := by
    intro m o' ho'
    have ho'' := (hreg m o').mp ho'
    by_cases hm : m = name
    · rw [if_pos hm] at ho''
      rw [(hP o' ho'').2]
      exact hheap' ⟨o', ho''⟩
    · rw [if_neg hm] at ho''
      have hne : o'.adr ≠ o.adr := fun heq =>
        hm (A.consistent.sameName ho'' h heq)
      show heap' o'.adr ≠ none
      rw [hheap _ hne]
      exact A.allocated m o' ho''
  lives := by
    intro b l hl
    by_cases hb : b = o.adr
    · subst hb
      exact hlife' l hl
    · have hl' : w.life b = some l := (hlife b hb).symm.trans hl
      refine (A.lives b l hl').frame ?_
      intro m o' ho'
      show _ ↔ Registered list' w.reg.maxSlots m o'
      rw [hreg]
      by_cases hm : m = name
      · subst hm
        rw [if_pos rfl]
        constructor
        · intro hhas
          exact absurd (ho' ▸ congrArg Object.adr (A.consistent.sameObject hhas h)) hb
        · intro hp
          exact absurd (ho'.symm.trans (hP o' hp).2) hb
      · rw [if_neg hm]

/-- A registered object has as many references as have been opened and not
    closed. -/
theorem Accounts.count (A : Accounts w) (h : Has w.reg name o) {l : Life}
    (hl : w.life o.adr = some l) :
    o.count + l.closed = l.opened ∧ l.freed = 0 := by
  rcases A.lives _ l hl with ⟨m, o', ho', hadr, hcount⟩ | ⟨hno, -⟩
  · obtain rfl : m = name := A.consistent.sameName ho' h hadr
    obtain rfl : o' = o := A.consistent.sameObject ho' h
    exact hcount
  · exact absurd rfl (hno name o h)

/-- An object is opened once more. -/
theorem Accounts.opens (A : Accounts w) (h : NamedAt w.reg.lxrtList w.reg.maxSlots k name) :
    Accounts ({ w with reg :=
      ⟨recounted w.reg.lxrtList k ((w.reg.lxrtList k).count + 1),
        w.reg.maxSlots⟩ }.note (objectAt w.reg.lxrtList k).adr Life.open) := by
  have C := A.consistent
  have hhas : Has w.reg name (objectAt w.reg.lxrtList k) := ⟨k, h, rfl⟩
  have hreg : ∀ m o', Registered (recounted w.reg.lxrtList k
      ((w.reg.lxrtList k).count + 1)) w.reg.maxSlots m o' ↔ _ :=
    fun m o' => registered_recounted C h
  refine A.change hhas (C.recounts ..) hreg ?_ (fun b _ => rfl)
    (fun _ => A.allocated name _ hhas) ?_ ?_
  · rintro o' rfl
    exact ⟨Nat.succ_pos _, rfl⟩
  · intro b hb
    exact (World.note_life ..).trans (if_neg hb)
  · intro l hl
    rw [Function.update_self] at hl
    obtain ⟨l₀, hl₀, rfl⟩ := Option.map_eq_some_iff.mp hl
    obtain ⟨hcount, hfreed⟩ := A.count hhas hl₀
    left
    refine ⟨name, _, (hreg name _).mpr ((if_pos rfl).mpr rfl), rfl, ?_, hfreed⟩
    show (w.reg.lxrtList k).count + 1 + l₀.closed = l₀.opened + 1
    have : (w.reg.lxrtList k).count + l₀.closed = l₀.opened := hcount
    omega

/-- One of several references is given back. -/
theorem Accounts.closes (A : Accounts w) (h : NamedAt w.reg.lxrtList w.reg.maxSlots k name)
    (h1 : (w.reg.lxrtList k).count ≠ 1) :
    Accounts ({ w with reg :=
      ⟨dropped w.reg.lxrtList w.reg.maxSlots k (-EFAULT),
        w.reg.maxSlots⟩ }.note (objectAt w.reg.lxrtList k).adr Life.close) := by
  have C := A.consistent
  have hhas : Has w.reg name (objectAt w.reg.lxrtList k) := ⟨k, h, rfl⟩
  have hpos : 0 < (w.reg.lxrtList k).count := A.used name _ hhas
  have hless := dropped_oneLess C A.used h
  refine A.change hhas (C.drops h _) hless ?_ (fun b _ => rfl)
    (fun _ => A.allocated name _ hhas) ?_ ?_
  · rintro o' ⟨hlt, rfl⟩
    refine ⟨?_, rfl⟩
    show 0 < (objectAt w.reg.lxrtList k).count - 1
    omega
  · intro b hb
    exact (World.note_life ..).trans (if_neg hb)
  · intro l hl
    rw [Function.update_self] at hl
    obtain ⟨l₀, hl₀, rfl⟩ := Option.map_eq_some_iff.mp hl
    obtain ⟨hcount, hfreed⟩ := A.count hhas hl₀
    have hlt : 1 < (w.reg.lxrtList k).count := by omega
    left
    refine ⟨name, _, (hless name _).mpr ((if_pos rfl).mpr ⟨hlt, rfl⟩), rfl, ?_, hfreed⟩
    show (w.reg.lxrtList k).count - 1 + (l₀.closed + 1) = l₀.opened
    have : (w.reg.lxrtList k).count + l₀.closed = l₀.opened := hcount
    omega

/-- **THE LAST REFERENCE IS GIVEN BACK**, and the object freed. -/
theorem Accounts.frees (A : Accounts w) (h : NamedAt w.reg.lxrtList w.reg.maxSlots k name)
    (h1 : (w.reg.lxrtList k).count = 1) :
    Accounts (({ w with reg :=
      ⟨dropped w.reg.lxrtList w.reg.maxSlots k (-EFAULT),
        w.reg.maxSlots⟩ }.note (objectAt w.reg.lxrtList k).adr
          Life.close).release (objectAt w.reg.lxrtList k).adr) := by
  have C := A.consistent
  have hhas : Has w.reg name (objectAt w.reg.lxrtList k) := ⟨k, h, rfl⟩
  have hless := dropped_oneLess C A.used h
  have hnone : ∀ o' : Object, ¬ (1 < (objectAt w.reg.lxrtList k).count ∧
      o' = { objectAt w.reg.lxrtList k with
        count := (objectAt w.reg.lxrtList k).count - 1 }) := by
    rintro o' ⟨hlt, -⟩
    exact absurd hlt (not_lt.mpr h1.le)
  refine A.change hhas (C.drops h _) hless (fun o' ho' => absurd ho' (hnone o')) ?_
    (fun ⟨o', ho'⟩ => absurd ho' (hnone o')) ?_ ?_
  · intro b hb
    exact Function.update_of_ne hb ..
  · intro b hb
    refine (World.note_life ..).trans ((if_neg hb).trans ?_)
    exact (World.note_life ..).trans (if_neg hb)
  · intro l hl
    have hl' : ((w.life (objectAt w.reg.lxrtList k).adr).map Life.close).map
        Life.free = some l := by
      rw [← hl]
      refine (Eq.trans (World.note_life ..) ((if_pos rfl).trans ?_)).symm
      exact congrArg (Option.map Life.free) ((World.note_life ..).trans (if_pos rfl))
    obtain ⟨l₁, hl₁, rfl⟩ := Option.map_eq_some_iff.mp hl'
    obtain ⟨l₀, hl₀, rfl⟩ := Option.map_eq_some_iff.mp hl₁
    obtain ⟨hcount, hfreed⟩ := A.count hhas hl₀
    right
    refine ⟨?_, ?_, ?_⟩
    · intro m o' ho' heq
      have ho'' := (hless m o').mp ho'
      by_cases hm : m = name
      · rw [if_pos hm] at ho''
        exact hnone o' ho''
      · rw [if_neg hm] at ho''
        exact hm (C.sameName ho'' hhas heq)
    · show l₀.opened ≤ l₀.closed + 1
      have : (w.reg.lxrtList k).count + l₀.closed = l₀.opened := hcount
      omega
    · show l₀.freed + 1 = 1
      omega

/-- A deletion of what is not registered counts for nothing. -/
theorem Accounts.idle (A : Accounts w) (h : ∀ m o, Has w.reg m o → o.adr ≠ adr) :
    Accounts (w.note adr Life.close) where
  consistent := A.consistent
  used := A.used
  allocated := A.allocated
  lives := by
    intro b l hl
    rw [World.note_life] at hl
    by_cases hb : b = adr
    · rw [if_pos hb] at hl
      subst hb
      obtain ⟨l₀, hl₀, rfl⟩ := Option.map_eq_some_iff.mp hl
      rcases A.lives b l₀ hl₀ with ⟨m, o, ho, hadr, -⟩ | ⟨-, hclosed, hfreed⟩
      · exact absurd hadr (h m o ho)
      · right
        exact ⟨h, Nat.le_succ_of_le hclosed, hfreed⟩
    · rw [if_neg hb] at hl
      exact A.lives b l hl

/-- A new object is registered. -/
theorem Accounts.makes (A : Accounts w) {j : Nat} {type : Int} {t : Nat}
    {made : Contents} (hk : Seat w.reg.maxSlots k) (hname : NONAME < name)
    (hk1 : (w.reg.lxrtList k).name ≤ NONAME)
    (hj1 : (w.reg.lxrtList j).adr ≤ NOADR) (hfree : w.heap adr = none)
    (C' : Consistent (inserted w.reg.lxrtList name adr type t k j) w.reg.maxSlots) :
    Accounts ⟨⟨inserted w.reg.lxrtList name adr type t k j, w.reg.maxSlots⟩,
      Function.update w.heap adr (some made),
      Function.update w.life adr (some ⟨1, 0, 0⟩)⟩ := by
  have hreg : ∀ m o, Registered (inserted w.reg.lxrtList name adr type t k j)
      w.reg.maxSlots m o ↔ _ :=
    fun m o => registered_inserted A.consistent hk hname hk1 hj1
  have hno : ∀ m o, Has w.reg m o → o.adr ≠ adr := by
    rintro m o ho rfl
    exact A.allocated m o ho hfree
  constructor
  · exact C'
  · intro m o ho
    rcases (hreg m o).mp ho with ho | ⟨-, rfl⟩
    · exact A.used m o ho
    · exact Nat.one_pos
  · intro m o ho
    show Function.update w.heap adr (some made) o.adr ≠ none
    rcases (hreg m o).mp ho with ho | ⟨-, rfl⟩
    · rw [Function.update_of_ne (hno m o ho)]
      exact A.allocated m o ho
    · rw [Function.update_self]
      exact Option.some_ne_none _
  · intro b l hl
    by_cases hb : b = adr
    · subst hb
      have hl' : some ⟨1, 0, 0⟩ = some l :=
        (Function.update_self b _ w.life).symm.trans hl
      obtain rfl := Option.some.inj hl'
      left
      exact ⟨name, _, (hreg name _).mpr (Or.inr ⟨rfl, rfl⟩), rfl, rfl, rfl⟩
    · have hl' : w.life b = some l := (Function.update_of_ne hb ..).symm.trans hl
      refine (A.lives b l hl').frame ?_
      intro m o ho
      show _ ↔ Registered (inserted w.reg.lxrtList name adr type t k j) _ m o
      rw [hreg]
      constructor
      · exact Or.inl
      · rintro (h | ⟨-, rfl⟩)
        · exact h
        · exact absurd ho.symm hb

/-- Memory is taken that is not in use, and not registered. -/
theorem Accounts.leaves (A : Accounts w) (left : Option Contents) (hfree : w.heap adr = none) :
    Accounts { w with heap := Function.update w.heap adr left } where
  consistent := A.consistent
  used := A.used
  allocated := by
    intro m o ho
    have hne : o.adr ≠ adr := by
      rintro rfl
      exact A.allocated m o ho hfree
    show Function.update w.heap adr left o.adr ≠ none
    rw [Function.update_of_ne hne]
    exact A.allocated m o ho
  lives := A.lives

end Accounts

/-! ## Runs -/

/-- The registry is kept together, and no count wraps. -/
def Counts (reg : Registry) (op : Op) : Prop :=
  Keeps reg op ∧
    match op with
    | .getAdrCnt name => ∀ o, Has reg name o → o.count + 1 < 65536
    | _ => True

section Registry

variable {list : Slots} {n k name adr : Nat} {type : Int} {t : Nat}

theorem used_dropped (C : Consistent list n) (U : Used list n)
    (h : NamedAt list n k name) (dec : Int) : Used (dropped list n k dec) n := by
  intro m o ho
  have hpos : 0 < (list k).count := U name _ ⟨k, h, rfl⟩
  have hdrop : Registered (dropped list n k dec) n m o ↔ _ :=
    registered_dropped C h hpos
  rw [hdrop] at ho
  by_cases hm : m = name
  · rw [if_pos hm] at ho
    obtain ⟨-, hlt, rfl⟩ := ho
    show 0 < (list k).count - 1
    omega
  · rw [if_neg hm] at ho
    exact U m o ho

theorem used_remName (C : Consistent list n) (U : Used list n)
    (hname : NONAME < name) (dec : Int) :
    Used (hashRemName name list n dec).1 n := by
  rcases registered_or_unknown list n hname with ⟨k, hk⟩ | hunk
  · rw [hashRemName_registered C hk]
    exact used_dropped C U hk dec
  · rcases @hashRemName_unknown list n name dec C hunk with ⟨h, -⟩ | ⟨h, -⟩ <;>
      rw [h] <;> exact U

theorem used_remAdr (C : Consistent list n) (U : Used list n)
    (hadr : NOADR < adr) (dec : Int) : Used (hashRemAdr adr list n dec).1 n := by
  rcases C.adr_cases hadr with ⟨k, m, hk, rfl⟩ | hno
  · rw [hashRemAdr_registered C hk]
    exact used_dropped C U hk dec
  · rcases @hashRemAdr_nameless list n adr dec C hno with ⟨h, -⟩ | ⟨h, -⟩ <;>
      rw [h] <;> exact U

/-- The counts of slots without a name are nobody's. -/
theorem used_incCount (U : Used list n) (hk : (list k).name ≤ NONAME) :
    Used (incCount list k) n := by
  rintro m o ⟨x, hx, rfl⟩
  have hx' : NamedAt list n x m := namedAt_recounted.mp hx
  have hne : x ≠ k := by
    rintro rfl
    exact absurd hx'.live (not_lt.mpr hk)
  have hcount : (incCount list k x).count = (list x).count := by
    unfold incCount
    rw [Function.update_of_ne hne]
  show 0 < (incCount list k x).count
  rw [hcount]
  exact U m _ ⟨x, hx', rfl⟩

theorem used_getAdrCnt (C : Consistent list n) (U : Used list n)
    (hlt : ∀ o, Registered list n name o → o.count + 1 < 65536) :
    Used (getAdrCnt ⟨list, n⟩ name).1.lxrtList n := by
  by_cases hname : NONAME < name
  · rcases registered_or_unknown list n hname with ⟨k, hk⟩ | hunk
    · rw [getAdrCnt_named C hk (hlt _ ⟨k, hk, rfl⟩)]
      intro m o ho
      have hreg : Registered (recounted list k ((list k).count + 1)) n m o ↔ _ :=
        registered_recounted C hk
      rw [hreg] at ho
      by_cases hm : m = name
      · rw [if_pos hm] at ho
        subst ho
        exact Nat.succ_pos _
      · rw [if_neg hm] at ho
        exact U m o ho
    · rw [getAdrCnt_unknown C hunk]
      exact U
  · unfold getAdrCnt hashFindName Registry.after
    cases lookup n name (names list) with
    | none => exact U
    | some k =>
      dsimp only
      by_cases hk : (list k).name = name
      · rw [if_pos hk]
        exact used_incCount U (hk ▸ not_lt.mp hname)
      · rw [if_neg hk]
        exact U

theorem exec_used {op : Op} (C : Consistent list n) (U : Used list n)
    (h : Counts ⟨list, n⟩ op) : Used (exec ⟨list, n⟩ op).1.lxrtList n := by
  obtain ⟨hkeeps, hcount⟩ := h
  cases op with
  | register name adr type t =>
    show Used (rtRegister ⟨list, n⟩ name adr type t).1.lxrtList n
    rcases @rtRegister_kept list n name adr type t C hkeeps.1 hkeeps.2.1
      hkeeps.2.2 with hsame | ⟨k, j, hk, hk1, hj1, hins, -⟩
    · rw [hsame]
      exact U
    · rw [hins]
      intro m o ho
      have hreg : Registered (inserted list name adr type t k j) n m o ↔ _ :=
        registered_inserted C hk hkeeps.1 hk1 hj1
      rcases hreg.mp ho with ho | ⟨-, rfl⟩
      · exact U m o ho
      · exact Nat.one_pos
  | drgOnName name => exact used_remName C U hkeeps 0
  | drgOnAdr adr => exact used_remAdr C U hkeeps 0
  | getAdr name => exact U
  | getType name => exact U
  | getName adr irandu => exact U
  | getAdrCnt name => exact used_getAdrCnt C U hcount
  | drgOnNameCnt name => exact used_remName C U hkeeps (-EFAULT)
  | drgOnAdrCnt adr => exact used_remAdr C U hkeeps (-EFAULT)

theorem ran_used : ∀ (ops : List Op) {reg : Registry}, Consistent reg.lxrtList reg.maxSlots →
      Used reg.lxrtList reg.maxSlots → Always Counts reg ops →
      Consistent (ran reg ops).lxrtList (ran reg ops).maxSlots ∧
        Used (ran reg ops).lxrtList (ran reg ops).maxSlots := by
  intro ops
  induction ops with
  | nil =>
    intro reg C U _
    exact ⟨C, U⟩
  | cons op ops ih =>
    intro reg C U h
    refine ih ?_ ?_ h.2
    · rw [exec_maxSlots]
      exact exec_consistent C h.1.1
    · rw [exec_maxSlots]
      exact exec_used C U h.1

end Registry

/-- What the allocation returns. -/
def Call.mem : Call → Option Nat
  | .semInit _ mem => mem
  | .mbxInit _ mem _ => mem
  | .malloc _ mem => mem
  | _ => none

/-- The allocation returns memory that is not in use. -/
def Mallocs (w : World) (c : Call) : Prop :=
  ∀ adr, c.mem = some adr → NOADR < adr ∧ w.heap adr = none

/-- The last reference to an object is given back with the function of its
    kind. -/
def OwnKind (w : World) (kind : Contents) (adr : Nat) : Prop :=
  ∀ m o, Has w.reg m o → o.adr = adr → o.count = 1 → w.heap adr = some kind

/-- The use count has room. -/
def MayOpen (w : World) (name : Nat) : Prop :=
  NONAME < name ∧ ∀ o, Has w.reg name o → o.count + 1 < 65536

/-- What is deleted is registered, or the search for it ends at an empty
    slot. -/
def Spares (w : World) : Call → Prop
  | .semInit name _ => MayOpen w name
  | .mbxInit name _ _ => MayOpen w name
  | .malloc name _ => MayOpen w name
  | .semDelete sem => MayDropAdr w.reg sem ∧ OwnKind w .sem sem
  | .mbxDelete mbx => MayDropAdr w.reg mbx ∧ OwnKind w .mbx mbx
  | .free adr irandu =>
    (∃ m o, Has w.reg m o ∧ o.adr = adr) ∨ (∀ m o, Has w.reg m o → o.adr ≠ adr) ∧
        (∀ o, ¬ Has w.reg (getName w.reg adr irandu) o) ∧
        Ends w.reg.maxSlots (getName w.reg adr irandu) (names w.reg.lxrtList)

section Calls

variable {w : World} {name adr : Nat} {mem : Option Nat}

/-- **A CREATION KEEPS THE ACCOUNTS.** -/
theorem namedInit_accounts (A : Accounts w) (type : Int) (made : Contents)
    (left : Option Contents) (hopen : MayOpen w name)
    (hmem : ∀ adr, mem = some adr → NOADR < adr ∧ w.heap adr = none) :
    Accounts (namedInit w type made left name mem).1 := by
  obtain ⟨hname, hlt⟩ := hopen
  have C := A.consistent
  unfold namedInit
  rcases registered_or_unknown w.reg.lxrtList w.reg.maxSlots hname with
    ⟨k, hk⟩ | hunk
  · have hadr := (C.adrSlot hk).2.1
    rw [show getAdrCnt w.reg name = _ from
      getAdrCnt_named C hk (hlt _ ⟨k, hk, rfl⟩)]
    dsimp only
    rw [if_pos (Nat.pos_iff_ne_zero.mp (lt_trans Nat.one_pos hadr))]
    exact A.opens hk
  · rw [show getAdrCnt w.reg name = _ from getAdrCnt_unknown C hunk]
    dsimp only
    rw [if_neg (not_not.mpr rfl)]
    cases mem with
    | none => exact A
    | some adr =>
      obtain ⟨hadr, hfree⟩ := hmem adr rfl
      have hless : Nameless w.reg.lxrtList w.reg.maxSlots adr := by
        rcases C.adr_cases hadr with ⟨k, m, hk, rfl⟩ | hno
        · exact absurd hfree (A.allocated m _ ⟨k, hk, rfl⟩)
        · exact hno
      dsimp only
      rcases @rtRegister_new w.reg.lxrtList w.reg.maxSlots name adr type 0 C
        hname hunk hadr hless with ⟨k, j, hk, hk1, hj1, hins, C'⟩ | hins
      · have hne : (k : Int) ≠ 0 := by
          have := hk.1
          omega
        rw [hins]
        dsimp only
        rw [if_pos hne]
        exact A.makes hk hname hk1 hj1 hfree C'
      · rw [hins]
        dsimp only
        rw [if_neg (not_not.mpr rfl)]
        exact A.leaves left hfree

/-- **A DELETION KEEPS THE ACCOUNTS.** -/
theorem namedDelete_accounts (A : Accounts w) (kind : Contents) (err : Int)
    (hdrop : MayDropAdr w.reg adr) (hkind : OwnKind w kind adr) :
    Accounts (namedDelete w kind err adr).1 := by
  have C := A.consistent
  unfold namedDelete
  by_cases hreg : ∃ m o, Has w.reg m o ∧ o.adr = adr
  · obtain ⟨m, o, ⟨k, hk, rfl⟩, rfl⟩ := hreg
    have hpos : 0 < (w.reg.lxrtList k).count := A.used m _ ⟨k, hk, rfl⟩
    rw [show rtDrgOnAdrCnt w.reg _ = _ from rtDrgOnAdrCnt_named C hk]
    dsimp only
    by_cases h1 : (w.reg.lxrtList k).count = 1
    · have hlast : (((w.reg.lxrtList k).count - 1 : Nat) : Int) = 0 := by
        rw [h1]
        rfl
      have hsame : w.heap (objectAt w.reg.lxrtList k).adr = some kind :=
        hkind m _ ⟨k, hk, rfl⟩ rfl h1
      rw [if_pos hlast, World.note_heap, if_pos hsame]
      exact A.frees hk h1
    · have hmore : (((w.reg.lxrtList k).count - 1 : Nat) : Int) ≠ 0 := by omega
      rw [if_neg hmore]
      exact A.closes hk h1
  · have hends := hdrop.resolve_left hreg
    have hrem : rtDrgOnAdrCnt w.reg adr = (w.reg, -EFAULT) := by
      unfold rtDrgOnAdrCnt
      rw [hashRemAdr_ends hends]
      rfl
    rw [hrem]
    dsimp only
    rw [if_neg (show -EFAULT ≠ 0 by decide)]
    refine A.idle ?_
    intro m o ho heq
    exact hreg ⟨m, o, ho, heq⟩

/-- **SO DOES `rt_named_free`.** -/
theorem rtNamedFree_accounts (A : Accounts w) (irandu : List Nat)
    (h : Spares w (.free adr irandu)) : Accounts (rtNamedFree w adr irandu) := by
  have C := A.consistent
  unfold rtNamedFree
  rcases h with ⟨m, o, ⟨k, hk, rfl⟩, rfl⟩ | ⟨hno, hunk, hends⟩
  · have hadr := (C.adrSlot hk).2.1
    have hname : getName w.reg (objectAt w.reg.lxrtList k).adr irandu = m := by
      unfold getName
      rw [if_neg (Nat.pos_iff_ne_zero.mp (lt_trans Nat.one_pos hadr)),
        hashFindAdr_registered C hk]
    dsimp only
    rw [hname, show rtDrgOnNameCnt w.reg m = _ from rtDrgOnNameCnt_named C hk]
    dsimp only
    have hpos : 0 < (w.reg.lxrtList k).count := A.used m _ ⟨k, hk, rfl⟩
    by_cases h1 : (w.reg.lxrtList k).count = 1
    · have hlast : (((w.reg.lxrtList k).count - 1 : Nat) : Int) = 0 := by
        rw [h1]
        rfl
      rw [if_pos hlast]
      exact A.frees hk h1
    · have hmore : (((w.reg.lxrtList k).count - 1 : Nat) : Int) ≠ 0 := by omega
      rw [if_neg hmore]
      exact A.closes hk h1
  · have hrem : rtDrgOnNameCnt w.reg (getName w.reg adr irandu) = (w.reg, -EFAULT) := by
      unfold rtDrgOnNameCnt
      rw [hashRemName_ends hends]
      rfl
    dsimp only
    rw [hrem]
    dsimp only
    rw [if_neg (show -EFAULT ≠ 0 by decide)]
    exact A.idle hno

theorem call_accounts (A : Accounts w) {c : Call} (hmem : Mallocs w c)
    (h : Spares w c) : Accounts (w.call c) := by
  cases c with
  | semInit name mem => exact namedInit_accounts A _ _ _ h hmem
  | mbxInit name mem buf => exact namedInit_accounts A _ _ _ h hmem
  | malloc name mem => exact namedInit_accounts A _ _ _ h hmem
  | semDelete sem => exact namedDelete_accounts A _ _ h.1 h.2
  | mbxDelete mbx => exact namedDelete_accounts A _ _ h.1 h.2
  | free adr irandu => exact rtNamedFree_accounts A irandu h

theorem calls_accounts : ∀ (cs : List Call) {w : World}, Accounts w →
      w.Always (fun w c => Mallocs w c ∧ Spares w c) cs →
      Accounts (w.calls cs) := by
  intro cs
  induction cs with
  | nil =>
    intro w A _
    exact A
  | cons c cs ih =>
    intro w A h
    exact ih (call_accounts A h.1.1 h.1.2) h.2

end Calls

/-- The world in which no object has been created yet. -/
def World.start (reg : Registry) (heap : Nat → Option Contents) : World where
  reg := reg
  heap := heap
  life := fun _ => none

theorem accounts_start {n : Nat} (hn : 0 < n) {ops : List Op}
    {heap : Nat → Option Contents} (h : Always Counts (rtRegistryAlloc n) ops)
    (hheap : ∀ m o, Has (ran (rtRegistryAlloc n) ops) m o → heap o.adr ≠ none) :
    Accounts (World.start (ran (rtRegistryAlloc n) ops) heap) := by
  have hused : Used cleared n := fun _ _ h => absurd h not_registered_cleared
  obtain ⟨C, U⟩ := @ran_used ops (rtRegistryAlloc n) (consistent_cleared hn) hused h
  exact ⟨C, U, hheap, fun adr l hl => (nomatch hl)⟩

/-- **USE COUNTS FREE EACH OBJECT EXACTLY ONCE**, in every run in which what is
    deleted is registered or the search for it ends at an empty slot.  In the
    state that is reached, a counted removal is right exactly when that is so,
    and each object has been freed once if its deletions have come up with its
    creations, and not at all before. -/
theorem objects_freed_once {n : Nat} (hn : 0 < n) (ops : List Op)
    (hops : Always Counts (rtRegistryAlloc n) ops)
    (heap : Nat → Option Contents)
    (hheap : ∀ m o, Has (ran (rtRegistryAlloc n) ops) m o → heap o.adr ≠ none)
    (cs : List Call)
    (hcs : (World.start (ran (rtRegistryAlloc n) ops) heap).Always
      (fun w c => Mallocs w c ∧ Spares w c) cs) :
    let w := (World.start (ran (rtRegistryAlloc n) ops) heap).calls cs
    (∀ name, NameCountsRight w.reg name ↔ MayDropName w.reg name) ∧
    (∀ adr, AdrCountsRight w.reg adr ↔ MayDropAdr w.reg adr) ∧
    (∀ m o l, Has w.reg m o → w.life o.adr = some l → o.count + l.closed = l.opened) ∧
    ∀ adr l, w.life adr = some l → l.freed = if l.opened ≤ l.closed then 1 else 0 := by
  intro w
  have A : Accounts w := calls_accounts cs (accounts_start hn hops hheap) hcs
  refine ⟨?_, ?_, ?_, ?_⟩
  · intro name
    exact nameCountsRight_iff A.consistent A.used
  · intro adr
    exact adrCountsRight_iff A.consistent A.used
  · intro m o l ho hl
    exact (A.count ho hl).1
  · intro adr l hl
    -- still registered, or freed by the last close
    rcases A.lives adr l hl with ⟨m, o, ho, -, hcount, hfreed⟩ | ⟨-, hle, hfreed⟩
    · have := A.used m o ho
      rw [if_neg (by omega)]
      exact hfreed
    · rw [if_pos hle]
      exact hfreed

/-- A chunk is allocated by name and freed. -/
theorem objects_freed_once_chunk :
    let w := (World.start (rtRegistryAlloc 103) fun _ => none).calls
      [.malloc 2 (some 4096), .free 4096 []]
    (∀ name, NameCountsRight w.reg name ↔ MayDropName w.reg name) ∧
    (∀ adr, AdrCountsRight w.reg adr ↔ MayDropAdr w.reg adr) ∧
    (∀ m o l, Has w.reg m o → w.life o.adr = some l → o.count + l.closed = l.opened) ∧
    ∀ adr l, w.life adr = some l → l.freed = if l.opened ≤ l.closed then 1 else 0 := by
  have hno : ∀ m o, ¬ Has (rtRegistryAlloc 103) m o := fun _ _ =>
    not_registered_cleared
  refine objects_freed_once (by decide) [] trivial (fun _ => none)
    (fun m o h => absurd h (hno m o)) [.malloc 2 (some 4096), .free 4096 []]
    ⟨⟨?_, Nat.lt_succ_self 1, fun o h => absurd h (hno 2 o)⟩,
      ⟨fun adr h => (nomatch h), Or.inl ⟨2, _, ⟨3, ⟨?_, ?_, ?_⟩, rfl⟩, ?_⟩⟩,
      trivial⟩
  · rintro adr h
    obtain rfl := Option.some.inj h
    exact ⟨by decide, rfl⟩
  · exact ⟨by decide, by decide⟩
  · decide
  · decide
  · decide

/-- **AN ADDRESS THAT IS NOT REGISTERED IS FREED AGAIN**: `rt_get_name` finds no
    name, and the search for the name 0 ends at an empty slot, which holds it.
    The references that are left there are none. -/
theorem chunk_freed_twice : ¬ NameCountsRight (rtRegistryAlloc 103) 0 ∧
      ((World.start (rtRegistryAlloc 103) fun _ => none).calls
        [.malloc 2 (some 4096), .free 4096 [], .free 4096 []]).life 4096 = some ⟨1, 2, 2⟩ := by
  refine ⟨?_, by decide⟩
  rintro ⟨-, hno⟩
  have hlt := (hno ?_).1
  · exact absurd hlt (by decide)
  · rintro m o ⟨k, ⟨-, hm, -⟩, -⟩ rfl
    exact absurd hm (Nat.not_lt_zero 1)

end RtaiUseCounts
