import Rtai.MbxCopies
import Rtai.RegistryErrors

/-! # The creation of a named mailbox

    `_rt_typed_named_mbx_init`, `rt_typed_mbx_init` and `rt_mbx_delete` of
    `mbx.c`, with the registry and the memory.  The call gets memory or not, and
    others may have registered something between its look at the registry and
    its registration. -/

namespace RtaiNamedMbx

open RtaiMailbox RtaiMbxCopies RtaiProbing RtaiRegistry RtaiRegistrySlots
open RtaiRegistryMap RtaiRegistryErrors

/-! ## Memory -/

/-- The fields of `MBX`.  `made` is a ghost: the semaphores and the queues of the
    mailbox have been initialised. -/
structure MBX where
  magic : Bool
  made : Bool
  bufadr : Nat
  size : Int
  frbs : Int
  avbs : Int
  fbyte : Int
  lbyte : Int

/-- What a piece of memory is used for. -/
inductive Block where
  | mbx (m : MBX)
  | bytes (l : List UInt8)
  | other

/-- The registry and the memory in use.  The rest are ghosts: the registry before
    and after each of its services, and what the call has got and freed. -/
structure World where
  reg : Registry
  block : Nat → Option Block
  services : List (Registry × Registry)
  allocated : List Nat
  freed : List Nat

namespace World

variable (w : World)

/-- A service of the registry is noted. -/
def service (reg : Registry) : World :=
  { w with reg := reg, services := (w.reg, reg) :: w.services }

/-- A piece of memory changes. -/
def set (adr : Nat) (b : Option Block) : World :=
  { w with block := Function.update w.block adr b }

/-- `rt_malloc`, when it returns `adr`. -/
def rtMalloc (adr : Nat) (b : Block) : World :=
  { w.set adr (some b) with allocated := adr :: w.allocated }

/-- `rt_free`.  Nothing is at `NULL`. -/
def rtFree (adr : Nat) : World :=
  if adr = 0 then w else { w.set adr none with freed := adr :: w.freed }

end World

def ENOMEM : Int := 12

/-! ## The functions -/

/-- What `rt_typed_mbx_init` writes. -/
def MBX.ready (bufadr : Nat) (size : Int) : MBX :=
  { magic := true, made := true, bufadr := bufadr, size := size, frbs := size,
    avbs := 0, fbyte := 0, lbyte := 0 }

/-- `rt_typed_mbx_init`, for what is at `mbx`. -/
def rtTypedMbxInit (w : World) (mbx : Nat) (m : MBX) (size : Int)
    (buf : Option (Nat × List UInt8)) : World × Int :=
  match buf with
  | none => (w.set mbx (some (.mbx { m with bufadr := 0 })), -ENOMEM)
  | some (bufadr, l) =>
    ((w.rtMalloc bufadr (.bytes l)).set mbx (some (.mbx (.ready bufadr size))), 0)

/-- `rt_mbx_delete`, of a mailbox that nobody knows.  `none` if it has its magic
    number by chance: then it goes on with semaphores and queues that have not
    been initialised. -/
def rtMbxDelete (w : World) (mbx : Nat) : Option (World × Int) :=
  match w.block mbx with
  | some (.mbx m) =>
    if m.magic = false then some (w, -EINVAL)
    else if m.made = false then none
    else some ((w.set mbx (some (.mbx { m with magic := false }))).rtFree m.bufadr, 0)
  | _ => none

/-- What a call meets: what `rt_malloc` returns, with what is in the memory, and
    what the others have made of the registry when the mailbox is registered. -/
structure Supply where
  mbx : Option (Nat × MBX)
  buf : Option (Nat × List UInt8)
  others : Registry

/-- `_rt_typed_named_mbx_init` -/
def rtTypedNamedMbxInit (w : World) (c : Supply) (name : Nat) (size : Int) :
    Option (World × Nat) :=
  let r := getAdrCnt w.reg name
  let w := w.service r.1
  if r.2 ≠ 0 then some (w, r.2)
  else
    match c.mbx with
    | none => some (w.rtFree 0, 0)
    | some (mbx, m) =>
      let w := (rtTypedMbxInit (w.rtMalloc mbx (.mbx m)) mbx m size c.buf).1
      let w := { w with reg := c.others }
      let q := rtRegister w.reg name mbx IS_MBX 0
      let w := w.service q.1
      if q.2 ≠ 0 then some (w, mbx)
      else (rtMbxDelete w mbx).map fun r => (r.1.rtFree mbx, 0)

/-! ## All or nothing -/

/-- The registry and the memory before a call. -/
structure State where
  reg : Registry
  block : Nat → Option Block
  consistent : Consistent reg.lxrtList reg.maxSlots

/-- The world before the call. -/
def State.world (s : State) : World := ⟨s.reg, s.block, [], [], []⟩

/-- **WHAT A CALL CAN MEET**: memory that is returned was free, the buffer has the
    bytes asked for, and the others keep the registry together. -/
structure Offer (s : State) (size : Int) extends Supply where
  mbx_free : ∀ a m, mbx = some (a, m) → NOADR < a ∧ s.block a = none ∧ m.made = false
  buf_free : ∀ b l, buf = some (b, l) → 0 < b ∧ s.block b = none ∧
    (1 ≤ size → (l.length : Int) = size)
  apart : ∀ a m b l, mbx = some (a, m) → buf = some (b, l) → a ≠ b
  consistent : Consistent others.lxrtList others.maxSlots

/-- The mailbox with the bytes of its buffer. -/
def MBX.ring (m : MBX) (bytes : List UInt8) : Mbx Unit :=
  { size := m.size, bufadr := bytes, frbs := m.frbs, avbs := m.avbs,
    fbyte := m.fbyte, lbyte := m.lbyte, sem := fun _ => none, waitingTask := none,
    pollq := fun _ => [] }

/-- A mailbox of `size` bytes that can be used. -/
def MailboxAt (block : Nat → Option Block) (adr : Nat) (size : Int) : Prop :=
  ∃ m bytes, block adr = some (.mbx m) ∧ m.magic = true ∧ m.made = true ∧
    block m.bufadr = some (.bytes bytes) ∧ m.size = size ∧ RingOk (m.ring bytes)

/-- **ALL OR NOTHING**: `NULL`, the registry as it was and all that has been
    allocated freed once, and nothing else; or a mailbox that is registered and
    can be used. -/
def AllOrNothing (s : State) (name : Nat) (size : Int) (r : World × Nat) : Prop :=
  (r.2 = 0 ∧ (∀ p ∈ r.1.services, p.2 = p.1) ∧ r.1.freed.Perm r.1.allocated ∧
      r.1.block = s.block) ∨
    (r.2 ≠ 0 ∧ (∃ o, Has r.1.reg name o ∧ o.adr = r.2) ∧ MailboxAt r.1.block r.2 size)

/-! ## The registry -/

/-- The search for the name ends at no slot that holds it: only the numbers that
    mark empty slots are found in them. -/
def Misses (reg : Registry) (name : Nat) : Prop :=
  ∀ k, lookup reg.maxSlots name (names reg.lxrtList) = some k → (reg.lxrtList k).name ≠ name

/-- The name is taken, or there is no slot for it. -/
def Refused (reg : Registry) (name : Nat) : Prop :=
  getAdr reg name ≠ 0 ∨ Full reg

section Registry

variable {reg : Registry} {name adr : Nat} {type : Int} {t : Nat}

/-- A name that is looked up and known. -/
theorem getAdrCnt_known (C : Consistent reg.lxrtList reg.maxSlots)
    (hname : NONAME < name) (h : getAdr reg name ≠ 0) :
    ∃ o, Has (getAdrCnt reg name).1 name o ∧ o.adr = getAdr reg name := by
  rcases registered_or_unknown reg.lxrtList reg.maxSlots hname with
    ⟨k, hk⟩ | hunk
  · have hcnt : (getAdrCnt reg name).1 =
        { reg with lxrtList := incCount reg.lxrtList k } := by
      unfold getAdrCnt
      rw [hashFindName_registered C hk]
      rfl
    have hadr : getAdr reg name = (objectAt reg.lxrtList k).adr := by
      unfold getAdr
      rw [hashFindName_registered C hk]
    have hfields : ∀ x, (incCount reg.lxrtList k x).name = (reg.lxrtList x).name ∧
        (incCount reg.lxrtList k x).adr = (reg.lxrtList x).adr ∧
        (incCount reg.lxrtList k x).alink = (reg.lxrtList x).alink := by
      intro x
      unfold incCount
      by_cases hx : x = k
      · rw [hx, Function.update_self]
        exact ⟨rfl, rfl, rfl⟩
      · rw [Function.update_of_ne hx]
        exact ⟨rfl, rfl, rfl⟩
    rw [hcnt, hadr]
    refine ⟨_, ⟨k, ⟨hk.1, hname, (hfields k).1.trans hk.2.2⟩, rfl⟩, ?_⟩
    show (incCount reg.lxrtList k (incCount reg.lxrtList k k).alink).adr = _
    rw [(hfields k).2.2, (hfields _).2.1]
    rfl
  · exact absurd (getAdr_unknown C hunk) h

/-- A lookup that finds nothing. -/
theorem getAdrCnt_same : (getAdrCnt reg name).1 = reg ↔ Misses reg name := by
  unfold Misses getAdrCnt hashFindName Registry.after
  cases lookup reg.maxSlots name (names reg.lxrtList) with
  | none => exact iff_of_true rfl fun k hk => nomatch hk
  | some k =>
    dsimp only
    by_cases hk : (reg.lxrtList k).name = name
    · rw [if_pos hk]
      refine iff_of_false (fun heq => ?_) fun h => h k rfl hk
      have hlist : incCount reg.lxrtList k = reg.lxrtList :=
        congrArg Registry.lxrtList heq
      have hcount := congrArg Entry.count (congrFun hlist k)
      unfold incCount toCount at hcount
      rw [Function.update_self] at hcount
      dsimp only at hcount
      omega
    · rw [if_neg hk]
      refine iff_of_true rfl fun k' hk' => ?_
      obtain rfl := Option.some.inj hk'
      exact hk

/-- **WHAT A REGISTRATION DOES**: it is refused, or writes the name and fails, or
    it does not fail, and then a proper name stands for the address. -/
theorem rtRegister_cases (C : Consistent reg.lxrtList reg.maxSlots) :
    (Refused reg name ∧ rtRegister reg name adr type t = (reg, 0)) ∨ ¬Refused reg name ∧
        ((Stands reg.maxSlots adr (adrs reg.lxrtList) ∧
            (rtRegister reg name adr type t).2 = 0 ∧
            (rtRegister reg name adr type t).1 ≠ reg) ∨
          (rtRegister reg name adr type t).2 ≠ 0 ∧ (NONAME < name →
            ¬Stands reg.maxSlots adr (adrs reg.lxrtList) ∧
              ∃ o, Has (rtRegister reg name adr type t).1 name o ∧ o.adr = adr)) := by
  by_cases h0 : getAdr reg name = 0
  · have hreg : rtRegister reg name adr type t =
        reg.after ((hashInsName name adr type t reg.lxrtList reg.maxSlots true).1,
          |(hashInsName name adr type t reg.lxrtList reg.maxSlots true).2|) := by
      unfold rtRegister registr
      rw [if_neg (not_not.mpr h0)]
    have hfree : ∀ k, vacancy reg.maxSlots name (names reg.lxrtList) = some k →
        ¬Refused reg name := by
      rintro k hk (h | h)
      · exact h h0
      · rw [full_getAdr C h h0] at hk
        exact nomatch hk
    rcases @hashInsName_cases reg.lxrtList reg.maxSlots name adr type t C with
      ⟨hins, hfull, -⟩ | ⟨k, hk, hs, ⟨hins, hname⟩ |
        ⟨hins, hname, -, hstands⟩ | ⟨j, hins, hname, -, hstands⟩⟩
    · left
      refine ⟨.inr hfull, ?_⟩
      rw [hreg, hins]
      rfl
    · -- only a number that marks an empty slot is found there
      right
      refine ⟨hfree k hs, .inr ⟨?_, fun hproper => ?_⟩⟩
      · rw [hreg, hins]
        have hpos := hk.1
        show |(-(k : Int))| ≠ 0
        rw [abs_ne_zero]
        omega
      · exact absurd h0 (getAdr_named C ⟨hk, hproper, hname⟩)
    · right
      refine ⟨hfree k hs, .inl ⟨hstands, ?_, ?_⟩⟩
      · rw [hreg, hins]
        rfl
      · rw [hreg, hins]
        intro heq
        exact setName_ne hname (congrArg Registry.lxrtList heq)
    · right
      refine ⟨hfree k hs, .inr ⟨?_, fun hproper => ⟨hstands, ?_⟩⟩⟩
      · rw [hreg, hins]
        have hpos := hk.1
        show |(k : Int)| ≠ 0
        rw [abs_ne_zero]
        omega
      · obtain ⟨hk1, -, hk3, -⟩ :=
          @registered_fields reg.lxrtList k j name adr type t k
        obtain ⟨-, hj2, -⟩ := @registered_fields reg.lxrtList k j name adr type t j
        rw [if_pos rfl] at hk1 hk3 hj2
        rw [hreg, hins]
        refine ⟨_, ⟨k, ⟨hk, hproper, hk1⟩, rfl⟩, ?_⟩
        show (setAdr adr _ k j (setAdr adr _ k j k).alink).adr = adr
        rw [hk3, hj2]
  · left
    refine ⟨.inl h0, ?_⟩
    unfold rtRegister
    rw [if_pos h0]

end Registry

/-! ## When the creation is all or nothing -/

/-- Either the name is known, and stands for a mailbox of that size; or nothing is
    made: there is no memory for the mailbox, or the name is refused, and then, if
    there is no buffer, the mailbox has no magic number by chance; or the mailbox
    has a buffer, and the name and the address have their slots. -/
def Clean (s : State) (c : Supply) (name : Nat) (size : Int) : Prop :=
  if getAdr s.reg name ≠ 0 then
    NONAME < name ∧ MailboxAt s.block (getAdr s.reg name) size
  else
    match c.mbx with
    | none => Misses s.reg name
    | some (mbx, m) =>
      (Misses s.reg name ∧ Refused c.others name ∧ (c.buf = none → m.magic = false)) ∨
        (¬Refused c.others name ∧ NONAME < name ∧
          ¬Stands c.others.maxSlots mbx (adrs c.others.lxrtList) ∧
          c.buf ≠ none ∧ 1 ≤ size)

section Creation

variable {s : State} {size : Int} {name : Nat}

/-- A call that finds the name. -/
theorem known_iff (h : getAdr s.reg name ≠ 0) : AllOrNothing s name size
        (s.world.service (getAdrCnt s.reg name).1, getAdr s.reg name) ↔
      NONAME < name ∧ MailboxAt s.block (getAdr s.reg name) size := by
  constructor
  · rintro (⟨h0, -⟩ | ⟨-, ⟨o, ⟨k, hk, -⟩, -⟩, hmbx⟩)
    · exact absurd h0 h
    · exact ⟨hk.2.1, hmbx⟩
  · rintro ⟨hname, hmbx⟩
    exact .inr ⟨h, getAdrCnt_known s.consistent hname h, hmbx⟩

/-- A call that gets no memory for the mailbox. -/
theorem noMemory_iff : AllOrNothing s name size
        ((s.world.service (getAdrCnt s.reg name).1).rtFree 0, 0) ↔
      Misses s.reg name := by
  rw [← getAdrCnt_same]
  constructor
  · rintro (⟨-, hsame, -⟩ | ⟨hne, -⟩)
    · exact hsame _ List.mem_cons_self
    · exact absurd rfl hne
  · intro hsame
    refine .inl ⟨rfl, ?_, .nil, rfl⟩
    intro p hp
    rw [List.mem_singleton.mp hp]
    exact hsame

variable (c : Offer s size) {mbx : Nat} {m : MBX}

/-- The world when the mailbox is registered. -/
def reached (c : Supply) (s : State) (name mbx : Nat) (m : MBX) (size : Int) : World :=
  let w := (s.world.service (getAdrCnt s.reg name).1).rtMalloc mbx (.mbx m)
  { (rtTypedMbxInit w mbx m size c.buf).1 with reg := c.others }

theorem reached_none (hbuf : c.buf = none) : reached c.toSupply s name mbx m size =
      ⟨c.others, Function.update (Function.update s.block mbx (some (.mbx m))) mbx
        (some (.mbx { m with bufadr := 0 })),
        [(s.reg, (getAdrCnt s.reg name).1)], [mbx], []⟩ := by
  unfold reached rtTypedMbxInit
  rw [hbuf]
  rfl

theorem reached_some {bufadr : Nat} {l : List UInt8} (hbuf : c.buf = some (bufadr, l)) :
    reached c.toSupply s name mbx m size =
      ⟨c.others, Function.update (Function.update (Function.update s.block mbx
          (some (.mbx m))) bufadr (some (.bytes l))) mbx
          (some (.mbx (.ready bufadr size))),
        [(s.reg, (getAdrCnt s.reg name).1)], [bufadr, mbx], []⟩ := by
  unfold reached rtTypedMbxInit
  rw [hbuf]
  rfl

theorem reached_services : (reached c.toSupply s name mbx m size).services =
      [(s.reg, (getAdrCnt s.reg name).1)] := by
  cases hbuf : c.buf with
  | none => rw [reached_none c hbuf]
  | some b => rw [reached_some c hbuf]

/-- A mailbox that has got its buffer can be used. -/
theorem mailbox_made (hm : c.mbx = some (mbx, m)) (hsize : 1 ≤ size) (hbuf : c.buf ≠ none) :
    MailboxAt (reached c.toSupply s name mbx m size).block mbx size := by
  cases hb : c.buf with
  | none => exact absurd hb hbuf
  | some b =>
    obtain ⟨bufadr, l⟩ := b
    have hne := c.apart _ _ _ _ hm hb
    have hlen := (c.buf_free _ _ hb).2.2 hsize
    rw [reached_some c hb]
    refine ⟨.ready bufadr size, l, Function.update_self _ _ _, rfl, rfl, ?_, rfl, ?_⟩
    · show Function.update (Function.update _ _ _) mbx _ bufadr = _
      rw [Function.update_of_ne hne.symm]
      exact Function.update_self _ _ _
    · exact ⟨hsize, hlen, Int.zero_add _, le_rfl, Int.le_trans Int.one_nonneg hsize,
        ⟨le_rfl, hsize⟩, ⟨le_rfl, hsize⟩, (Int.zero_emod size).symm⟩

/-- A mailbox that has got none, or one for no byte, cannot. -/
theorem mailbox_not_made (hm : c.mbx = some (mbx, m))
    (h : MailboxAt (reached c.toSupply s name mbx m size).block mbx size) :
    c.buf ≠ none ∧ 1 ≤ size := by
  obtain ⟨m', bytes, hat, -, hmade, -, hsize, hring⟩ := h
  have hpos := hring.size
  refine ⟨fun hbuf => ?_, hsize ▸ hpos⟩
  rw [reached_none c hbuf] at hat
  dsimp only at hat
  rw [Function.update_self] at hat
  obtain rfl := Block.mbx.inj (Option.some.inj hat)
  exact absurd ((c.mbx_free _ _ hm).2.2.symm.trans hmade) Bool.false_ne_true

/-- A mailbox without a buffer that has its magic number is deleted. -/
theorem wild_delete (hm : c.mbx = some (mbx, m)) (reg : Registry)
    (hbuf : c.buf = none) (hmagic : m.magic = true) :
    rtMbxDelete ((reached c.toSupply s name mbx m size).service reg) mbx = none := by
  have hnot := (c.mbx_free _ _ hm).2.2
  rw [reached_none c hbuf]
  unfold rtMbxDelete World.service
  dsimp only
  rw [Function.update_self]
  dsimp only
  rw [hmagic, hnot, if_neg Bool.true_eq_false.mp, if_pos rfl]

theorem rtFree_services (w : World) (adr : Nat) : (w.rtFree adr).services = w.services := by
  unfold World.rtFree
  split <;> rfl

theorem rtMbxDelete_services {w : World} {r : World × Int}
    (h : rtMbxDelete w mbx = some r) : r.1.services = w.services := by
  unfold rtMbxDelete at h
  split at h
  · split at h
    · obtain rfl := Option.some.inj h
      rfl
    · split at h
      · exact nomatch h
      · obtain rfl := Option.some.inj h
        exact rtFree_services _ _
  · exact nomatch h

/-- What is deleted and freed, when the name is refused. -/
theorem given_back (hm : c.mbx = some (mbx, m)) (reg : Registry)
    (h : c.buf = none → m.magic = false) :
    ∃ r, rtMbxDelete ((reached c.toSupply s name mbx m size).service reg) mbx = some r ∧
      (r.1.rtFree mbx).block = s.block ∧
      (r.1.rtFree mbx).freed.Perm (r.1.rtFree mbx).allocated := by
  obtain ⟨hlt, hfree, -⟩ := c.mbx_free _ _ hm
  have hmbx0 : mbx ≠ 0 := by
    rintro rfl
    exact Nat.not_lt_zero _ hlt
  cases hb : c.buf with
  | none =>
    rw [reached_none c hb]
    generalize hw : World.service _ reg = w
    have hat : w.block mbx = some (.mbx { m with bufadr := 0 }) := by
      rw [← hw]
      exact Function.update_self _ _ _
    have hdel : rtMbxDelete w mbx = some (w, -EINVAL) := by
      unfold rtMbxDelete
      rw [hat]
      exact if_pos (h hb)
    refine ⟨_, hdel, ?_⟩
    unfold World.rtFree
    rw [if_neg hmbx0, ← hw]
    refine ⟨?_, .refl _⟩
    show Function.update (Function.update (Function.update s.block mbx _) mbx _) mbx
      none = s.block
    rw [Function.update_idem, Function.update_idem, ← hfree, Function.update_eq_self]
  | some b =>
    obtain ⟨bufadr, l⟩ := b
    obtain ⟨hpos, hfree', -⟩ := c.buf_free _ _ hb
    have hne := c.apart _ _ _ _ hm hb
    rw [reached_some c hb]
    generalize hw : World.service _ reg = w
    have hat : w.block mbx = some (.mbx (.ready bufadr size)) := by
      rw [← hw]
      exact Function.update_self _ _ _
    have hdel : rtMbxDelete w mbx = some ((w.set mbx (some (.mbx
        { MBX.ready bufadr size with magic := false }))).rtFree bufadr, 0) := by
      unfold rtMbxDelete
      rw [hat]
      rfl
    refine ⟨_, hdel, ?_⟩
    unfold World.rtFree
    rw [if_neg hmbx0, if_neg (Nat.pos_iff_ne_zero.mp hpos), ← hw]
    refine ⟨?_, .swap _ _ _⟩
    show Function.update (Function.update (Function.update (Function.update
      (Function.update (Function.update s.block mbx _) bufadr _) mbx _) mbx _) bufadr
        none) mbx none = s.block
    funext x
    by_cases hx : x = mbx
    · rw [hx, Function.update_self, hfree]
    · by_cases hx' : x = bufadr
      · rw [hx', Function.update_of_ne hne.symm, Function.update_self, hfree']
      · simp only [Function.update_of_ne hx, Function.update_of_ne hx']

/-- A call that gets memory for the mailbox, and finds the name unknown. -/
theorem call_unknown (h0 : getAdr s.reg name = 0) (hm : c.mbx = some (mbx, m)) :
    rtTypedNamedMbxInit s.world c.toSupply name size =
      let q := rtRegister c.others name mbx IS_MBX 0
      let w := (reached c.toSupply s name mbx m size).service q.1
      if q.2 ≠ 0 then some (w, mbx)
      else (rtMbxDelete w mbx).map fun r => (r.1.rtFree mbx, 0) := by
  unfold rtTypedNamedMbxInit
  dsimp only
  rw [getAdrCnt_adr, if_neg (show ¬getAdr s.world.reg name ≠ 0 from not_not.mpr h0), hm]
  rfl

end Creation

/-- **THE CREATION IS ALL OR NOTHING** if and only if what the call meets is
    clean. -/
theorem creation_iff (s : State) (size : Int) (c : Offer s size) (name : Nat) :
    (∃ r, rtTypedNamedMbxInit s.world c.toSupply name size = some r ∧
      AllOrNothing s name size r) ↔ Clean s c.toSupply name size := by
  have hret : ∀ r, (∃ r', some r = some r' ∧ AllOrNothing s name size r') ↔
      AllOrNothing s name size r := by
    intro r
    constructor
    · rintro ⟨r', heq, h⟩
      obtain rfl := Option.some.inj heq
      exact h
    · exact fun h => ⟨r, rfl, h⟩
  unfold Clean
  by_cases h0 : getAdr s.reg name = 0
  · rw [if_neg (not_not.mpr h0)]
    cases hm : c.mbx with
    | none =>
      have hcall : rtTypedNamedMbxInit s.world c.toSupply name size =
          some ((s.world.service (getAdrCnt s.reg name).1).rtFree 0, 0) := by
        unfold rtTypedNamedMbxInit
        dsimp only
        rw [getAdrCnt_adr, if_neg (show ¬getAdr s.world.reg name ≠ 0 from not_not.mpr h0), hm]
        rfl
      rw [hcall, hret]
      exact noMemory_iff
    | some a =>
      obtain ⟨mbx, m⟩ := a
      have hmbx0 : mbx ≠ 0 := by
        have hlt := (c.mbx_free _ _ hm).1
        rintro rfl
        exact Nat.not_lt_zero _ hlt
      have hbase := @reached_services s size name c mbx m
      rw [call_unknown c h0 hm]
      dsimp only
      rcases @rtRegister_cases c.others name mbx IS_MBX 0 c.consistent with
        ⟨hrefused, hq⟩ | ⟨hroom, ⟨hstands, hq0, hq1⟩ | ⟨hq, hhas⟩⟩
      · -- the name is refused, and all is given back
        rw [hq, if_neg (not_not.mpr rfl), ← getAdrCnt_same]
        have hservices : ∀ r, rtMbxDelete
            ((reached c.toSupply s name mbx m size).service c.others) mbx = some r →
            (r.1.rtFree mbx).services =
              [(c.others, c.others), (s.reg, (getAdrCnt s.reg name).1)] := by
          intro r hdel
          rw [rtFree_services, rtMbxDelete_services hdel]
          exact congrArg ((c.others, c.others) :: ·) hbase
        constructor
        · rintro ⟨r, hr, hall⟩
          obtain ⟨r', hdel, rfl⟩ := Option.map_eq_some_iff.mp hr
          rcases hall with ⟨-, hsame, -⟩ | ⟨hne, -⟩
          · rw [hservices r' hdel] at hsame
            refine .inl ⟨hsame _ (List.mem_cons_of_mem _ List.mem_cons_self),
              hrefused, fun hbuf => ?_⟩
            cases hmagic : m.magic with
            | false => rfl
            | true =>
              rw [wild_delete c hm c.others hbuf hmagic] at hdel
              exact nomatch hdel
          · exact absurd rfl hne
        · rintro (⟨hsame, -, hmagic⟩ | ⟨hroom, -⟩)
          · obtain ⟨r, hdel, hblock, hperm⟩ :=
              @given_back s size name c mbx m hm c.others hmagic
            refine ⟨_, Option.map_eq_some_iff.mpr ⟨r, hdel, rfl⟩, .inl ⟨rfl, ?_, hperm,
              hblock⟩⟩
            intro p hp
            rw [hservices r hdel] at hp
            rcases List.mem_cons.mp hp with rfl | hp
            · rfl
            · rw [List.mem_singleton.mp hp]
              exact hsame
          · exact absurd hrefused hroom
      · -- the name stays in the table, though nothing is registered
        rw [hq0, if_neg (not_not.mpr rfl)]
        refine iff_of_false ?_ ?_
        · rintro ⟨r, hr, hall⟩
          obtain ⟨r', hdel, rfl⟩ := Option.map_eq_some_iff.mp hr
          rcases hall with ⟨-, hsame, -⟩ | ⟨hne, -⟩
          · rw [rtFree_services, rtMbxDelete_services hdel] at hsame
            exact hq1 (hsame _ List.mem_cons_self)
          · exact absurd rfl hne
        · rintro (⟨-, hrefused, -⟩ | ⟨-, -, hnot, -⟩)
          · exact hroom hrefused
          · exact hnot hstands
      · rw [if_pos hq, hret]
        constructor
        · rintro (⟨hzero, -⟩ | ⟨-, ⟨o, ho, -⟩, hat⟩)
          · exact absurd hzero hmbx0
          · obtain ⟨k, hk, -⟩ := id ho
            exact .inr ⟨hroom, hk.2.1, (hhas hk.2.1).1, mailbox_not_made c hm hat⟩
        · rintro (⟨-, hrefused, -⟩ | ⟨-, hname, -, hbuf, hsize⟩)
          · exact absurd hrefused hroom
          · exact .inr ⟨hmbx0, (hhas hname).2, mailbox_made c hm hsize hbuf⟩
  · rw [if_pos h0]
    have hcall : rtTypedNamedMbxInit s.world c.toSupply name size =
        some (s.world.service (getAdrCnt s.reg name).1, getAdr s.reg name) := by
      unfold rtTypedNamedMbxInit
      dsimp only
      rw [getAdrCnt_adr, if_pos (show getAdr s.world.reg name ≠ 0 from h0)]
      rfl
    rw [hcall, hret]
    exact known_iff h0

/-- A registry of 103 slots without a name, and memory for a mailbox, but not for
    its buffer. -/
def untouched : State :=
  ⟨rtRegistryAlloc 103, fun _ => none, consistent_cleared (by decide)⟩

/-- No memory for the buffer. -/
def noBuffer : Offer untouched 100 where
  mbx := some (4096, ⟨false, false, 0, 0, 0, 0, 0, 0⟩)
  buf := none
  others := rtRegistryAlloc 103
  mbx_free := by
    rintro a m h
    obtain ⟨rfl, rfl⟩ := Prod.mk.inj (Option.some.inj h)
    exact ⟨by decide, rfl, rfl⟩
  buf_free := fun _ _ h => nomatch h
  apart := fun _ _ _ _ _ h => nomatch h
  consistent := consistent_cleared (by decide)

/-- A mailbox without a buffer is registered and returned. -/
theorem registered_without_buffer :
    ∃ w, rtTypedNamedMbxInit untouched.world noBuffer.toSupply 2 100 = some (w, 4096) ∧
      (∃ m, w.block 4096 = some (.mbx m) ∧ m.magic = false ∧ m.bufadr = 0) ∧
      ¬AllOrNothing untouched 2 100 (w, 4096) := by
  have hreg : (rtRegister noBuffer.others 2 4096 IS_MBX 0).2 ≠ 0 := by decide
  have hcall := @call_unknown untouched 100 2 noBuffer 4096 _ (by decide) rfl
  dsimp only at hcall
  rw [if_pos hreg] at hcall
  refine ⟨_, hcall, ?_, ?_⟩
  · rw [reached_none noBuffer rfl]
    exact ⟨⟨false, false, 0, 0, 0, 0, 0, 0⟩, rfl, rfl, rfl⟩
  rintro (⟨hzero, -⟩ | ⟨-, -, hat⟩)
  · exact absurd hzero (by decide)
  · exact absurd rfl (mailbox_not_made noBuffer rfl hat).1

end RtaiNamedMbx
