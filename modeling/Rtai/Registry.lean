import Rtai.Probing

/-! # api.c: the hashed registry

    `lxrt_list` holds two tables in one array: the names, each with what is
    known about its object, and the addresses, linked to each other by slot
    numbers.  Every function is the one of the source with the same name, with
    what it returns; it is taken as one step, so that its `while (1)` goes round
    once.  Slot numbers fit an `unsigned short`. -/

namespace RtaiRegistry

open RtaiProbing

/-- `struct rt_registry_entry`.  Names and pointers are their values, 0 is
    `NULL`. -/
structure Entry where
  name : Nat
  adr : Nat
  tsk : Nat
  type : Int
  count : Nat
  alink : Nat
  nlink : Nat
  deriving DecidableEq

/-- `lxrt_list` -/
abbrev Slots := Nat → Entry

/-- A name that is none. -/
def NONAME : Nat := 1

/-- An address that is none. -/
def NOADR : Nat := 1

/-- The types of the objects. -/
def IS_TASK : Int := 0
def IS_SEM : Int := 1
def IS_RWL : Int := 2
def IS_SPL : Int := 3
def IS_MBX : Int := 4
def IS_PRX : Int := 5
def IS_HPCK : Int := 6

def MAX_NAM2NUM : Nat := 4096000003

/-- The errors. -/
def EFAULT : Int := 14

def EINVAL : Int := 22

/-- The table after `memset(lxrt_list, 0, ...)`. -/
def cleared : Slots := fun _ =>
  { name := 0, adr := 0, tsk := 0, type := 0, count := 0, alink := 0,
    nlink := 0 }

/-- The column of the names. -/
def names (list : Slots) (k : Nat) : Nat := (list k).name

/-- The column of the addresses. -/
def adrs (list : Slots) (k : Nat) : Nat := (list k).adr

/-- `count` is an `unsigned short`. -/
def toCount (n : Nat) : Nat := n % 65536

/-- `list[k].count++` -/
def incCount (list : Slots) (k : Nat) : Slots :=
  Function.update list k { list k with count := toCount ((list k).count + 1) }

/-! ## Insertion -/

/-- `hash_ins_adr`, from where it holds the lock: the slot is the one its
    search has come to. -/
def setAdr (adr : Nat) (list : Slots) (nlink k : Nat) : Slots :=
  let list := Function.update list k { list k with adr := adr, nlink := nlink }
  Function.update list nlink { list nlink with alink := k }

/-- `hash_ins_adr`: the first vacant slot. -/
def hashInsAdr (adr : Nat) (list : Slots) (lstlen nlink : Nat) : Slots × Int :=
  match vacancy lstlen adr (adrs list) with
  | none => (list, 0)
  | some k =>
    if (list k).adr = adr then (list, -k) else (setAdr adr list nlink k, k)

/-- `hash_ins_name`, from where it holds the lock and has found a slot without
    a name. -/
def setName (name : Nat) (type : Int) (lnxtsk : Nat) (list : Slots) (k : Nat) :
    Slots :=
  Function.update list k { list k with
    name := name
    type := type
    tsk := lnxtsk
    count := 1
    alink := 0 }

/-- `hash_ins_name`, and the address with it. -/
def hashInsName (name adr : Nat) (type : Int) (lnxtsk : Nat) (list : Slots)
    (lstlen : Nat) (inc : Bool) : Slots × Int :=
  match vacancy lstlen name (names list) with
  | none => (list, 0)
  | some k =>
    if (list k).name = name then
      (if inc then incCount list k else list, -k)
    else
      let r := hashInsAdr adr (setName name type lnxtsk list k) lstlen k
      (r.1, if r.2 ≤ 0 then 0 else k)

/-! ## Lookup -/

/-- The table, the address, and `*slot`. -/
def hashFindName (name : Nat) (list : Slots) (lstlen : Nat) (inc : Bool) : Slots × Nat × Nat :=
  match lookup lstlen name (names list) with
  | none => (list, 0, 0)
  | some k =>
    if (list k).name = name then
      (if inc then incCount list k else list, (list (list k).alink).adr, k)
    else (list, 0, 0)

/-- `hash_find_adr`. -/
def hashFindAdr (adr : Nat) (list : Slots) (lstlen : Nat) (inc : Bool) : Slots × Nat :=
  match lookup lstlen adr (adrs list) with
  | none => (list, 0)
  | some k =>
    if (list k).adr = adr then
      (if inc then incCount list (list k).nlink else list, (list (list k).nlink).name)
    else (list, 0)

/-! ## Removal -/

/-- `list[k].name = !list[i].name ? 0UL : NONAME`, with `i` the slot after
    `k`. -/
def clearName (list : Slots) (lstlen k : Nat) : Slots :=
  Function.update list k { list k with
    name := vacated lstlen (names list) k }

/-- `list[k].adr = !list[i].adr ? NULL : NOADR`, with `i` the slot after
    `k`. -/
def clearAdr (list : Slots) (lstlen k : Nat) : Slots :=
  Function.update list k { list k with adr := vacated lstlen (adrs list) k }

/-- `--list[k].count` -/
def decCount (list : Slots) (k : Nat) : Slots :=
  Function.update list k { list k with count := (list k).count - 1 }

/-- `dec || !(list[k].count && !--list[k].count)` fails: the entry goes.  The
    count is decremented on the way. -/
def lastRef (list : Slots) (k : Nat) (dec : Int) : Bool :=
  dec = 0 || (list k).count ≠ 0 && (list k).count - 1 = 0

/-- The table when the count has been looked at. -/
def counted (list : Slots) (k : Nat) (dec : Int) : Slots :=
  if dec ≠ 0 ∧ (list k).count ≠ 0 then decCount list k else list

/-- `hash_rem_name`: with the last reference. -/
def hashRemName (name : Nat) (list : Slots) (lstlen : Nat) (dec : Int) : Slots × Int :=
  match lookup lstlen name (names list) with
  | none => (list, 0)
  | some k =>
    if (list k).name = name then
      let goes := lastRef list k dec
      let list := counted list k dec
      let list :=
        if goes then
          let list := clearName list lstlen k
          if (list k).alink ≠ 0 then clearAdr list lstlen (list k).alink
          else list
        else list
      (list, if dec ≠ 0 then (list k).count else k)
    else (list, dec)

/-- `hash_rem_adr`: with the last reference. -/
def hashRemAdr (adr : Nat) (list : Slots) (lstlen : Nat) (dec : Int) : Slots × Int :=
  match lookup lstlen adr (adrs list) with
  | none => (list, 0)
  | some k =>
    if (list k).adr = adr then
      let goes := lastRef list (list k).nlink dec
      let list := counted list (list k).nlink dec
      let list :=
        if goes then
          clearName (clearAdr list lstlen k) lstlen (list k).nlink
        else list
      (list, if dec ≠ 0 then (list (list k).nlink).count else k)
    else (list, dec)

/-! ## The services -/

/-- The registry: `lxrt_list` and `max_slots`. -/
structure Registry where
  lxrtList : Slots
  maxSlots : Nat

variable (reg : Registry)

/-- What a function has made of the table, with what it returns. -/
def Registry.after {α : Type} (r : Slots × α) : Registry × α :=
  ({ reg with lxrtList := r.1 }, r.2)

/-- `registr`. -/
def registr (name adr : Nat) (type : Int) (lnxtsk : Nat) : Registry × Int :=
  let r := hashInsName name adr type lnxtsk reg.lxrtList reg.maxSlots true
  reg.after (r.1, |r.2|)

/-- `get_adr`. -/
def getAdr (name : Nat) : Nat :=
  (hashFindName name reg.lxrtList reg.maxSlots false).2.1

/-- `get_adr_cnt`, which counts a reference. -/
def getAdrCnt (name : Nat) : Registry × Nat :=
  let r := hashFindName name reg.lxrtList reg.maxSlots true
  reg.after (r.1, r.2.1)

/-- `get_type` -/
def getType (name : Nat) : Int :=
  let r := hashFindName name reg.lxrtList reg.maxSlots false
  if r.2.1 ≠ 0 then (reg.lxrtList r.2.2).type else -EINVAL

/-- The names that `get_name` makes up, for the numbers that ten calls of
    `irandu` return. -/
def madeUp (irandu : List Nat) : List Nat :=
  (irandu.take 10).map (MAX_NAM2NUM + ·)

/-- `get_name`, or a new name for no address. -/
def getName (adr : Nat) (irandu : List Nat) : Nat :=
  if adr = 0 then
    ((madeUp irandu).find? fun name => getAdr reg name = 0).getD 0
  else (hashFindAdr adr reg.lxrtList reg.maxSlots false).2

/-- `rt_register` -/
def rtRegister (name adr : Nat) (type : Int) (t : Nat) : Registry × Int :=
  if getAdr reg name ≠ 0 then (reg, 0) else registr reg name adr type t

/-- `rt_drg_on_name`: whatever the count. -/
def rtDrgOnName (name : Nat) : Registry × Int :=
  reg.after (hashRemName name reg.lxrtList reg.maxSlots 0)

/-- `rt_drg_on_adr`: whatever the count. -/
def rtDrgOnAdr (adr : Nat) : Registry × Int :=
  reg.after (hashRemAdr adr reg.lxrtList reg.maxSlots 0)

/-- `rt_drg_on_name_cnt`: one reference. -/
def rtDrgOnNameCnt (name : Nat) : Registry × Int :=
  reg.after (hashRemName name reg.lxrtList reg.maxSlots (-EFAULT))

/-- `rt_drg_on_adr_cnt`: one reference. -/
def rtDrgOnAdrCnt (adr : Nat) : Registry × Int :=
  reg.after (hashRemAdr adr reg.lxrtList reg.maxSlots (-EFAULT))

/-- `is_process_registered`, for the address in `TSKEXT0`. -/
def isProcessRegistered (tskext0 : Nat) : Nat :=
  if tskext0 = 0 then 0
  else (hashFindAdr tskext0 reg.lxrtList reg.maxSlots false).2

/-- `rt_get_registry_slot`: the entry when it is in use. -/
def rtGetRegistrySlot (slot : Nat) : Option Entry :=
  if NONAME < (reg.lxrtList slot).name then
    some { reg.lxrtList slot with
      adr := (reg.lxrtList (reg.lxrtList slot).alink).adr }
  else none

end RtaiRegistry
