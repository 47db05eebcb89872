import Mathlib

/-! # sys.c: calling a service with user buffers

    The `type` of a service tells which of its arguments are buffers and which
    are their sizes.  `lxrt_fun_call_wbuf` calls the service on two buffers of
    the task in place of the user's: `msg_buf[0]` for the first read and the
    first write buffer, `msg_buf[1]` for the second ones.  `second` is the
    index. -/

namespace RtaiWbufCall

/-- A value of type `int`. -/
def toInt (x : Int) : Int := x.bmod (2 ^ 32)

/-! ## The type of a service -/

/-- The fields of the word of a service. -/
def UW1 (bf sz : Nat) : Nat := ((bf &&& 0x7) <<< 19) ||| ((sz &&& 0x7) <<< 22)
def UW2 (bf sz : Nat) : Nat := ((bf &&& 0x7) <<< 25) ||| ((sz &&& 0x7) <<< 28)
def UR1 (bf sz : Nat) : Nat := ((bf &&& 0x7) <<< 3) ||| ((sz &&& 0x7) <<< 6)
def UR2 (bf sz : Nat) : Nat := ((bf &&& 0x7) <<< 9) ||| ((sz &&& 0x7) <<< 12)

/-- A field that is not empty. -/
def NEED_TO_W (x : Nat) : Bool := x &&& (0x3F <<< 19) ≠ 0
def NEED_TO_W2ND (x : Nat) : Bool := x &&& (0x3F <<< 25) ≠ 0
def NEED_TO_R (x : Nat) : Bool := x &&& (0x3F <<< 3) ≠ 0
def NEED_TO_R2ND (x : Nat) : Bool := x &&& (0x3F <<< 9) ≠ 0

/-- The fields, read back. -/
def USP_WBF1 (x : Nat) : Nat := (x >>> 19) &&& 0x7
def USP_WSZ1 (x : Nat) : Nat := (x >>> 22) &&& 0x7
def USP_WBF2 (x : Nat) : Nat := (x >>> 25) &&& 0x7
def USP_WSZ2 (x : Nat) : Nat := (x >>> 28) &&& 0x7
def USP_RBF1 (x : Nat) : Nat := (x >>> 3) &&& 0x7
def USP_RSZ1 (x : Nat) : Nat := (x >>> 6) &&& 0x7
def USP_RBF2 (x : Nat) : Nat := (x >>> 9) &&& 0x7
def USP_RSZ2 (x : Nat) : Nat := (x >>> 12) &&& 0x7

/-- A buffer: the positions of its address and of its size among the arguments,
    which are counted from 1; without a size it is a `long`. -/
structure Desc where
  bf : Nat
  sz : Nat
  bf_pos : 0 < bf
  bf_lt : bf < 8
  sz_lt : sz < 8

/-- An entry of a table of services.  There is no second buffer without a first
    one, and a written buffer is an argument of its own. -/
structure EntryType where
  rtSwitch : Bool
  reads : Bool → Option Desc
  writes : Bool → Option Desc
  reads_first : (reads true).isSome → (reads false).isSome
  writes_first : (writes true).isSome → (writes false).isSome
  writes_apart : ∀ d ∈ writes false, ∀ d' ∈ writes true, d.bf ≠ d'.bf
  apart : ∀ s s', ∀ d ∈ reads s, ∀ d' ∈ writes s', d.bf ≠ d'.bf
  reads_apart : ∀ d ∈ reads false, ∀ d' ∈ reads true, d.bf ≠ d'.bf

/-- The word of a service. -/
def EntryType.encode (e : EntryType) : Nat :=
  (if e.rtSwitch then 1 else 0) ||| ((e.reads false).elim 0 fun d => UR1 d.bf d.sz) |||
    ((e.reads true).elim 0 fun d => UR2 d.bf d.sz) |||
    ((e.writes false).elim 0 fun d => UW1 d.bf d.sz) |||
    ((e.writes true).elim 0 fun d => UW2 d.bf d.sz)

/-! ## Memory and services -/

/-- An argument: what the user has passed, or the address of a buffer of the
    task. -/
inductive Arg where
  | long (v : Int)
  | msgBuf (second : Bool)
  deriving DecidableEq

/-- The user's memory, and `msg_buf` and `max_msg_size` of the task. -/
structure Mem where
  user : Int → UInt8
  data : Bool → Nat → UInt8
  size : Bool → Int

/-- There is nothing at address 0. -/
def Mem.load (m : Mem) (a : Arg) (off : Nat) : UInt8 :=
  match a with
  | .long v => if v = 0 then 0 else m.user (v + off)
  | .msgBuf s => m.data s off

/-- A byte is stored through an argument. -/
def Mem.store (m : Mem) (a : Arg) (off : Nat) (b : UInt8) : Mem :=
  match a with
  | .long v =>
    if v = 0 then m else { m with user := Function.update m.user (v + off) b }
  | .msgBuf s =>
    { m with data :=
        Function.update m.data s (Function.update (m.data s) off b) }

/-- What a service does with its buffers, byte by byte, and what it returns. -/
inductive Service where
  | ret (v : Int)
  | read (second : Bool) (off : Nat) (next : UInt8 → Service)
  | write (second : Bool) (off : Nat) (b : UInt8) (next : Service)

/-- The buffers that a service declares, by position and size. -/
structure Decl where
  reads : Bool → Option (Nat × Int)
  writes : Bool → Option (Nat × Int)

/-- Whether a byte is in a buffer, and in which argument. -/
def inBuf (bufs : Bool → Option (Nat × Int)) (second : Bool) (off : Nat) :
    Option Nat :=
  match bufs second with
  | some (bf, size) => if off < size then some bf else none
  | none => none

/-- A service runs.  It has no other access than to the bytes of its buffers. -/
def run (decl : Decl) (args : Nat → Arg) : Mem → Service → Int × Mem
  | m, .ret v => (v, m)
  | m, .read second off next =>
    match inBuf decl.reads second off with
    | some bf => run decl args m (next (m.load (args bf) off))
    | none => run decl args m (next 0)
  | m, .write second off b next =>
    match inBuf decl.writes second off with
    | some bf => run decl args (m.store (args bf) off b) next
    | none => run decl args m next

/-! ## lxrt_fun_call_wbuf -/

/-- `rsize ? fun_args[rsize] : sizeof(long)` -/
def sizeArg (args : Nat → Int) (sz : Nat) : Int :=
  if sz ≠ 0 then toInt (args sz) else 8

/-- The bytes copied in. -/
def readSize (type : Nat) (args : Nat → Int) : Bool → Int
  | false => if NEED_TO_R type then sizeArg args (USP_RSZ1 type) else 0
  | true =>
    if NEED_TO_R type ∧ NEED_TO_R2ND type then sizeArg args (USP_RSZ2 type)
    else 0

/-- The bytes copied back. -/
def writeSize (type : Nat) (args : Nat → Int) : Bool → Int
  | false => if NEED_TO_W type then sizeArg args (USP_WSZ1 type) else 0
  | true =>
    if NEED_TO_W type ∧ NEED_TO_W2ND type then sizeArg args (USP_WSZ2 type)
    else 0

/-- Which argument is read. -/
def readBuf (type : Nat) : Bool → Nat
  | false => USP_RBF1 type
  | true => USP_RBF2 type

/-- Which argument is written. -/
def writeBuf (type : Nat) : Bool → Nat
  | false => USP_WBF1 type
  | true => USP_WBF2 type

/-- A new buffer where the old one is too small.  One that is too small for the
    message is overrun. -/
def growBuf (rtMalloc : Bool → Int → Option (Nat → UInt8)) (second : Bool)
    (msgSize : Int) (m : Mem) : Option Mem :=
  if msgSize > m.size second then do
    let size := (toInt (msgSize * 2 ^ 7)).tdiv 100
    let data ← rtMalloc second size
    if size < msgSize then none
    else some { m with
      size := Function.update m.size second size
      data := Function.update m.data second data }
  else some m

/-- Before the call, for one of the two buffers.  The address of the user's
    write buffer is kept. -/
def bounceIn (rtMalloc : Bool → Int → Option (Nat → UInt8)) (second : Bool)
    (rsize wsize : Int) (rbf wbf : Nat) (m : Mem) (args : Nat → Arg) :
    Option (Mem × (Nat → Arg) × Arg) :=
  let msgSize := if rsize > wsize then rsize else wsize
  if msgSize > 0 then do
    let m ← growBuf rtMalloc second msgSize m
    let reads : Bool := rsize ≠ 0 ∧ args rbf ≠ .long 0
    let m :=
      if reads then
        { m with data := Function.update m.data second fun i =>
          if i < rsize then m.load (args rbf) i else m.data second i }
      else m
    let args := if reads then Function.update args rbf (.msgBuf second) else args
    if wsize ≠ 0 then
      some (m, Function.update args wbf (.msgBuf second), args wbf)
    else some (m, args, .long 0)
  else some (m, args, .long 0)

/-- `rt_copy_to_user`, which fails for address 0 and for the kernel's. -/
def copyToUser (m : Mem) (adr : Arg) (second : Bool) (size : Int) : Mem :=
  match adr with
  | .long v =>
    if v = 0 then m
    else { m with user := fun a =>
      if v ≤ a ∧ a < v + size then m.data second (a - v).toNat else m.user a }
  | .msgBuf _ => m

/-- `decl` are the buffers that the service knows of. -/
def lxrtFunCallWbuf (rtMalloc : Bool → Int → Option (Nat → UInt8))
    (type : Nat) (args : Nat → Int) (decl : Decl)
    (fn : (Nat → Arg) → Service) (m : Mem) : Option (Int × Mem) := do
  let rsize := readSize type args
  let wsize := writeSize type args
  let (m, funArgs, wmsgAdr) ← bounceIn rtMalloc false (rsize false) (wsize false)
    (readBuf type false) (writeBuf type false) m fun i => .long (args i)
  let (m, funArgs, w2msgAdr) ← bounceIn rtMalloc true (rsize true) (wsize true)
    (readBuf type true) (writeBuf type true) m funArgs
  let (v, m) := run decl funArgs m (fn funArgs)
  if wsize false ≠ 0 then
    let m := copyToUser m wmsgAdr false (wsize false)
    if wsize true ≠ 0 then
      some (v, copyToUser m w2msgAdr true (wsize true))
    else some (v, m)
  else some (v, m)

/-- The same service, called on the user's buffers. -/
def directCall (args : Nat → Int) (decl : Decl) (fn : (Nat → Arg) → Service)
    (m : Mem) : Int × Mem :=
  run decl (fun i => .long (args i)) m (fn fun i => .long (args i))

/-! ## What a call promises -/

/-- The buffers of an entry for given arguments. -/
def EntryType.decl (e : EntryType) (args : Nat → Int) : Decl where
  reads := fun s => (e.reads s).map fun d => (d.bf, sizeArg args d.sz)
  writes := fun s => (e.writes s).map fun d => (d.bf, sizeArg args d.sz)

/-- The same value, and the same memory of the user. -/
def Transparent (rtMalloc : Bool → Int → Option (Nat → UInt8)) (e : EntryType)
    (args : Nat → Int) (fn : (Nat → Arg) → Service) (m : Mem) : Prop :=
  ∃ m', lxrtFunCallWbuf rtMalloc e.encode args (e.decl args) fn m =
      some ((directCall args (e.decl args) fn m).1, m') ∧
    m'.user = (directCall args (e.decl args) fn m).2.user

/-- The sizes are positive, and no byte of a write buffer is in another
    buffer.  Nothing is at `NULL`. -/
structure Apart (decl : Decl) (args : Nat → Int) : Prop where
  reads_pos : ∀ s bf n, decl.reads s = some (bf, n) → 0 < n
  writes_pos : ∀ s bf n, decl.writes s = some (bf, n) → 0 < n
  reads : ∀ s s' bf bf' n n', decl.reads s = some (bf, n) →
    decl.writes s' = some (bf', n') → args bf ≠ 0 → args bf' ≠ 0 →
      ∀ i j : Nat, i < n → j < n' → args bf + i ≠ args bf' + j
  writes : ∀ bf bf' n n', decl.writes false = some (bf, n) →
    decl.writes true = some (bf', n') → args bf ≠ 0 → args bf' ≠ 0 →
      ∀ i j : Nat, i < n → j < n' → args bf + i ≠ args bf' + j

/-- The service uses the addresses of its buffers for nothing but access and a
    test for `NULL`. -/
def ByContent (decl : Decl) (fn : (Nat → Arg) → Service) : Prop :=
  ∀ a a' : Nat → Arg, (∀ i, (∀ s n, decl.reads s ≠ some (i, n)) →
      (∀ s n, decl.writes s ≠ some (i, n)) → a i = a' i) →
    (∀ i, a i = .long 0 ↔ a' i = .long 0) → fn a = fn a'

end RtaiWbufCall
