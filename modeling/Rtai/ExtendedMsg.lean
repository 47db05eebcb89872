import Rtai.MsgEffects
import Rtai.Services

/-! # Extended messages

    An extended message is a short one whose word is the address of a
    `struct mcb_t`: one on the stack of the sender's call, or, for
    `rt_sendx_if`, `task->mcb` of the receiver.  The receiver goes on from
    `rt_receive` to `DO_RCV_MSG`, which reads the block and copies the buffer
    that it points to.  The sections of the short messages are those of the
    kernel; `DO_RCV_MSG` is cut at each of its reads. -/

namespace RtaiExtendedMsg

open RtaiKernel RtaiTaskApi RtaiSched RtaiMsg RtaiSteps RtaiServices
  RtaiMsgEffects

/-- `struct mcb_t` -/
structure Mcb (B : Type) where
  sbuf : B
  sbytes : Int
  rbuf : Option B
  rbytes : Int

/-- `0xFFFFFFFF` as an `int`. -/
def SEND_RCV_BYTES : Int := -1

/-- Where a message control block is. -/
inductive McbAdr (T : Type) where
  /-- On the stack of the task's call. -/
  | stack (t : T)
  /-- `task->mcb` -/
  | own (t : T)

/-- The block is on a stack. -/
def McbAdr.onStack {T : Type} : McbAdr T → Bool
  | .stack _ => true
  | .own _ => false

/-- The addresses of the message control blocks. -/
structure Layout (T : Type) where
  adr : McbAdr T → Word
  mcbAt : Word → Option (McbAdr T)
  mcbAt_adr : ∀ a, mcbAt (adr a) = some a

/-- A send or an rpc, and what its buffer held when it was called. -/
structure Sent (B : Type) where
  /-- Tells the calls apart. -/
  call : Nat
  buf : B
  size : Int
  bytes : Nat → UInt8

/-- Where a receive stands. -/
inductive Stage (T B : Type) where
  /-- In `rt_receive`, `rt_receive_if` or `rt_receive_until`. -/
  | inside
  /-- `mcb->sbytes` -/
  | sbytes (src : T) (mcb : McbAdr T)
  /-- `mcb->sbuf` -/
  | sbuf (src : T) (mcb : McbAdr T) (len : Int)
  /-- In `memcpy`. -/
  | copy (src : T) (mcb : McbAdr T) (buf : B) (len : Nat)
  /-- `!mcb->rbuf && mcb->rbytes == SEND_RCV_BYTES` -/
  | test (src : T) (mcb : McbAdr T)
  /-- `rt_return(task, 0)` -/
  | answer (src : T)

/-- A receive in progress. -/
structure Receive (T B : Type) where
  /-- `msg` is not null. -/
  msg : Bool
  size : Int
  stage : Stage T B
  /-- `*len` -/
  len : Option Int
  /-- What has been stored at `msg`. -/
  stored : List UInt8
  /-- The block on the sender's stack, or its buffer, has been read when the
      call was over. -/
  late : Bool

/-- A receive that has returned a sender. -/
structure Receipt (T B : Type) where
  src : T
  size : Int
  len : Option Int
  stored : List UInt8
  late : Bool
  taken : Option (T × Sent B)

/-- The tasks, their buffers and blocks. -/
structure Xmsg (T S B : Type) where
  kernel : Kernel T S
  buf : B → Nat → UInt8
  /-- The blocks on the stacks of the calls in progress. -/
  mcb : T → Option (Mcb B)
  /-- `task->mcb` -/
  own : T → Mcb B
  receive : T → Option (Receive T B)
  /-- A block that is no more has been read, or a negative number of bytes has
      been copied. -/
  wild : Bool
  /-- The calls so far, and the one of a task that is in progress. -/
  calls : Nat
  sent : T → Option (Sent B)
  /-- Whose message the receive has got. -/
  taken : T → Option (T × Sent B)
  receipts : List (Receipt T B)

/-- The calls and sections. -/
inductive XAction (T S B : Type) where
  | sendx (c dest : T) (msg : B) (size : Int)
  | sendxIf (c dest : T) (msg : B) (size : Int)
  | sendxUntil (c dest : T) (msg : B) (size time : Int)
  | rpcx (c dest : T) (smsg : B) (rmsg : Option B) (ssize rsize : Int)
  | rpcxUntil (c dest : T) (smsg : B) (rmsg : Option B) (ssize rsize time : Int)
  | receivex (c : T) (src : Option T) (msg : Bool) (size : Int)
  | receivexIf (c : T) (src : Option T) (msg : Bool) (size : Int)
  | receivexUntil (c : T) (src : Option T) (msg : Bool) (size time : Int)
  | returnx (c dest : T) (msg : Option (Nat → UInt8)) (size : Int)
  /-- The task comes back from `rt_schedule` in one of these calls. -/
  | goOn (c : T)
  /-- The next part of `DO_RCV_MSG`. -/
  | doRcvMsg (c : T)
  /-- A service that is about no message, or the scheduler. -/
  | sched (a : Action T S)
  /-- Somebody writes a buffer. -/
  | write (b : B) (bytes : Nat → UInt8)

section Model

variable {T S B : Type} [DecidableEq T] [DecidableEq S] [Fintype T] [Fintype S]
  [DecidableEq B] (L : Layout T)

/-! ## Sends -/

/-- `rt_rpc` or `rt_rpc_until` with `m` on the stack. -/
def post (s : Xmsg T S B) (c dest : T) (m : Mcb B) (op : Op T S) : Option (Xmsg T S B) :=
  if (s.receive c).isSome then none
  else do
    let (k, o) ← exec s.kernel (.call c op)
    let g : Sent B := ⟨s.calls, m.sbuf, m.sbytes, s.buf m.sbuf⟩
    if o.isSome then return { s with kernel := k }
    else return { s with
      kernel := k
      mcb := Function.update s.mcb c (some m)
      calls := s.calls + 1
      sent := Function.update s.sent c (some g)
      taken := if accepts s.kernel c dest
        then Function.update s.taken dest (some (c, g)) else s.taken }

/-- `rt_sendx`, which is an `rt_rpc`. -/
def rtSendx (s : Xmsg T S B) (c dest : T) (msg : B) (size : Int) : Option (Xmsg T S B) :=
  post s c dest ⟨msg, size, none, SEND_RCV_BYTES⟩ (.rpc dest (L.adr (.stack c)))

/-- `rt_sendx_until`, which is an `rt_rpc_until`. -/
def rtSendxUntil (s : Xmsg T S B) (c dest : T) (msg : B) (size time : Int) :
    Option (Xmsg T S B) :=
  post s c dest ⟨msg, size, none, SEND_RCV_BYTES⟩ (.rpcUntil dest (L.adr (.stack c)) time)

/-- `rt_rpcx`. -/
def rtRpcx (s : Xmsg T S B) (c dest : T) (smsg : B) (rmsg : Option B)
    (ssize rsize : Int) : Option (Xmsg T S B) :=
  post s c dest ⟨smsg, ssize, rmsg, rsize⟩ (.rpc dest (L.adr (.stack c)))

/-- `rt_rpcx_until`. -/
def rtRpcxUntil (s : Xmsg T S B) (c dest : T) (smsg : B) (rmsg : Option B)
    (ssize rsize time : Int) : Option (Xmsg T S B) :=
  post s c dest ⟨smsg, ssize, rmsg, rsize⟩ (.rpcUntil dest (L.adr (.stack c)) time)

/-- `rt_sendx_if`, with the block of the receiver. -/
def rtSendxIf (s : Xmsg T S B) (c dest : T) (msg : B) (size : Int) : Option (Xmsg T S B) :=
  if (s.receive c).isSome then none
  else do
    let (k, o) ← exec s.kernel (.call c (.sendIf dest (L.adr (.own dest))))
    let g : Sent B := ⟨s.calls, msg, size, s.buf msg⟩
    if s.kernel.magic dest && accepts s.kernel c dest then return { s with
      kernel := k
      own := Function.update s.own dest
        { s.own dest with sbuf := msg, sbytes := size }
      calls := s.calls + 1
      sent := if o.isSome then s.sent else Function.update s.sent c (some g)
      taken := Function.update s.taken dest (some (c, g)) }
    else return { s with kernel := k }

/-! ## Receives -/

/-- A receive begins or ends. -/
def Xmsg.setReceive (s : Xmsg T S B) (c : T) (x : Option (Receive T B)) :
    Xmsg T S B :=
  { s with receive := Function.update s.receive c x }

/-- The receive of the short message has returned, or sleeps. -/
def received (s : Xmsg T S B) (c : T) (x : Receive T B) (r : Outcome T S) :
    Xmsg T S B :=
  let s := { s with kernel := r.1 }
  match r.2 with
  | none => s.setReceive c (some x)
  | some (.received src got) =>
    match L.mcbAt got with
    | none => { s with wild := true }
    | some mcb =>
      s.setReceive c (some { x with
        stage := if x.msg then .sbytes src mcb else .test src mcb })
  | some _ => s.setReceive c none

/-- The message that the receive takes in its first section. -/
def takes (s : Xmsg T S B) (c : T) (src : Option T) : Option (T × Sent B) :=
  match receiveSource s.kernel c src with
  | none => none
  | some t =>
    if hasMessage s.kernel c t then (s.sent t).map (t, ·) else none

/-- A receive, up to its first stop. -/
def receives (s : Xmsg T S B) (c : T) (src : Option T) (msg : Bool)
    (size : Int) (op : Op T S) : Option (Xmsg T S B) :=
  if (s.receive c).isSome then none
  else
    (exec s.kernel (.call c op)).map
      (received L { s with taken := Function.update s.taken c (takes s c src) } c
        ⟨msg, size, .inside, none, [], false⟩)

/-- `rt_receivex`. -/
def rtReceivex (s : Xmsg T S B) (c : T) (src : Option T) (msg : Bool)
    (size : Int) : Option (Xmsg T S B) :=
  receives L s c src msg size (.receive src)

/-- `rt_receivex_if`. -/
def rtReceivexIf (s : Xmsg T S B) (c : T) (src : Option T) (msg : Bool)
    (size : Int) : Option (Xmsg T S B) :=
  receives L s c src msg size (.receiveIf src)

/-- `rt_receivex_until`. -/
def rtReceivexUntil (s : Xmsg T S B) (c : T) (src : Option T) (msg : Bool)
    (size time : Int) : Option (Xmsg T S B) :=
  receives L s c src msg size (.receiveUntil src time)

/-- The block at an address. -/
def readMcb (s : Xmsg T S B) : McbAdr T → Option (Mcb B)
  | .stack t => s.mcb t
  | .own t => some (s.own t)

/-- The call whose message the receiver has got is in progress. -/
def inCall (s : Xmsg T S B) (c : T) : Bool :=
  match s.taken c with
  | none => false
  | some (t, g) =>
    match s.sent t with
    | none => false
    | some g' => g'.call = g.call

/-- The receive returns its sender. -/
def receiptOf (s : Xmsg T S B) (c src : T) (x : Receive T B) : Xmsg T S B :=
  { s.setReceive c none with
    receipts :=
      ⟨src, x.size, x.len, x.stored, x.late, s.taken c⟩ :: s.receipts }

/-- The next part of `DO_RCV_MSG`. -/
def doRcvMsg (s : Xmsg T S B) (c : T) : Option (Xmsg T S B) :=
  if !executes s.kernel c then none
  else
    match s.receive c with
    | none => none
    | some x =>
      let late (mcb : McbAdr T) := x.late || mcb.onStack && !inCall s c
      match x.stage with
      | .inside => none
      | .sbytes src mcb =>
        match readMcb s mcb with
        | none => some { s with wild := true }
        | some m =>
          let len := if x.size ≤ m.sbytes then x.size else m.sbytes
          some (s.setReceive c (some { x with
            len := some len
            late := late mcb
            stage := if len ≠ 0 then .sbuf src mcb len
              else .test src mcb }))
      | .sbuf src mcb len =>
        match readMcb s mcb with
        | none => some { s with wild := true }
        | some m =>
          if len < 0 then some { s with wild := true }
          else some (s.setReceive c (some { x with
            late := late mcb
            stage := .copy src mcb m.sbuf len.toNat }))
      | .copy src mcb b len =>
        if x.stored.length < len then
          some (s.setReceive c (some { x with
            stored := x.stored ++ [s.buf b x.stored.length]
            late := x.late || !inCall s c }))
        else
          some (s.setReceive c (some { x with stage := .test src mcb }))
      | .test src mcb =>
        match readMcb s mcb with
        | none => some { s with wild := true }
        | some m =>
          let x := { x with late := late mcb }
          if m.rbuf.isNone && m.rbytes = SEND_RCV_BYTES then
            some (s.setReceive c (some { x with stage := .answer src }))
          else some (receiptOf s c src x)
      | .answer src =>
        (rtReturn s.kernel c src 0).map fun r =>
          receiptOf { s with kernel := r.1 } c src x

/-! ## Returns -/

/-- `memcpy` of the first `n` bytes. -/
def overwrite (bytes : Nat → UInt8) (n : Nat) (old : Nat → UInt8) (i : Nat) :
    UInt8 :=
  if i < n then bytes i else old i

/-- There is no step when the result would be stored at a null pointer. -/
def rtReturnx (s : Xmsg T S B) (c dest : T) (msg : Option (Nat → UInt8))
    (size : Int) : Option (Xmsg T S B) :=
  if (s.receive c).isSome then none
  else do
    let (k, _) ← exec s.kernel (.call c (.ret dest 0))
    if s.kernel.magic dest && .ret ∈ s.kernel.state dest
        && s.kernel.msgTask dest = .task c then
      match (L.mcbAt (s.kernel.msg dest)).bind (readMcb s) with
      | none => return { s with kernel := k, wild := true }
      | some m =>
        let size := if m.rbytes < size then m.rbytes else size
        match msg with
        | none => return { s with kernel := k }
        | some bytes =>
          if size > 0 then do
            let b ← m.rbuf
            return { s with
              kernel := k
              buf := Function.update s.buf b (overwrite bytes size.toNat (s.buf b)) }
          else return { s with kernel := k }
    else return { s with kernel := k }

/-! ## Steps -/

/-- A task goes on with its call. -/
def goOn (s : Xmsg T S B) (c : T) : Option (Xmsg T S B) :=
  if delayed (s.kernel.pc c) then none
  else
    (exec s.kernel (.cont c)).map fun r =>
      match s.receive c with
      | some x => received L s c x r
      | none =>
        if r.2.isSome then { s with
          kernel := r.1
          mcb := Function.update s.mcb c none
          sent := Function.update s.sent c none }
        else { s with kernel := r.1 }

/-- Who does it, when it must not be in a receive. -/
def actor : Action T S → Option T
  | .call c _ => some c
  | .softTail t => some t
  | _ => none

/-- One section; none after a wild access. -/
def xstep (s : Xmsg T S B) (a : XAction T S B) : Option (Xmsg T S B × Unit) :=
  if s.wild then none
  else
    (match a with
      | .sendx c dest msg size => rtSendx L s c dest msg size
      | .sendxIf c dest msg size => rtSendxIf L s c dest msg size
      | .sendxUntil c dest msg size time => rtSendxUntil L s c dest msg size time
      | .rpcx c dest smsg rmsg ssize rsize =>
        rtRpcx L s c dest smsg rmsg ssize rsize
      | .rpcxUntil c dest smsg rmsg ssize rsize time =>
        rtRpcxUntil L s c dest smsg rmsg ssize rsize time
      | .receivex c src msg size => rtReceivex L s c src msg size
      | .receivexIf c src msg size => rtReceivexIf L s c src msg size
      | .receivexUntil c src msg size time =>
        rtReceivexUntil L s c src msg size time
      | .returnx c dest msg size => rtReturnx L s c dest msg size
      | .goOn c => goOn L s c
      | .doRcvMsg c => doRcvMsg s c
      | .sched a =>
        if delays s.kernel a
            && (actor a).all fun t => (s.receive t).isNone then
          (exec s.kernel a).map fun r : Outcome T S => { s with kernel := r.1 }
        else none
      | .write b bytes =>
        some { s with buf := Function.update s.buf b bytes }).map (·, ())

/-- The tasks are set up, none is a proxy, and nothing has been sent. -/
def fresh (cfg : Config T S) (buf : B → Nat → UInt8) (own : T → Mcb B) :
    Xmsg T S B where
  kernel := boot { cfg with receiver := fun _ => none }
  buf := buf
  mcb := fun _ => none
  own := own
  receive := fun _ => none
  wild := false
  calls := 0
  sent := fun _ => none
  taken := fun _ => none
  receipts := []

/-! ## What is promised -/

/-- The first `n` bytes that the buffer held when it was sent. -/
def Sent.firstBytes (g : Sent B) (n : Int) : List UInt8 :=
  (List.range n.toNat).map g.bytes

/-- The receive has got what was sent, and has read nothing too late. -/
def Receipt.Faithful (r : Receipt T B) : Prop :=
  ∃ g, r.taken = some (r.src, g) ∧ 0 ≤ min r.size g.size ∧ r.len = some (min r.size g.size) ∧
    r.stored = g.firstBytes (min r.size g.size) ∧ r.late = false

/-- Extended messages deliver what was sent. -/
structure Delivers (s : Xmsg T S B) : Prop where
  sound : s.wild = false
  faithful : ∀ r ∈ s.receipts, r.Faithful

/-- The receive has still to read the buffer of the message that it has got,
    or the block on the sender's stack. -/
def Unread (s : Xmsg T S B) (c : T) : Prop :=
  match s.receive c with
  | none => False
  | some x =>
    match x.stage with
    | .inside => True
    | .sbytes _ _ => True
    | .sbuf _ _ _ => True
    | .copy _ mcb _ len => x.stored.length < len ∨ mcb.onStack = true
    | .test _ mcb => mcb.onStack = true
    | .answer _ => False

/-- Sizes are not negative and receives have somewhere to store the message; no
    send or rpc returns before its message, once taken, has been read; and
    nobody writes the buffer of a call in progress. -/
def Heeds (s : Xmsg T S B) : XAction T S B → Prop
  | .sendx _ _ _ size => 0 ≤ size
  | .sendxIf c dest _ size => 0 ≤ size ∧
      ((s.kernel.magic dest && accepts s.kernel c dest) = true → wakes s.kernel dest)
  | .sendxUntil _ _ _ size _ => 0 ≤ size
  | .rpcx _ _ _ _ ssize _ => 0 ≤ ssize
  | .rpcxUntil _ _ _ _ ssize _ _ => 0 ≤ ssize
  | .receivex _ _ msg size => msg = true ∧ 0 ≤ size
  | .receivexIf _ _ msg size => msg = true ∧ 0 ≤ size
  | .receivexUntil _ _ msg size _ => msg = true ∧ 0 ≤ size
  | .returnx _ dest _ _ => ∀ m b t g, s.mcb dest = some m → m.rbuf = some b →
      t ≠ dest → s.sent t = some g → g.buf ≠ b
  | .goOn c => ∀ r g, s.sent c = some g → s.taken r = some (c, g) → ¬ Unread s r
  | .doRcvMsg _ => True
  | .sched _ => True
  | .write b _ => ∀ t g, s.sent t = some g → g.buf ≠ b

end Model

end RtaiExtendedMsg
