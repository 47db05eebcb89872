import Rtai.Runs
import Rtai.StreamCells

/-! # rtai_scb.h: shared memory circular buffers

    One producer puts messages, one consumer gets and eavesdrops them, and
    there is no lock.  Every read of an index, every `memcpy` and every write
    of an index is a step of its own; the steps of the two sides come in any
    order.

    An index is less than the size, so that no sum or difference the code
    forms leaves the range of the size, and `int` is `Int` here. -/

namespace RtaiScb

open RtaiStreamCells

/-- The buffer, with the three words in front of it. -/
structure Scb where
  size : Int
  fbyte : Int
  lbyte : Int
  bytes : Int → UInt8

/-- `rt_scb_avbs` -/
def rtScbAvbs (s : Scb) : Int :=
  if s.lbyte ≥ s.fbyte then s.lbyte - s.fbyte else s.size + s.lbyte - s.fbyte

/-- The bytes in the buffer. -/
def Scb.contents (s : Scb) : List UInt8 :=
  (List.range (rtScbAvbs s).toNat).map fun k : Nat =>
    s.bytes ((s.fbyte + k) % s.size)

/-- What a call does once it has read the words: the copies and the value
    that it stores in its index. -/
structure Plan where
  copies : List Memcpy
  index : Option Int

/-- `rt_scb_put`: the copies, and the new index. -/
def rtScbPut (size fbyte lbyte msgSize : Int) : Option Plan :=
  let fbyte := fbyte - lbyte
  if msgSize > 0 ∧ (if fbyte ≤ 0 then size + fbyte else fbyte) > msgSize then
    let tocpy := size - lbyte
    if tocpy > msgSize then
      some ⟨[⟨lbyte, 0, msgSize⟩], some (lbyte + msgSize)⟩
    else
      some ⟨[⟨lbyte, 0, tocpy⟩, ⟨0, tocpy, msgSize - tocpy⟩], some (msgSize - tocpy)⟩
  else none

/-- `rt_scb_get`: the copies, and the new index. -/
def rtScbGet (size fbyte lbyte msgSize : Int) : Option Plan :=
  let lbyte := lbyte - fbyte
  if msgSize > 0 ∧ (if lbyte ≥ 0 then lbyte else size + lbyte) ≥ msgSize then
    let tocpy := size - fbyte
    if tocpy > msgSize then
      some ⟨[⟨fbyte, 0, msgSize⟩], some (fbyte + msgSize)⟩
    else
      some ⟨[⟨fbyte, 0, tocpy⟩, ⟨0, tocpy, msgSize - tocpy⟩], some (msgSize - tocpy)⟩
  else none

/-- `rt_scb_get` without the write of the index. -/
def rtScbEvdrp (size fbyte lbyte msgSize : Int) : Option Plan :=
  let lbyte := lbyte - fbyte
  if msgSize > 0 ∧ (if lbyte ≥ 0 then lbyte else size + lbyte) ≥ msgSize then
    let tocpy := size - fbyte
    if tocpy > msgSize then some ⟨[⟨fbyte, 0, msgSize⟩], none⟩
    else some ⟨[⟨fbyte, 0, tocpy⟩, ⟨0, tocpy, msgSize - tocpy⟩], none⟩
  else none

/-- The calls. -/
inductive ScbOp where
  | put | get | evdrp
  deriving DecidableEq

/-- What a call will copy. -/
def ScbOp.plan : ScbOp → Int → Int → Int → Int → Option Plan
  | .put => rtScbPut
  | .get => rtScbGet
  | .evdrp => rtScbEvdrp

/-- Where a call is: before the reads of `SIZE`, `FBYTE` and `LBYTE`, with the
    words it has read, or at its copies. -/
inductive ScbPc where
  | size
  | fbyte (size : Int)
  | lbyte (size fbyte : Int)
  | copying (copies : List Memcpy) (index : Option Int)

/-- A call, with what its message held at first and the bytes that were in the
    buffer when it read the index of the other side. -/
structure ScbCall where
  op : ScbOp
  msgSize : Int
  msg : Int → UInt8
  was : Int → UInt8
  given : List UInt8
  pc : ScbPc

/-- A call that has returned. -/
structure ScbReturn where
  op : ScbOp
  msgSize : Int
  msg : Int → UInt8
  was : Int → UInt8
  given : List UInt8
  value : Int

/-- The first bytes of a message. -/
def message (msg : Int → UInt8) (msgSize : Int) : List UInt8 :=
  (List.range msgSize.toNat).map fun k : Nat => msg k

/-- The bytes of the calls that have succeeded, the last call first in the
    list. -/
def moved : List ScbReturn → List UInt8
  | [] => []
  | r :: rs =>
    if r.op ≠ .evdrp ∧ r.value = 0 then
      moved rs ++ message r.msg r.msgSize
    else moved rs

/-- The buffer, the call of either side and the calls that have returned. -/
structure ScbRun where
  scb : Scb
  producer : Option ScbCall
  consumer : Option ScbCall
  puts : List ScbReturn
  gets : List ScbReturn

/-- The bytes that have been put and not been got. -/
def ScbRun.queue (x : ScbRun) : List UInt8 :=
  (moved x.puts).drop (moved x.gets).length

/-- The sections of the two sides. -/
inductive ScbAction where
  /-- The producer calls `rt_scb_put`. -/
  | put (msg : Int → UInt8) (msgSize : Int)
  /-- The consumer calls `rt_scb_get` or `rt_scb_evdrp`. -/
  | get (msg : Int → UInt8) (msgSize : Int)
  | evdrp (msg : Int → UInt8) (msgSize : Int)
  /-- The next step of the call of the producer. -/
  | produce
  /-- The next step of the call of the consumer. -/
  | consume

/-- A call at its first access. -/
def entered (op : ScbOp) (msg : Int → UInt8) (msgSize : Int) : ScbCall :=
  ⟨op, msgSize, msg, msg, [], .size⟩

/-- A call that is over. -/
def ScbCall.returned (c : ScbCall) (value : Int) : ScbReturn :=
  ⟨c.op, c.msgSize, c.msg, c.was, c.given, value⟩

/-- One step of the producer. -/
def produce (x : ScbRun) (c : ScbCall) : ScbRun :=
  match c.pc with
  | .size => { x with producer := some { c with pc := .fbyte x.scb.size } }
  | .fbyte size =>
    { x with
      producer :=
        some { c with pc := .lbyte size x.scb.fbyte, given := x.queue } }
  | .lbyte size fbyte =>
    match c.op.plan size fbyte x.scb.lbyte c.msgSize with
    | none =>
      { x with producer := none, puts := c.returned c.msgSize :: x.puts }
    | some p =>
      { x with producer := some { c with pc := .copying p.copies p.index } }
  | .copying (m :: ms) index =>
    { x with
      scb := { x.scb with bytes := m.toRing c.msg x.scb.bytes }
      producer := some { c with pc := .copying ms index } }
  | .copying [] index =>
    { x with
      scb := { x.scb with lbyte := index.getD x.scb.lbyte }
      producer := none
      puts := c.returned 0 :: x.puts }

/-- One step of the consumer. -/
def consume (x : ScbRun) (c : ScbCall) : ScbRun :=
  match c.pc with
  | .size => { x with consumer := some { c with pc := .fbyte x.scb.size } }
  | .fbyte size =>
    { x with consumer := some { c with pc := .lbyte size x.scb.fbyte } }
  | .lbyte size fbyte =>
    match c.op.plan size fbyte x.scb.lbyte c.msgSize with
    | none =>
      { x with
        consumer := none
        gets := { c with given := x.queue }.returned c.msgSize :: x.gets }
    | some p =>
      { x with
        consumer :=
          some { c with pc := .copying p.copies p.index, given := x.queue } }
  | .copying (m :: ms) index =>
    { x with
      consumer :=
        some { c with
          msg := m.fromRing x.scb.bytes c.msg, pc := .copying ms index } }
  | .copying [] index =>
    { x with
      scb := { x.scb with fbyte := index.getD x.scb.fbyte }
      consumer := none
      gets := c.returned 0 :: x.gets }

/-- One access. -/
def scbStep (x : ScbRun) : ScbAction → Option (ScbRun × Unit)
  | .put msg msgSize =>
    if x.producer.isNone then
      some ({ x with producer := some (entered .put msg msgSize) }, ())
    else none
  | .get msg msgSize =>
    if x.consumer.isNone then
      some ({ x with consumer := some (entered .get msg msgSize) }, ())
    else none
  | .evdrp msg msgSize =>
    if x.consumer.isNone then
      some ({ x with consumer := some (entered .evdrp msg msgSize) }, ())
    else none
  | .produce => do
      let c ← x.producer
      some (produce x c, ())
  | .consume => do
      let c ← x.consumer
      some (consume x c, ())

/-- A buffer of any size that has been initialised, with any bytes in it. -/
def initted (size : Nat) (bytes : Int → UInt8) : ScbRun where
  scb := ⟨size + 1, 0, 0, bytes⟩
  producer := none
  consumer := none
  puts := []
  gets := []

/-! ## What the buffer promises -/

/-- The copies that a call has not made yet. -/
def ScbCall.copies (c : ScbCall) : List Memcpy :=
  match c.pc with
  | .copying copies _ => copies
  | _ => []

/-- All or nothing: the call returns 0 with the whole message, or its
    `msg_size` with nothing of it.  `room` tells whether the buffer had
    enough. -/
def ScbReturn.Whole (r : ScbReturn) (room : Prop) : Prop :=
  (0 < r.msgSize ∧ room ∧ r.value = 0 ∧ ∀ k, ¬ (0 ≤ k ∧ k < r.msgSize) → r.msg k = r.was k) ∨
    (¬ (0 < r.msgSize ∧ room) ∧ r.value = r.msgSize ∧ r.msg = r.was)

/-- The calls of the consumer since its last successful get, the last call
    first. -/
def sinceGet (gets : List ScbReturn) : List ScbReturn :=
  gets.takeWhile fun r =>
    !decide (r.op = .get ∧ r.value = 0 ∧ 0 < r.msgSize)

/-- The promises of a lock-free circular buffer. -/
structure ScbLaw (x : ScbRun) : Prop where
  fbyte : 0 ≤ x.scb.fbyte ∧ x.scb.fbyte < x.scb.size
  lbyte : 0 ≤ x.scb.lbyte ∧ x.scb.lbyte < x.scb.size
  /-- What has been got is, in order, the first of what has been put. -/
  inOrder : moved x.gets <+: moved x.puts
  /-- The rest is in the buffer, and nothing else. -/
  contents : x.scb.contents = x.queue
  /-- A put appends the whole message or nothing. -/
  puts : ∀ r ∈ x.puts, r.op = .put ∧ r.msg = r.was ∧
    r.Whole (r.given.length + r.msgSize < x.scb.size)
  /-- A get or an eavesdropping hands over the first bytes of what it found,
      or nothing. -/
  gets : ∀ r ∈ x.gets, r.op ≠ .put ∧ r.Whole (r.msgSize ≤ r.given.length) ∧ (r.value = 0 →
      message r.msg r.msgSize = r.given.take r.msgSize.toNat)
  /-- An eavesdropping yields what the next get of that size does: always if
      it succeeds, and otherwise if nothing has been put in between. -/
  spied : ∀ r rs, (r :: rs) <:+ x.gets → r.op = .get → ∀ e ∈ sinceGet rs,
    e.op = .evdrp → e.msgSize = r.msgSize →
    (e.value = 0 ∨ e.given = r.given → r.value = e.value) ∧
    (e.value = 0 → message r.msg r.msgSize = message e.msg e.msgSize)
  /-- The copies stay inside the buffer and the message. -/
  inside : ∀ c, x.producer = some c ∨ x.consumer = some c → ∀ m ∈ c.copies, 0 ≤ m.len ∧
      (0 ≤ m.ring ∧ m.ring + m.len ≤ x.scb.size) ∧
      0 ≤ m.flat ∧ m.flat + m.len ≤ c.msgSize
  /-- The two sides copy no byte at the same time. -/
  apart : ∀ c c', x.producer = some c → x.consumer = some c' →
    ∀ m ∈ c.copies, ∀ m' ∈ c'.copies, ∀ a, ¬ (m.Covers a ∧ m'.Covers a)

end RtaiScb
