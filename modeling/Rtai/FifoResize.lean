import Rtai.MbxCopies

/-! # Resizing a fifo

    `rtf_resize`, while one process sends to the fifo and any number of them receive
    from it, with `mbx_send` and `mbx_receive`.  A step is what is done between two
    points at which somebody else may get in; a pass of `mbx_put` is the choice of
    `tocpy`, the copy, and the section that updates the counters.

    The waits may end at any time, by a signal or for no reason, which also stands
    for the timeouts.  A process that has been told that it has the semaphore and is
    interrupted leaves without giving it back. -/

namespace RtaiFifoResize

open RtaiMailbox RtaiMbxCopies

/-! ## The fifo -/

/-- Who uses the fifo. -/
inductive Proc (T : Type) where
  | sender
  | receiver (t : T)
  deriving DecidableEq

/-- The semaphore a process takes, and the counter it waits for. -/
def Proc.side {T : Type} : Proc T → Side
  | .sender => .send
  | .receiver _ => .recv

/-- Who waits for the semaphores and holds them. -/
inductive Who (T : Type) where
  | proc (p : Proc T)
  | resizer
  deriving DecidableEq

/-- Where a process stands. -/
inductive Pc where
  | idle
  /-- In the `schedule` of `mbx_sem_wait`. -/
  | queued
  /-- There, with the semaphore. -/
  | handed
  /-- `while (msg_size)` and the first section of `mbx_wait`. -/
  | loop
  /-- In the `schedule` of `mbx_wait`. -/
  | asleep
  /-- The test of the loop of `mbx_put` or `mbx_get`. -/
  | pass
  /-- Before the copy at `buf + ofs`. -/
  | copying (buf : Nat) (ofs n : Int)
  /-- Before the section that updates the counters. -/
  | copied (n : Int) (bytes : List UInt8)
  /-- `mbx_signal` -/
  | signal
  /-- `mbx_sem_signal` -/
  | release
  deriving DecidableEq

/-- `newbuf` and `size` of `rtf_resize`. -/
structure Locals where
  newbuf : Nat
  size : Int
  deriving DecidableEq

/-- Where `rtf_resize` stands. -/
inductive Rsz where
  | idle
  /-- `mbx_sem_wait(&(mbx->rcvsem))` -/
  | semWait (x : Locals)
  | queued (x : Locals)
  | handed (x : Locals)
  /-- `semval = mbx_sem_wait_if(&mbx->sndsem)` -/
  | semWaitIf (x : Locals)
  /-- `!mbx->waiting_task` -/
  | look (x : Locals)
  /-- `size < mbx->avbs` -/
  | check (x : Locals) (semval : Bool)
  /-- The loop of `mbx_get`, of which `j` bytes have been copied. -/
  | get (x : Locals) (semval : Bool) (j : Int)
  | got (x : Locals) (semval : Bool) (j n : Int)
  /-- `mbx->frbs = mbx_get(...)` -/
  | setFrbs (x : Locals) (semval : Bool) (left : Int)
  /-- `mbx->avbs = mbx->lbyte = size - mbx->frbs` -/
  | setAvbs (x : Locals) (semval : Bool)
  | setFbyte (x : Locals) (semval : Bool)
  | swap (x : Locals) (semval : Bool)
  | setSize (x : Locals) (semval : Bool) (oldbuf : Nat)
  | sndSignal (x : Locals) (oldbuf : Nat)
  | mbxSignal (x : Locals) (oldbuf : Nat)
  | rcvSignal (x : Locals) (oldbuf : Nat)
  | free (x : Locals) (oldbuf : Nat)
  | busySnd (x : Locals)
  | busyRcv (x : Locals)
  | busyFree (x : Locals)
  | returned (v : Int)
  deriving DecidableEq

/-- The fields of the `F_MBX` about its bytes, and the buffers, allocated and freed.
    The rest are ghosts: the bytes that have been sent and not yet received, whether
    there has been a copy outside the current buffer or one that is freed, and
    whether this `rtf_resize` has written a field. -/
structure Store where
  size : Int
  fbyte : Int
  lbyte : Int
  avbs : Int
  frbs : Int
  bufadr : Nat
  mem : Nat → List UInt8
  freed : Nat → Bool
  clock : Nat
  stream : List UInt8
  wild : Bool
  touched : Bool

/-- The `F_MBX` and the processes.  The ghost says who is inside a semaphore. -/
structure Fifo (T : Type) extends Store where
  semFree : Side → Bool
  queue : Side → List (Who T)
  waitingTask : Option (Proc T)
  pc : Proc T → Pc
  msg : Nat → UInt8
  msgSize : Proc T → Int
  rsz : Rsz
  holder : Side → Option (Who T)

/-- The sections. -/
inductive Action (T : Type) where
  /-- `mbx_send` or `mbx_receive`; who waits is linked at place `i`. -/
  | call (p : Proc T) (msg : Nat → UInt8) (msgSize : Int) (i : Nat)
  | step (p : Proc T)
  /-- `schedule` returns. -/
  | wake (p : Proc T)
  /-- `schedule` returns, with `signal_pending(current)`. -/
  | interrupt (p : Proc T)
  /-- `rtf_resize`; the allocation succeeds if `got`, for a size that is positive. -/
  | resize (size : Int) (got : Bool)
  | rszStep (i : Nat)
  | rszWake
  | rszInterrupt

/-- The errors. -/
def EBADF : Int := 9

def ENOMEM : Int := 12

def EBUSY : Int := 16

def EINVAL : Int := 22

namespace Store

variable (s : Store)

/-- The mailbox; an `lbyte` at the end of the buffer is one at its beginning. -/
def mbx : Mbx Unit where
  size := s.size
  bufadr := s.mem s.bufadr
  frbs := s.frbs
  avbs := s.avbs
  fbyte := s.fbyte
  lbyte := s.lbyte % s.size
  sem := fun _ => none
  waitingTask := none
  pollq := fun _ => []

/-- The counter a side waits for. -/
def fravbs : Side → Int
  | .send => s.frbs
  | .recv => s.avbs

/-- The index of a side. -/
def byte : Side → Int
  | .send => s.lbyte
  | .recv => s.fbyte

/-- `MOD_SIZE` -/
def modSize (indx : Int) : Int := if indx < s.size then indx else indx - s.size

/-- `tocpy` of a pass. -/
def tocpy (side : Side) (msgSize : Int) : Int :=
  let n := if s.size - s.byte side > msgSize then msgSize else s.size - s.byte side
  if n > s.fravbs side then s.fravbs side else n

/-- A copy to a buffer. -/
def write (buf : Nat) (ofs n : Int) (msg : Nat → UInt8) : Store :=
  match memcpyTo (s.mem buf) ofs n msg with
  | some bytes =>
    { s with
      mem := Function.update s.mem buf bytes
      wild := s.wild || s.freed buf }
  | none => { s with wild := true }

/-- A copy from a buffer. -/
def read (buf : Nat) (ofs n : Int) : Store × List UInt8 :=
  match memcpyFrom (s.mem buf) ofs n with
  | some bytes => ({ s with wild := s.wild || s.freed buf }, bytes)
  | none => ({ s with wild := true }, [])

/-- The section of a pass of `mbx_put`. -/
def put (n : Int) (bytes : List UInt8) : Store :=
  { s with
    lbyte := s.modSize (s.lbyte + n)
    frbs := s.frbs - n
    avbs := s.avbs + n
    stream := s.stream ++ bytes }

/-- The section of a pass of `mbx_get`. -/
def get (n : Int) : Store :=
  { s with
    fbyte := s.modSize (s.fbyte + n)
    frbs := s.frbs + n
    avbs := s.avbs - n }

end Store

section Model

variable {T : Type} [decT : DecidableEq T]

namespace Fifo

variable (s : Fifo T)

/-- A process moves. -/
def goto (p : Proc T) (pc : Pc) : Fifo T :=
  { s with pc := Function.update s.pc p pc }

/-! ## The semaphores -/

/-- Who has waited has the semaphore. -/
def hand (side : Side) (rest : List (Who T)) : Who T → Fifo T
  | .proc p =>
    { s with
      queue := Function.update s.queue side rest
      holder := Function.update s.holder side (some (.proc p))
      pc := Function.update s.pc p .handed }
  | .resizer =>
    { s with
      queue := Function.update s.queue side rest
      holder := Function.update s.holder side (some .resizer)
      rsz :=
        match s.rsz with
        | .queued x => .handed x
        | r => r }

/-- `mbx_sem_signal`: the first waiter, or free. -/
def mbxSemSignal (side : Side) : Fifo T :=
  match s.queue side with
  | w :: rest => s.hand side rest w
  | [] =>
    { s with
      semFree := Function.update s.semFree side true
      holder := Function.update s.holder side none }

/-- `sem->free = 0` -/
def take (side : Side) (w : Who T) : Fifo T :=
  { s with
    semFree := Function.update s.semFree side false
    holder := Function.update s.holder side (some w) }

/-- `enqueue_blocked` -/
def enqueue (side : Side) (w : Who T) (i : Nat) : Fifo T :=
  { s with
    queue := Function.update s.queue side
      ((s.queue side).take i ++ w :: (s.queue side).drop i) }

/-- The end of an `mbx_sem_wait` whose caller is still linked. -/
def giveUp (side : Side) (w : Who T) : Fifo T :=
  let s := { s with queue := Function.update s.queue side ((s.queue side).erase w) }
  if s.queue side = [] then { s with semFree := Function.update s.semFree side true }
  else s

/-- Who has the semaphore leaves with it: it is not free, and nobody is inside. -/
def lose (side : Side) : Fifo T :=
  { s with holder := Function.update s.holder side none }

end Fifo

/-! ## The processes -/

/-- A process makes a call. -/
def procCall (s : Fifo T) (p : Proc T) (msg : Nat → UInt8) (msgSize : Int) (i : Nat) :
    Option (Fifo T) :=
  if s.pc p = .idle then
    let s :=
      { s with
        msg := if p = Proc.sender then msg else s.msg
        msgSize := Function.update s.msgSize p msgSize }
    if s.semFree p.side then some ((s.take p.side (.proc p)).goto p .loop)
    else some ((s.enqueue p.side (.proc p) i).goto p .queued)
  else none

/-- Its next section. -/
def procStep (s : Fifo T) (p : Proc T) : Option (Fifo T) :=
  match s.pc p with
  | .loop =>
    if s.msgSize p = 0 then some (s.goto p .release)
    else if s.fravbs p.side = 0 then
      some ({ s with waitingTask := some p }.goto p .asleep)
    else some (s.goto p .pass)
  | .pass =>
    if s.msgSize p > 0 ∧ s.fravbs p.side ≠ 0 then
      some (s.goto p (.copying s.bufadr (s.byte p.side) (s.tocpy p.side (s.msgSize p))))
    else some (s.goto p .signal)
  | .copying buf ofs n =>
    let s := { s with wild := s.wild || buf != s.bufadr }
    match p with
    | .sender =>
      some ({ s with toStore := s.write buf ofs n s.msg }.goto p
        (.copied n ((List.range n.toNat).map s.msg)))
    | .receiver _ =>
      let (store, bytes) := s.read buf ofs n
      some ({ s with toStore := store }.goto p (.copied n bytes))
  | .copied n bytes =>
    let s := { s with msgSize := Function.update s.msgSize p (s.msgSize p - n) }
    match p with
    | .sender =>
      some ({ s with
        toStore := s.put n bytes
        msg := fun i => s.msg (n.toNat + i) }.goto p .pass)
    | .receiver _ =>
      some ({ s with
        toStore := { s.get n with stream := s.stream.drop n.toNat } }.goto p .pass)
  | .signal => some ({ s with waitingTask := none }.goto p .loop)
  | .release => some ((s.mbxSemSignal p.side).goto p .idle)
  | _ => none

/-- `schedule` has returned to it. -/
def procWake (s : Fifo T) (p : Proc T) : Option (Fifo T) :=
  match s.pc p with
  | .queued => some ((s.giveUp p.side (.proc p)).goto p .idle)
  | .handed => some (s.goto p .loop)
  | .asleep =>
    if s.waitingTask = some p then
      some ({ s with waitingTask := none }.goto p .release)
    else some (s.goto p .pass)
  | _ => none

/-- A signal ends its wait. -/
def procInterrupt (s : Fifo T) (p : Proc T) : Option (Fifo T) :=
  match s.pc p with
  | .queued => some ((s.giveUp p.side (.proc p)).goto p .idle)
  | .handed => some ((s.lose p.side).goto p .idle)
  | .asleep => some (s.goto p .release)
  | _ => none

/-! ## `rtf_resize` -/

/-- `rtf_resize`, up to the first semaphore. -/
def rtfResize (s : Fifo T) (size : Int) (got : Bool) : Option (Fifo T) :=
  match s.rsz with
  | .idle =>
    let s := { s with touched := false }
    if size = 0 then some { s with rsz := .returned (-EINVAL) }
    else if size < 0 ∨ got = false then some { s with rsz := .returned (-ENOMEM) }
    else
      some { s with
        mem := Function.update s.mem s.clock (List.replicate size.toNat 0)
        freed := Function.update s.freed s.clock false
        clock := s.clock + 1
        rsz := .semWait ⟨s.clock, size⟩ }
  | .returned _ => some { s with rsz := .idle }
  | _ => none

/-- The next section of the resize. -/
def rszStep (s : Fifo T) (i : Nat) : Option (Fifo T) :=
  match s.rsz with
  | .semWait x =>
    if s.semFree .recv then
      some { s.take .recv .resizer with rsz := .semWaitIf x }
    else some { s.enqueue .recv .resizer i with rsz := .queued x }
  | .semWaitIf x =>
    if s.semFree .send then
      some { s.take .send .resizer with rsz := .check x true }
    else some { s with rsz := .look x }
  | .look x =>
    if s.waitingTask = none then some { s with rsz := .semWaitIf x }
    else some { s with rsz := .check x false }
  | .check x semval =>
    if x.size < s.avbs then
      if semval then some { s with rsz := .busySnd x }
      else some { s with rsz := .busyRcv x }
    else some { s with rsz := .get x semval 0 }
  | .get x semval j =>
    if x.size - j > 0 ∧ s.avbs ≠ 0 then
      let n := s.tocpy .recv (x.size - j)
      let (store, bytes) := s.read s.bufadr s.fbyte n
      some { s with
        toStore := store.write x.newbuf j n fun i => bytes.getD i 0
        rsz := .got x semval j n }
    else some { s with rsz := .setFrbs x semval (x.size - j) }
  | .got x semval j n =>
    some { s with
      toStore := { s.get n with touched := true }
      rsz := .get x semval (j + n) }
  | .setFrbs x semval left =>
    some { s with frbs := left, touched := true, rsz := .setAvbs x semval }
  | .setAvbs x semval =>
    some { s with
      avbs := x.size - s.frbs
      lbyte := x.size - s.frbs
      touched := true
      rsz := .setFbyte x semval }
  | .setFbyte x semval =>
    some { s with fbyte := 0, touched := true, rsz := .swap x semval }
  | .swap x semval =>
    some { s with
      bufadr := x.newbuf
      touched := true
      rsz := .setSize x semval s.bufadr }
  | .setSize x semval oldbuf =>
    if semval then
      some { s with size := x.size, touched := true, rsz := .sndSignal x oldbuf }
    else if x.size > s.size then
      some { s with size := x.size, touched := true, rsz := .mbxSignal x oldbuf }
    else some { s with rsz := .rcvSignal x oldbuf }
  | .sndSignal x oldbuf =>
    some { s.mbxSemSignal .send with rsz := .rcvSignal x oldbuf }
  | .mbxSignal x oldbuf =>
    some { s with waitingTask := none, rsz := .rcvSignal x oldbuf }
  | .rcvSignal x oldbuf => some { s.mbxSemSignal .recv with rsz := .free x oldbuf }
  | .free x oldbuf =>
    some { s with
      freed := Function.update s.freed oldbuf true
      rsz := .returned x.size }
  | .busySnd x => some { s.mbxSemSignal .send with rsz := .busyRcv x }
  | .busyRcv x => some { s.mbxSemSignal .recv with rsz := .busyFree x }
  | .busyFree x =>
    some { s with
      freed := Function.update s.freed x.newbuf true
      rsz := .returned (-EBUSY) }
  | _ => none

/-- `schedule` has returned to the resize. -/
def rszWake (s : Fifo T) : Option (Fifo T) :=
  match s.rsz with
  | .queued _ => some { s.giveUp .recv .resizer with rsz := .returned (-EBADF) }
  | .handed x => some { s with rsz := .semWaitIf x }
  | _ => none

/-- A signal ends the wait of the resize. -/
def rszInterrupt (s : Fifo T) : Option (Fifo T) :=
  match s.rsz with
  | .queued _ => some { s.giveUp .recv .resizer with rsz := .returned (-EBADF) }
  | .handed _ => some { s.lose .recv with rsz := .returned (-EBADF) }
  | _ => none

/-- One section of anybody. -/
def fifoStep (s : Fifo T) : Action T → Option (Fifo T × Unit)
  | .call p msg msgSize i => (procCall s p msg msgSize i).map (·, ())
  | .step p => (procStep s p).map (·, ())
  | .wake p => (procWake s p).map (·, ())
  | .interrupt p => (procInterrupt s p).map (·, ())
  | .resize size got => (rtfResize s size got).map (·, ())
  | .rszStep i => (rszStep s i).map (·, ())
  | .rszWake => (rszWake s).map (·, ())
  | .rszInterrupt => (rszInterrupt s).map (·, ())

/-! ## Who is inside a semaphore -/

/-- Inside the semaphore. -/
def Pc.inside : Pc → Bool
  | .idle | .queued => false
  | _ => true

/-- In the middle of a pass. -/
def Pc.inFlight : Pc → Bool
  | .copying _ _ _ | .copied _ _ => true
  | _ => false

/-- `semval`, from the first pass to the last write. -/
def Rsz.moves : Rsz → Option Bool
  | .get _ v _ | .got _ v _ _ | .setFrbs _ v _ | .setAvbs _ v | .setFbyte _ v
  | .swap _ v | .setSize _ v _ => some v
  | _ => none

/-- `rtf_resize` has the semaphore. -/
def Rsz.holds : Side → Rsz → Bool
  | .recv, r =>
    match r with
    | .idle | .semWait _ | .queued _ | .free _ _ | .busyFree _ | .returned _ => false
    | _ => true
  | .send, r =>
    match r with
    | .check _ v => v
    | .sndSignal _ _ | .busySnd _ => true
    | r => r.moves = some true

/-- Who has the semaphore of a side. -/
def Fifo.holds (s : Fifo T) (side : Side) : Who T → Prop
  | .proc p => p.side = side ∧ (s.pc p).inside = true
  | .resizer => s.rsz.holds side = true

/-- Linked in the queue of the semaphore. -/
def Fifo.waits (s : Fifo T) (side : Side) : Who T → Prop
  | .proc p => p.side = side ∧ s.pc p = .queued
  | .resizer => side = .recv ∧ ∃ x, s.rsz = .queued x

/-! ## The condition on the steps -/

/-- A process that waits for a semaphore, and is alone, leaves. -/
def LastLeaves (s : Fifo T) (side : Side) (w : Who T) : Prop :=
  s.waits side w ∧ (s.queue side).erase w = []

/-- **THE CONDITION**: `rtf_resize` does not go on without the semaphore of the
    senders while the sender is in the middle of a pass, nor to a smaller buffer; no
    pass of the sender begins while it goes on so; the last process that waits for a
    semaphore does not give up while somebody is inside; and nobody is interrupted
    who has just been given a semaphore. -/
def Meets (s : Fifo T) : Action T → Prop
  | .step p => s.rsz.moves = some false → p = .sender → s.pc p = .pass →
      ¬(s.msgSize p > 0 ∧ s.frbs ≠ 0)
  | .wake p => LastLeaves s p.side (.proc p) → s.holder p.side = none
  | .interrupt p =>
    (LastLeaves s p.side (.proc p) → s.holder p.side = none) ∧ s.pc p ≠ .handed
  | .rszWake => LastLeaves s .recv .resizer → s.holder .recv = none
  | .rszInterrupt =>
    (LastLeaves s .recv .resizer → s.holder .recv = none) ∧ ∀ x, s.rsz ≠ .handed x
  | .rszStep _ => ∀ x, s.rsz = .check x false →
      x.size < s.avbs ∨ ((s.pc .sender).inFlight = false ∧ s.size ≤ x.size)
  | _ => True

/-! ## What is kept -/

/-- **A FIFO IS PRESERVED**. -/
structure Preserved (s : Fifo T) : Prop where
  /-- No copy outside the buffer, nor to one that is freed. -/
  tame : s.wild = false
  live : s.freed s.bufadr = false
  /-- But for the middle of an `rtf_resize`, the ring is right and holds the bytes
      that have been sent and not yet received. -/
  ring : s.rsz.moves = none → RingOk s.mbx ∧ content s.mbx = s.stream
  /-- Before it gives `rcvsem` back, the bytes start at the beginning of the new
      buffer. -/
  moved : ∀ x oldbuf, s.rsz = .rcvSignal x oldbuf →
    s.size = x.size ∧ s.bufadr = x.newbuf ∧ s.fbyte = 0 ∧ s.lbyte % s.size = s.avbs % s.size
  /-- `rtf_resize` returns the size, or an error and has not touched the fifo. -/
  returned : ∀ v, s.rsz = .returned v → (0 ≤ v → s.size = v) ∧ (v < 0 → s.touched = false)
  /-- Both semaphores are as they were: free, unless somebody is inside. -/
  free : ∀ side, s.semFree side = true ↔ s.holder side = none
  inside : ∀ side w, s.holder side = some w ↔ s.holds side w

/-- A fifo that nobody uses.  `waiting_task` is whatever it is. -/
structure Unused (s : Fifo T) : Prop where
  ring : RingOk s.mbx
  lbyte : 0 ≤ s.lbyte ∧ s.lbyte ≤ s.size
  stream : s.stream = content s.mbx
  bufadr : s.bufadr < s.clock
  live : s.freed s.bufadr = false
  tame : s.wild = false
  free : ∀ side, s.semFree side = true
  queue : ∀ side, s.queue side = []
  holder : ∀ side, s.holder side = none
  pc : ∀ p, s.pc p = .idle
  rsz : s.rsz = .idle

/-! ## A semaphore -/

section Semaphore

variable {W : Type} [decW : DecidableEq W] {free : Bool} {holder : Option W} {queue : List W}
  {waits holds waits' holds' : W → Prop} {w : W}

/-- **A SEMAPHORE IS RIGHT**. -/
structure SemOk (free : Bool) (holder : Option W) (queue : List W)
    (waits holds : W → Prop) : Prop where
  free : free = true ↔ holder = none
  nodup : queue.Nodup
  waits : ∀ v, v ∈ queue ↔ waits v
  holds : ∀ v, holder = some v ↔ holds v

/-- Nobody but `w` has moved. -/
def Only (w : W) (waits holds waits' holds' : W → Prop) : Prop :=
  ∀ v, v ≠ w → (waits' v ↔ waits v) ∧ (holds' v ↔ holds v)

omit decW in
theorem SemOk.congr (h : SemOk free holder queue waits holds)
    (hw : ∀ v, waits' v ↔ waits v) (hh : ∀ v, holds' v ↔ holds v) :
    SemOk free holder queue waits' holds' :=
  ⟨h.free, h.nodup, fun v => (h.waits v).trans (hw v).symm,
    fun v => (h.holds v).trans (hh v).symm⟩

/-- `sem->free = 0` -/
theorem SemOk.take (h : SemOk free holder queue waits holds)
    (hfree : free = true) (ho : Only w waits holds waits' holds') (hw : ¬waits w)
    (hw' : ¬waits' w) (hh' : holds' w) :
    SemOk false (some w) queue waits' holds' := by
  have hnone := h.free.mp hfree
  refine ⟨⟨nofun, nofun⟩, h.nodup, fun v => ?_, fun v => ?_⟩
  · by_cases hv : v = w
    · subst hv
      exact (h.waits v).trans (iff_of_false hw hw')
    · exact (h.waits v).trans (ho v hv).1.symm
  · by_cases hv : v = w
    · subst hv
      exact iff_of_true rfl hh'
    · have hno : ¬holds v := fun hh => by
        have := (h.holds v).mpr hh
        rw [hnone] at this
        exact nomatch this
      exact iff_of_false (fun he => hv (Option.some.inj he).symm)
        fun hh => hno ((ho v hv).2.mp hh)

/-- `enqueue_blocked` -/
theorem SemOk.enqueue (h : SemOk free holder queue waits holds) (i : Nat)
    (ho : Only w waits holds waits' holds') (hw : ¬waits w) (hw' : waits' w)
    (hh : ¬holds w) (hh' : ¬holds' w) :
    SemOk free holder (queue.take i ++ w :: queue.drop i) waits' holds' := by
  have hperm : (queue.take i ++ w :: queue.drop i).Perm (w :: queue) := by
    refine List.perm_middle.trans ?_
    rw [List.take_append_drop]
  refine ⟨h.free, ?_, fun v => ?_, fun v => ?_⟩
  · rw [hperm.nodup_iff]
    exact List.nodup_cons.mpr ⟨fun hm => hw ((h.waits w).mp hm), h.nodup⟩
  · rw [hperm.mem_iff, List.mem_cons]
    by_cases hv : v = w
    · subst hv
      exact iff_of_true (.inl rfl) hw'
    · rw [(ho v hv).1, ← h.waits v]
      exact or_iff_right hv
  · by_cases hv : v = w
    · subst hv
      exact (h.holds v).trans (iff_of_false hh hh')
    · exact (h.holds v).trans (ho v hv).2.symm

/-- A signal finds nobody. -/
theorem SemOk.give (h : SemOk free holder [] waits holds)
    (ho : Only w waits holds waits' holds') (hw' : ¬waits' w) (hh : holds w)
    (hh' : ¬holds' w) : SemOk true none [] waits' holds' := by
  have hsome := (h.holds w).mpr hh
  refine ⟨iff_of_true rfl rfl, List.nodup_nil, fun v => ?_, fun v => ?_⟩
  · by_cases hv : v = w
    · subst hv
      exact iff_of_false (List.not_mem_nil) hw'
    · exact (h.waits v).trans (ho v hv).1.symm
  · by_cases hv : v = w
    · subst hv
      exact iff_of_false nofun hh'
    · refine iff_of_false nofun fun hhv => hv ?_
      have := (h.holds v).mpr ((ho v hv).2.mp hhv)
      rw [hsome] at this
      exact (Option.some.inj this).symm

/-- A signal of `u` finds `w` in the queue. -/
theorem SemOk.hand {u : W} {rest : List W}
    (h : SemOk free holder (w :: rest) waits holds) (hne : u ≠ w)
    (ho : ∀ v, v ≠ u → v ≠ w → (waits' v ↔ waits v) ∧ (holds' v ↔ holds v))
    (hu : holds u) (huw' : ¬waits' u) (huh' : ¬holds' u) (huw : ¬waits u)
    (hw' : ¬waits' w) (hh' : holds' w) :
    SemOk free (some w) rest waits' holds' := by
  have hsome := (h.holds u).mpr hu
  have hnodup := List.nodup_cons.mp h.nodup
  refine ⟨?_, hnodup.2, fun v => ?_, fun v => ?_⟩
  · refine h.free.trans (iff_of_false ?_ nofun)
    rw [hsome]
    exact nofun
  · by_cases hv : v = w
    · subst hv
      exact iff_of_false hnodup.1 hw'
    have hmem : v ∈ rest ↔ waits v := by
      rw [← h.waits v, List.mem_cons, or_iff_right hv]
    by_cases hvu : v = u
    · subst hvu
      exact hmem.trans (iff_of_false huw huw')
    · exact hmem.trans (ho v hvu hv).1.symm
  · by_cases hv : v = w
    · subst hv
      exact iff_of_true rfl hh'
    refine iff_of_false (fun he => hv (Option.some.inj he).symm) fun hhv => ?_
    by_cases hvu : v = u
    · subst hvu
      exact huh' hhv
    · have := (h.holds v).mpr ((ho v hvu hv).2.mp hhv)
      rw [hsome] at this
      exact hvu (Option.some.inj this).symm

/-- Who waits gives up. -/
theorem SemOk.erase (h : SemOk free holder queue waits holds)
    (ho : Only w waits holds waits' holds') (hw' : ¬waits' w) (hh : ¬holds w)
    (hh' : ¬holds' w) :
    SemOk free holder (queue.erase w) waits' holds' := by
  refine ⟨h.free, h.nodup.erase w, fun v => ?_, fun v => ?_⟩
  · rw [h.nodup.mem_erase_iff]
    by_cases hv : v = w
    · subst hv
      exact iff_of_false (fun hm => hm.1 rfl) hw'
    · rw [(ho v hv).1, ← h.waits v]
      exact and_iff_right hv
  · by_cases hv : v = w
    · subst hv
      exact (h.holds v).trans (iff_of_false hh hh')
    · exact (h.holds v).trans (ho v hv).2.symm

omit decW in
/-- And makes the semaphore free. -/
theorem SemOk.freed (h : SemOk free none queue waits holds) :
    SemOk true none queue waits holds :=
  ⟨iff_of_true rfl rfl, h.nodup, h.waits, h.holds⟩

end Semaphore

/-! ## Both semaphores -/

/-- **BOTH SEMAPHORES ARE RIGHT**. -/
def Sems (s : Fifo T) : Prop :=
  ∀ side, SemOk (s.semFree side) (s.holder side) (s.queue side) (s.waits side) (s.holds side)

section Semaphores

variable {s s' : Fifo T} {side : Side} {p : Proc T} {pc : Pc} {v w : Who T}

omit decT in
theorem not_waits_of_holds (h : s.holds side w) : ¬s.waits side w := by
  cases w with
  | proc p =>
    rintro ⟨-, hq⟩
    have hin := h.2
    rw [hq] at hin
    exact nomatch hin
  | resizer =>
    rintro ⟨rfl, x, hq⟩
    have hin : s.rsz.holds .recv = true := h
    rw [hq] at hin
    exact nomatch hin

omit decT in
/-- Nothing that the semaphores see has changed. -/
theorem Sems.same (h : Sems s) (hf : s'.semFree = s.semFree)
    (hh : s'.holder = s.holder) (hq : s'.queue = s.queue)
    (hws : ∀ d v, s'.waits d v ↔ s.waits d v)
    (hhs : ∀ d v, s'.holds d v ↔ s.holds d v) : Sems s' := by
  intro d
  rw [hf, hh, hq]
  exact (h d).congr (hws d) (hhs d)

/-- A process goes on inside, or outside. -/
theorem Sems.moves (h : Sems s) (hf : s'.semFree = s.semFree)
    (hh : s'.holder = s.holder) (hq : s'.queue = s.queue)
    (hr : s'.rsz = s.rsz) (hp : s'.pc = Function.update s.pc p pc)
    (hin : pc.inside = (s.pc p).inside) (hw : pc ≠ .queued) (hw' : s.pc p ≠ .queued) :
    Sems s' := by
  refine h.same hf hh hq (fun d v => ?_) fun d v => ?_
  · cases v with
    | proc q =>
      show _ ∧ s'.pc q = _ ↔ _ ∧ s.pc q = _
      rw [hp]
      by_cases hqp : q = p
      · subst hqp
        rw [Function.update_self]
        exact and_congr_right fun _ => iff_of_false hw hw'
      · rw [Function.update_of_ne hqp]
    | resizer =>
      show _ ∧ (∃ x, s'.rsz = _) ↔ _ ∧ ∃ x, s.rsz = _
      rw [hr]
  · cases v with
    | proc q =>
      show _ ∧ (s'.pc q).inside = _ ↔ _ ∧ (s.pc q).inside = _
      rw [hp]
      by_cases hqp : q = p
      · subst hqp
        rw [Function.update_self, hin]
      · rw [Function.update_of_ne hqp]
    | resizer =>
      show s'.rsz.holds d = _ ↔ s.rsz.holds d = _
      rw [hr]

omit decT in
/-- `rtf_resize` goes on. -/
theorem Sems.resizes (h : Sems s) (hf : s'.semFree = s.semFree)
    (hh : s'.holder = s.holder) (hq : s'.queue = s.queue)
    (hp : s'.pc = s.pc) (hin : ∀ d, s'.rsz.holds d = s.rsz.holds d)
    (hw : ∀ x, s'.rsz ≠ .queued x) (hw' : ∀ x, s.rsz ≠ .queued x) : Sems s' := by
  refine h.same hf hh hq (fun d v => ?_) fun d v => ?_
  · cases v with
    | proc q =>
      show _ ∧ s'.pc q = _ ↔ _
      rw [hp]
      rfl
    | resizer =>
      exact and_congr_right fun _ => iff_of_false (fun ⟨x, hx⟩ => hw x hx)
        fun ⟨x, hx⟩ => hw' x hx
  · cases v with
    | proc q =>
      show _ ∧ (s'.pc q).inside = _ ↔ _
      rw [hp]
      rfl
    | resizer =>
      show s'.rsz.holds d = _ ↔ s.rsz.holds d = _
      rw [hin]

omit decT in
/-- Only one semaphore has changed. -/
theorem Sems.on (h : Sems s) (side : Side) (hf : ∀ d, d ≠ side → s'.semFree d = s.semFree d)
    (hh : ∀ d, d ≠ side → s'.holder d = s.holder d)
    (hq : ∀ d, d ≠ side → s'.queue d = s.queue d)
    (hws : ∀ d, d ≠ side → ∀ v, s'.waits d v ↔ s.waits d v)
    (hhs : ∀ d, d ≠ side → ∀ v, s'.holds d v ↔ s.holds d v)
    (hd : SemOk (s'.semFree side) (s'.holder side) (s'.queue side)
      (s'.waits side) (s'.holds side)) : Sems s' := by
  intro d
  by_cases hds : d = side
  · rw [hds]
    exact hd
  · rw [hf d hds, hh d hds, hq d hds]
    exact (h d).congr (hws d hds) (hhs d hds)

/-- A process is on one side only. -/
theorem proc_elsewhere (hr : s'.rsz = s.rsz)
    (hp : s'.pc = Function.update s.pc p pc) {d : Side} (hd : d ≠ p.side)
    (v : Who T) :
    (s'.waits d v ↔ s.waits d v) ∧ (s'.holds d v ↔ s.holds d v) := by
  cases v with
  | proc q =>
    show (_ ∧ s'.pc q = _ ↔ _ ∧ s.pc q = _) ∧
      (_ ∧ (s'.pc q).inside = _ ↔ _ ∧ (s.pc q).inside = _)
    by_cases hqp : q = p
    · subst hqp
      exact ⟨iff_of_false (fun hn => hd hn.1.symm) fun hn => hd hn.1.symm,
        iff_of_false (fun hn => hd hn.1.symm) fun hn => hd hn.1.symm⟩
    · rw [hp, Function.update_of_ne hqp]
      exact ⟨Iff.rfl, Iff.rfl⟩
  | resizer =>
    show (_ ∧ (∃ x, s'.rsz = _) ↔ _ ∧ ∃ x, s.rsz = _) ∧
      (s'.rsz.holds d = _ ↔ s.rsz.holds d = _)
    rw [hr]
    exact ⟨Iff.rfl, Iff.rfl⟩

theorem only_proc (hr : s'.rsz = s.rsz) (hp : s'.pc = Function.update s.pc p pc) (d : Side) :
    Only (.proc p) (s.waits d) (s.holds d) (s'.waits d) (s'.holds d) := by
  intro v hv
  cases v with
  | proc q =>
    have hqp : q ≠ p := fun he => hv (he ▸ rfl)
    show (_ ∧ s'.pc q = _ ↔ _ ∧ s.pc q = _) ∧
      (_ ∧ (s'.pc q).inside = _ ↔ _ ∧ (s.pc q).inside = _)
    rw [hp, Function.update_of_ne hqp]
    exact ⟨Iff.rfl, Iff.rfl⟩
  | resizer =>
    show (_ ∧ (∃ x, s'.rsz = _) ↔ _ ∧ ∃ x, s.rsz = _) ∧
      (s'.rsz.holds d = _ ↔ s.rsz.holds d = _)
    rw [hr]
    exact ⟨Iff.rfl, Iff.rfl⟩

omit decT in
theorem only_resizer (hp : s'.pc = s.pc) (d : Side) :
    Only .resizer (s.waits d) (s.holds d) (s'.waits d) (s'.holds d) := by
  intro v hv
  cases v with
  | proc q =>
    show (_ ∧ s'.pc q = _ ↔ _ ∧ s.pc q = _) ∧
      (_ ∧ (s'.pc q).inside = _ ↔ _ ∧ (s.pc q).inside = _)
    rw [hp]
    exact ⟨Iff.rfl, Iff.rfl⟩
  | resizer => exact absurd rfl hv

/-- What a signal does to who is at the head of the queue. -/
theorem hand_status (rest : List (Who T)) (hw : s.waits side w) :
    (∀ d v, v ≠ w → ((s.hand side rest w).waits d v ↔ s.waits d v) ∧
      ((s.hand side rest w).holds d v ↔ s.holds d v)) ∧
    (∀ d, d ≠ side → ((s.hand side rest w).waits d w ↔ s.waits d w) ∧
      ((s.hand side rest w).holds d w ↔ s.holds d w)) ∧
    ¬(s.hand side rest w).waits side w ∧ (s.hand side rest w).holds side w := by
  cases w with
  | proc p =>
    obtain ⟨hside, hpc⟩ := hw
    have hr : (s.hand side rest (.proc p)).rsz = s.rsz := rfl
    have hp : (s.hand side rest (.proc p)).pc = Function.update s.pc p .handed := rfl
    have hself : (s.hand side rest (.proc p)).pc p = .handed := by
      rw [hp, Function.update_self]
    refine ⟨fun d v hv => only_proc hr hp d v hv,
      fun d hd => proc_elsewhere hr hp (hside ▸ hd) _, ?_, hside, ?_⟩
    · rintro ⟨-, hq⟩
      rw [hself] at hq
      exact nomatch hq
    · rw [hself]
      rfl
  | resizer =>
    obtain ⟨rfl, x, hx⟩ := hw
    have hr : (s.hand .recv rest .resizer).rsz = .handed x := by
      show (match s.rsz with | .queued x => Rsz.handed x | r => r) = _
      rw [hx]
    refine ⟨fun d v hv => @only_resizer T s (s.hand .recv rest .resizer) rfl d v hv,
      fun d hd => ?_, ?_, ?_⟩
    · cases d with
      | send =>
        refine ⟨iff_of_false (fun hn => nomatch hn.1) (fun hn => nomatch hn.1), ?_⟩
        show Rsz.holds _ _ = _ ↔ s.rsz.holds _ = _
        rw [hr, hx]
        rfl
      | recv => exact absurd rfl hd
    · rintro ⟨-, y, hy⟩
      rw [hr] at hy
      exact nomatch hy
    · show Rsz.holds _ _ = _
      rw [hr]
      rfl

/-- **A SIGNAL** of `u`, who leaves. -/
theorem Sems.signal (h : Sems s) {u : Who T} (hu : s.holds side u)
    (hf : s'.semFree = (s.mbxSemSignal side).semFree)
    (hh : s'.holder = (s.mbxSemSignal side).holder)
    (hq : s'.queue = (s.mbxSemSignal side).queue)
    (hst : ∀ d, Only u ((s.mbxSemSignal side).waits d) ((s.mbxSemSignal side).holds d)
      (s'.waits d) (s'.holds d))
    (hout : ¬s'.waits side u ∧ ¬s'.holds side u)
    (hother : ∀ d, d ≠ side → (s'.waits d u ↔ s.waits d u) ∧
      (s'.holds d u ↔ s.holds d u)) : Sems s' := by
  -- nobody waits, or the first one is handed the semaphore
  cases hqueue : s.queue side with
  | nil =>
    have hsig : s.mbxSemSignal side =
        { s with
          semFree := Function.update s.semFree side true
          holder := Function.update s.holder side none } := by
      unfold Fifo.mbxSemSignal
      rw [hqueue]
    rw [hsig] at hf hh hq hst
    refine h.on side (fun d hd => ?_) (fun d hd => ?_) (fun d _ => ?_)
      (fun d hd v => ?_) (fun d hd v => ?_) ?_
    · rw [hf]
      exact Function.update_of_ne hd _ _
    · rw [hh]
      exact Function.update_of_ne hd _ _
    · rw [hq]
    · by_cases hv : v = u
      · rw [hv]
        exact (hother d hd).1
      · exact (hst d v hv).1
    · by_cases hv : v = u
      · rw [hv]
        exact (hother d hd).2
      · exact (hst d v hv).2
    · have hside := h side
      rw [hqueue] at hside
      rw [hf, hh, hq]
      dsimp only
      rw [Function.update_self, Function.update_self, hqueue]
      exact hside.give (hst side) hout.1 hu hout.2
  | cons w rest =>
    have hsig : s.mbxSemSignal side = s.hand side rest w := by
      unfold Fifo.mbxSemSignal
      rw [hqueue]
    have hwait : s.waits side w := by
      refine ((h side).waits w).mp ?_
      rw [hqueue]
      exact List.mem_cons_self
    have hne : u ≠ w := by
      rintro rfl
      exact not_waits_of_holds hu hwait
    obtain ⟨hsame, helse, hno, hyes⟩ := hand_status rest hwait
    have hfields : (s.hand side rest w).semFree = s.semFree ∧
        (s.hand side rest w).holder = Function.update s.holder side (some w) ∧
        (s.hand side rest w).queue = Function.update s.queue side rest := by
      cases w <;> exact ⟨rfl, rfl, rfl⟩
    rw [hsig] at hf hh hq hst
    rw [hfields.1] at hf
    rw [hfields.2.1] at hh
    rw [hfields.2.2] at hq
    have hall : ∀ d v, v ≠ u → v ≠ w → (s'.waits d v ↔ s.waits d v) ∧
        (s'.holds d v ↔ s.holds d v) := fun d v hvu hvw =>
      ⟨(hst d v hvu).1.trans (hsame d v hvw).1, (hst d v hvu).2.trans (hsame d v hvw).2⟩
    have hall' : ∀ d, d ≠ side → ∀ v, (s'.waits d v ↔ s.waits d v) ∧
        (s'.holds d v ↔ s.holds d v) := by
      intro d hd v
      by_cases hvu : v = u
      · rw [hvu]
        exact hother d hd
      by_cases hvw : v = w
      · rw [hvw]
        exact ⟨(hst d w hne.symm).1.trans (helse d hd).1,
          (hst d w hne.symm).2.trans (helse d hd).2⟩
      · exact hall d v hvu hvw
    refine h.on side (fun d _ => ?_) (fun d hd => ?_) (fun d hd => ?_)
      (fun d hd v => (hall' d hd v).1) (fun d hd v => (hall' d hd v).2) ?_
    · rw [hf]
    · rw [hh]
      exact Function.update_of_ne hd _ _
    · rw [hq]
      exact Function.update_of_ne hd _ _
    · have hside := h side
      rw [hqueue] at hside
      rw [hf, hh, hq, Function.update_self, Function.update_self]
      exact hside.hand hne (hall side) hu hout.1 hout.2 (not_waits_of_holds hu)
        (fun hn => hno (((hst side w hne.symm).1).mp hn))
        ((hst side w hne.symm).2.mpr hyes)

/-- Only `w` has moved, and only on one side. -/
structure MovesOn (s s' : Fifo T) (side : Side) (w : Who T) : Prop where
  only : ∀ d, Only w (s.waits d) (s.holds d) (s'.waits d) (s'.holds d)
  elsewhere : ∀ d, d ≠ side → (s'.waits d w ↔ s.waits d w) ∧ (s'.holds d w ↔ s.holds d w)

theorem movesOn_proc (hr : s'.rsz = s.rsz) (hp : s'.pc = Function.update s.pc p pc) :
    MovesOn s s' p.side (.proc p) :=
  ⟨only_proc hr hp, fun _ hd => proc_elsewhere hr hp hd _⟩

omit decT in
theorem movesOn_resizer (hp : s'.pc = s.pc)
    (hd : ∀ d, d ≠ side → s'.rsz.holds d = s.rsz.holds d)
    (hq : side ≠ .recv → ∀ x, s'.rsz ≠ .queued x ∧ s.rsz ≠ .queued x) :
    MovesOn s s' side .resizer := by
  refine ⟨only_resizer hp, fun d hne => ⟨?_, ?_⟩⟩
  · refine and_congr_right ?_
    rintro rfl
    exact iff_of_false (fun ⟨x, hx⟩ => (hq (Ne.symm hne) x).1 hx)
      fun ⟨x, hx⟩ => (hq (Ne.symm hne) x).2 hx
  · show _ = true ↔ _ = true
    rw [hd d hne]

theorem MovesOn.all (h : MovesOn s s' side w) {d : Side} (hd : d ≠ side) (v : Who T) :
    (s'.waits d v ↔ s.waits d v) ∧ (s'.holds d v ↔ s.holds d v) := by
  by_cases hv : v = w
  · rw [hv]
    exact h.elsewhere d hd
  · exact h.only d v hv

/-- **A SEMAPHORE IS TAKEN**. -/
theorem Sems.take (h : Sems s) (hm : MovesOn s s' side w)
    (hfree : s.semFree side = true) (hf : s'.semFree = (s.take side w).semFree)
    (hh : s'.holder = (s.take side w).holder)
    (hq : s'.queue = s.queue) (hw : ¬s.waits side w) (hw' : ¬s'.waits side w)
    (hh' : s'.holds side w) : Sems s' := by
  refine h.on side (fun d hd => ?_) (fun d hd => ?_) (fun d _ => ?_)
    (fun d hd v => (hm.all hd v).1) (fun d hd v => (hm.all hd v).2) ?_
  · rw [hf]
    exact Function.update_of_ne hd _ _
  · rw [hh]
    exact Function.update_of_ne hd _ _
  · rw [hq]
  · have hside := (h side).take hfree (hm.only side) hw hw' hh'
    rw [hf, hh, hq]
    unfold Fifo.take
    dsimp only
    rw [Function.update_self, Function.update_self]
    exact hside

/-- **A SEMAPHORE IS WAITED FOR**. -/
theorem Sems.enqueue (h : Sems s) (hm : MovesOn s s' side w) (i : Nat)
    (hf : s'.semFree = s.semFree) (hh : s'.holder = s.holder)
    (hq : s'.queue = (s.enqueue side w i).queue) (hw : ¬s.waits side w)
    (hw' : s'.waits side w) (hhw : ¬s.holds side w) (hh' : ¬s'.holds side w) :
    Sems s' := by
  refine h.on side (fun d _ => ?_) (fun d _ => ?_) (fun d hd => ?_)
    (fun d hd v => (hm.all hd v).1) (fun d hd v => (hm.all hd v).2) ?_
  · rw [hf]
  · rw [hh]
  · rw [hq]
    exact Function.update_of_ne hd _ _
  · have hside := (h side).enqueue i (hm.only side) hw hw' hhw hh'
    rw [hf, hh, hq]
    unfold Fifo.enqueue
    dsimp only
    rw [Function.update_self]
    exact hside

/-- **WHO WAITS GIVES UP**. -/
theorem Sems.giveUp (h : Sems s) (hm : MovesOn s s' side w)
    (hlast : (s.queue side).erase w = [] → s.holder side = none)
    (hf : s'.semFree = (s.giveUp side w).semFree) (hh : s'.holder = s.holder)
    (hq : s'.queue = (s.giveUp side w).queue)
    (hw' : ¬s'.waits side w) (hhw : ¬s.holds side w) (hh' : ¬s'.holds side w) :
    Sems s' := by
  have hside := (h side).erase (hm.only side) hw' hhw hh'
  have hself : Function.update s.queue side ((s.queue side).erase w) side =
      (s.queue side).erase w := Function.update_self _ _ _
  by_cases hnil : (s.queue side).erase w = []
  · have hgive : s.giveUp side w =
        { s with
          queue := Function.update s.queue side ((s.queue side).erase w)
          semFree := Function.update s.semFree side true } := by
      unfold Fifo.giveUp
      dsimp only
      rw [if_pos (hself.trans hnil)]
    rw [hgive] at hf hq
    refine h.on side (fun d hd => ?_) (fun d _ => ?_) (fun d hd => ?_)
      (fun d hd v => (hm.all hd v).1) (fun d hd v => (hm.all hd v).2) ?_
    · rw [hf]
      exact Function.update_of_ne hd _ _
    · rw [hh]
    · rw [hq]
      exact Function.update_of_ne hd _ _
    · rw [hlast hnil] at hside
      rw [hf, hh, hq, hlast hnil]
      dsimp only
      rw [Function.update_self, Function.update_self]
      exact hside.freed
  · have hgive : s.giveUp side w =
        { s with queue := Function.update s.queue side ((s.queue side).erase w) } := by
      unfold Fifo.giveUp
      dsimp only
      rw [if_neg (fun he => hnil (hself.symm.trans he))]
    rw [hgive] at hf hq
    refine h.on side (fun d _ => ?_) (fun d _ => ?_) (fun d hd => ?_)
      (fun d hd v => (hm.all hd v).1) (fun d hd v => (hm.all hd v).2) ?_
    · rw [hf]
    · rw [hh]
    · rw [hq]
      exact Function.update_of_ne hd _ _
    · rw [hf, hh, hq]
      dsimp only
      rw [Function.update_self]
      exact hside

/-! ## Every step keeps them -/

omit decT in
theorem out_of_pc (hpc : s.pc p = pc) (hout : pc.inside = false) (hq : pc ≠ .queued)
    (d : Side) : ¬s.waits d (.proc p) ∧ ¬s.holds d (.proc p) := by
  subst hpc
  refine ⟨fun hw => hq hw.2, fun hh => ?_⟩
  have hin := hh.2
  rw [hout] at hin
  exact nomatch hin

theorem goto_pc (s : Fifo T) (p : Proc T) (pc : Pc) : (s.goto p pc).pc p = pc :=
  Function.update_self _ _ _

omit decT in
theorem stand_of_pc (hpc : s.pc p = pc) : (s.waits p.side (.proc p) ↔ pc = .queued) ∧
      (s.holds p.side (.proc p) ↔ pc.inside = true) := by
  subst hpc
  exact ⟨and_iff_right rfl, and_iff_right rfl⟩

theorem Sems.procCall (h : Sems s) {msg : Nat → UInt8} {msgSize : Int} {i : Nat}
    (hs : procCall s p msg msgSize i = some s') : Sems s' := by
  unfold RtaiFifoResize.procCall at hs
  split at hs
  case isFalse => exact nomatch hs
  case isTrue hpc =>
    have hout := out_of_pc hpc rfl nofun p.side
    generalize (if p = Proc.sender then msg else s.msg) = m at hs
    dsimp only at hs
    split at hs
    case isTrue hfree =>
      obtain rfl := Option.some.inj hs
      refine h.take (movesOn_proc rfl rfl) hfree rfl rfl rfl hout.1 ?_ ?_
      · exact fun hw => nomatch (stand_of_pc (goto_pc _ _ _)).1.mp hw
      · exact (stand_of_pc (goto_pc _ _ _)).2.mpr rfl
    case isFalse hfree =>
      obtain rfl := Option.some.inj hs
      refine h.enqueue (movesOn_proc rfl rfl) i rfl rfl rfl hout.1 ?_ hout.2 ?_
      · exact (stand_of_pc (goto_pc _ _ _)).1.mpr rfl
      · exact fun hh => nomatch (stand_of_pc (goto_pc _ _ _)).2.mp hh

theorem Sems.release (h : Sems s) (hpc : (s.pc p).inside = true) :
    Sems ((s.mbxSemSignal p.side).goto p .idle) := by
  have hself : ((s.mbxSemSignal p.side).goto p .idle).pc p = .idle :=
    Function.update_self _ _ _
  have hholds : s.holds p.side (.proc p) := ⟨rfl, hpc⟩
  refine h.signal hholds rfl rfl rfl (fun d => @only_proc T _ (s.mbxSemSignal p.side)
      ((s.mbxSemSignal p.side).goto p .idle) p .idle rfl rfl d)
    (out_of_pc hself rfl nofun p.side) fun d hd => ?_
  exact ⟨iff_of_false (fun hn => hd hn.1.symm) fun hn => hd hn.1.symm,
    iff_of_false (fun hn => hd hn.1.symm) fun hn => hd hn.1.symm⟩

/-- A process that is inside stays inside. -/
theorem Sems.stays (h : Sems s) {s₀ : Fifo T} (hin : (s.pc p).inside = true)
    (hpc : pc.inside = true) (hf : s₀.semFree = s.semFree) (hh : s₀.holder = s.holder)
    (hq : s₀.queue = s.queue) (hr : s₀.rsz = s.rsz)
    (hp : s₀.pc = s.pc) : Sems (s₀.goto p pc) := by
  have hpc' : (s₀.goto p pc).pc = Function.update s.pc p pc := by
    rw [← hp]
    rfl
  refine h.moves hf hh hq hr hpc' (hpc.trans hin.symm) ?_ ?_
  · rintro rfl
    exact nomatch hpc
  · intro he
    rw [he] at hin
    exact nomatch hin

theorem Sems.procStep (h : Sems s) (hs : procStep s p = some s') : Sems s' := by
  unfold RtaiFifoResize.procStep at hs
  split at hs
  case h_1 hpc =>
    have hin : (s.pc p).inside = true := by
      rw [hpc]
      rfl
    split at hs
    · obtain rfl := Option.some.inj hs
      exact h.stays hin rfl rfl rfl rfl rfl rfl
    · split at hs
      · obtain rfl := Option.some.inj hs
        exact h.stays hin rfl rfl rfl rfl rfl rfl
      · obtain rfl := Option.some.inj hs
        exact h.stays hin rfl rfl rfl rfl rfl rfl
  case h_2 hpc =>
    have hin : (s.pc p).inside = true := by
      rw [hpc]
      rfl
    split at hs <;> obtain rfl := Option.some.inj hs
    · exact h.stays hin rfl rfl rfl rfl rfl rfl
    · exact h.stays hin rfl rfl rfl rfl rfl rfl
  case h_3 hpc =>
    have hin : (s.pc p).inside = true := by
      rw [hpc]
      rfl
    dsimp only at hs
    split at hs <;> obtain rfl := Option.some.inj hs
    · exact h.stays hin rfl rfl rfl rfl rfl rfl
    · exact h.stays hin rfl rfl rfl rfl rfl rfl
  case h_4 hpc =>
    have hin : (s.pc p).inside = true := by
      rw [hpc]
      rfl
    dsimp only at hs
    split at hs <;> obtain rfl := Option.some.inj hs
    · exact h.stays hin rfl rfl rfl rfl rfl rfl
    · exact h.stays hin rfl rfl rfl rfl rfl rfl
  case h_5 hpc =>
    obtain rfl := Option.some.inj hs
    refine h.stays ?_ rfl rfl rfl rfl rfl rfl
    rw [hpc]
    rfl
  case h_6 hpc =>
    obtain rfl := Option.some.inj hs
    refine h.release ?_
    rw [hpc]
    rfl
  case h_7 => exact nomatch hs

/-- A process gives up. -/
theorem Sems.procGiveUp (h : Sems s) (hpc : s.pc p = .queued)
    (hlast : LastLeaves s p.side (.proc p) → s.holder p.side = none) :
    Sems ((s.giveUp p.side (.proc p)).goto p .idle) := by
  have hwait : s.waits p.side (.proc p) := ⟨rfl, hpc⟩
  have hfields : ∀ s₀, s₀ = s.giveUp p.side (.proc p) → s₀.holder = s.holder ∧
      s₀.rsz = s.rsz ∧ s₀.pc = s.pc := by
    rintro s₀ rfl
    unfold Fifo.giveUp
    dsimp only
    split <;> exact ⟨rfl, rfl, rfl⟩
  obtain ⟨hh, hr, hp⟩ := hfields _ rfl
  have hpc' : ((s.giveUp p.side (.proc p)).goto p .idle).pc =
      Function.update s.pc p .idle := by
    rw [← hp]
    rfl
  have hself : ((s.giveUp p.side (.proc p)).goto p .idle).pc p = .idle :=
    Function.update_self _ _ _
  have hout := out_of_pc hself rfl nofun p.side
  exact h.giveUp (movesOn_proc hr hpc') (fun hnil => hlast ⟨hwait, hnil⟩) rfl hh rfl
    hout.1 (fun hn => not_waits_of_holds hn hwait) hout.2

theorem Sems.procWake (h : Sems s)
    (hlast : LastLeaves s p.side (.proc p) → s.holder p.side = none)
    (hs : procWake s p = some s') : Sems s' := by
  unfold RtaiFifoResize.procWake at hs
  split at hs
  case h_1 hpc =>
    obtain rfl := Option.some.inj hs
    exact h.procGiveUp hpc hlast
  case h_2 hpc =>
    obtain rfl := Option.some.inj hs
    refine h.stays ?_ rfl rfl rfl rfl rfl rfl
    rw [hpc]
    rfl
  case h_3 hpc =>
    have hin : (s.pc p).inside = true := by
      rw [hpc]
      rfl
    split at hs <;> obtain rfl := Option.some.inj hs
    · exact h.stays hin rfl rfl rfl rfl rfl rfl
    · exact h.stays hin rfl rfl rfl rfl rfl rfl
  case h_4 => exact nomatch hs

theorem Sems.procInterrupt (h : Sems s)
    (hlast : LastLeaves s p.side (.proc p) → s.holder p.side = none)
    (hhanded : s.pc p ≠ .handed) (hs : procInterrupt s p = some s') : Sems s' := by
  unfold RtaiFifoResize.procInterrupt at hs
  split at hs
  case h_1 hpc =>
    obtain rfl := Option.some.inj hs
    exact h.procGiveUp hpc hlast
  case h_2 hpc => exact absurd hpc hhanded
  case h_3 hpc =>
    obtain rfl := Option.some.inj hs
    refine h.stays ?_ rfl rfl rfl rfl rfl rfl
    rw [hpc]
    rfl
  case h_4 => exact nomatch hs

omit decT in
theorem Sems.rtfResize (h : Sems s) {size : Int} {got : Bool}
    (hs : rtfResize s size got = some s') : Sems s' := by
  have hgo : ∀ {s₀ : Fifo T}, s₀.semFree = s.semFree → s₀.holder = s.holder →
      s₀.queue = s.queue → s₀.pc = s.pc →
      (∀ d, s₀.rsz.holds d = false) → (∀ d, s.rsz.holds d = false) →
      (∀ x, s₀.rsz ≠ .queued x) → (∀ x, s.rsz ≠ .queued x) → Sems s₀ :=
    fun hf hh hq hp hin hin' hw hw' =>
      h.resizes hf hh hq hp (fun d => (hin d).trans (hin' d).symm) hw hw'
  unfold RtaiFifoResize.rtfResize at hs
  split at hs
  case h_1 hr =>
    have hin : ∀ d, s.rsz.holds d = false := by
      rw [hr]
      rintro (_ | _) <;> rfl
    have hw : ∀ x, s.rsz ≠ .queued x := by
      rw [hr]
      nofun
    dsimp only at hs
    split at hs
    · obtain rfl := Option.some.inj hs
      exact hgo rfl rfl rfl rfl (by rintro (_ | _) <;> rfl) hin nofun hw
    · split at hs <;> obtain rfl := Option.some.inj hs
      · exact hgo rfl rfl rfl rfl (by rintro (_ | _) <;> rfl) hin nofun hw
      · exact hgo rfl rfl rfl rfl (by rintro (_ | _) <;> rfl) hin nofun hw
  case h_2 hr =>
    obtain rfl := Option.some.inj hs
    refine hgo rfl rfl rfl rfl (by rintro (_ | _) <;> rfl) ?_ nofun ?_
    · rw [hr]
      rintro (_ | _) <;> rfl
    · rw [hr]
      nofun
  case h_3 => exact nomatch hs

/-- A signal of `rtf_resize`. -/
theorem Sems.rszSignal (h : Sems s) {r₀ r : Rsz} (h₀ : s.rsz = r₀)
    (hh : r₀.holds side = true) (hr : r.holds side = false)
    (hd : ∀ d, d ≠ side → r.holds d = r₀.holds d) (hq : ∀ x, r ≠ .queued x)
    (hq' : ∀ x, r₀ ≠ .queued x) : Sems { s.mbxSemSignal side with rsz := r } := by
  subst h₀
  have hholds : s.holds side .resizer := hh
  refine h.signal hholds rfl rfl rfl (fun d => @only_resizer T (s.mbxSemSignal side)
      { s.mbxSemSignal side with rsz := r } rfl d) ⟨?_, ?_⟩ fun d hne => ⟨?_, ?_⟩
  · exact fun hw => hq _ hw.2.choose_spec
  · exact fun hn => nomatch hr.symm.trans hn
  · exact iff_of_false (fun hw => hq _ hw.2.choose_spec) fun hw => hq' _ hw.2.choose_spec
  · show r.holds d = true ↔ s.rsz.holds d = true
    rw [hd d hne]

theorem Sems.rszStep (h : Sems s) {i : Nat} (hs : rszStep s i = some s') : Sems s' := by
  unfold RtaiFifoResize.rszStep at hs
  split at hs
  case h_1 x hr =>
    have hw : ¬s.waits .recv .resizer := fun hn => by
      obtain ⟨y, hy⟩ := hn.2
      exact nomatch hr.symm.trans hy
    have hh : ¬s.holds .recv .resizer := fun hn => by
      have hn' : s.rsz.holds .recv = true := hn
      rw [hr] at hn'
      exact nomatch hn'
    have hmove : ∀ s₀ : Fifo T, s₀.pc = s.pc → s₀.rsz.holds .send = false →
        MovesOn s s₀ .recv .resizer := by
      intro s₀ hp hd
      refine movesOn_resizer hp (fun d hne => ?_) fun hn => absurd rfl hn
      cases d with
      | send =>
        rw [hd, hr]
        rfl
      | recv => exact absurd rfl hne
    split at hs
    case isTrue hfree =>
      obtain rfl := Option.some.inj hs
      refine h.take (hmove _ rfl rfl) hfree rfl rfl rfl hw ?_ rfl
      exact fun hn => nomatch hn.2.choose_spec
    case isFalse =>
      obtain rfl := Option.some.inj hs
      exact h.enqueue (hmove _ rfl rfl) i rfl rfl rfl hw ⟨rfl, x, rfl⟩ hh nofun
  case h_2 x hr =>
    have hq : ∀ y, s.rsz ≠ .queued y := by
      rw [hr]
      nofun
    split at hs
    case isTrue hfree =>
      obtain rfl := Option.some.inj hs
      refine h.take (movesOn_resizer rfl (fun d hne => ?_)
        fun _ y => ⟨nofun, hq y⟩) hfree rfl rfl rfl nofun nofun rfl
      cases d with
      | send => exact absurd rfl hne
      | recv =>
        rw [hr]
        rfl
    case isFalse =>
      obtain rfl := Option.some.inj hs
      refine h.resizes rfl rfl rfl rfl ?_ nofun hq
      rw [hr]
      rintro (_ | _) <;> rfl
  case h_3 x hr =>
    have hq : ∀ y, s.rsz ≠ .queued y := by
      rw [hr]
      nofun
    split at hs <;> obtain rfl := Option.some.inj hs
    · refine h.resizes rfl rfl rfl rfl ?_ nofun hq
      rw [hr]
      rintro (_ | _) <;> rfl
    · refine h.resizes rfl rfl rfl rfl ?_ nofun hq
      rw [hr]
      rintro (_ | _) <;> rfl
  case h_4 x semval hr =>
    have hq : ∀ y, s.rsz ≠ .queued y := by
      rw [hr]
      nofun
    split at hs
    · split at hs <;> obtain rfl := Option.some.inj hs
      case isTrue hv =>
        subst hv
        refine h.resizes rfl rfl rfl rfl ?_ nofun hq
        rw [hr]
        rintro (_ | _) <;> rfl
      case isFalse hv =>
        obtain rfl := Bool.eq_false_of_not_eq_true hv
        refine h.resizes rfl rfl rfl rfl ?_ nofun hq
        rw [hr]
        rintro (_ | _) <;> rfl
    · obtain rfl := Option.some.inj hs
      refine h.resizes rfl rfl rfl rfl ?_ nofun hq
      rw [hr]
      rintro (_ | _) <;> cases semval <;> rfl
  case h_5 x semval j hr =>
    have hq : ∀ y, s.rsz ≠ .queued y := by
      rw [hr]
      nofun
    split at hs
    · dsimp only at hs
      obtain rfl := Option.some.inj hs
      refine h.resizes rfl rfl rfl rfl ?_ nofun hq
      rw [hr]
      rintro (_ | _) <;> rfl
    · obtain rfl := Option.some.inj hs
      refine h.resizes rfl rfl rfl rfl ?_ nofun hq
      rw [hr]
      rintro (_ | _) <;> rfl
  case h_11 x semval oldbuf hr =>
    have hq : ∀ y, s.rsz ≠ .queued y := by
      rw [hr]
      nofun
    split at hs
    case isTrue hv =>
      obtain rfl := Option.some.inj hs
      subst hv
      refine h.resizes rfl rfl rfl rfl ?_ nofun hq
      rw [hr]
      rintro (_ | _) <;> rfl
    case isFalse hv =>
      obtain rfl := Bool.eq_false_of_not_eq_true hv
      split at hs <;> obtain rfl := Option.some.inj hs
      · refine h.resizes rfl rfl rfl rfl ?_ nofun hq
        rw [hr]
        rintro (_ | _) <;> rfl
      · refine h.resizes rfl rfl rfl rfl ?_ nofun hq
        rw [hr]
        rintro (_ | _) <;> rfl
  case h_12 x oldbuf hr =>
    obtain rfl := Option.some.inj hs
    refine h.rszSignal hr rfl rfl (fun d hne => ?_) nofun nofun
    cases d with
    | send => exact absurd rfl hne
    | recv => rfl
  case h_14 x oldbuf hr =>
    obtain rfl := Option.some.inj hs
    refine h.rszSignal hr rfl rfl (fun d hne => ?_) nofun nofun
    cases d with
    | recv => exact absurd rfl hne
    | send => rfl
  case h_16 x hr =>
    obtain rfl := Option.some.inj hs
    refine h.rszSignal hr rfl rfl (fun d hne => ?_) nofun nofun
    cases d with
    | send => exact absurd rfl hne
    | recv => rfl
  case h_17 x hr =>
    obtain rfl := Option.some.inj hs
    refine h.rszSignal hr rfl rfl (fun d hne => ?_) nofun nofun
    cases d with
    | recv => exact absurd rfl hne
    | send => rfl
  case h_19 => exact nomatch hs
  -- what is left are the writes
  all_goals
    rename_i hr
    obtain rfl := Option.some.inj hs
    refine h.resizes rfl rfl rfl rfl ?_ nofun ?_
    · rw [hr]
      rintro (_ | _) <;> rfl
    · rw [hr]
      nofun

theorem Sems.rszGiveUp (h : Sems s) {x : Locals} {v : Int} (hr : s.rsz = .queued x)
    (hlast : LastLeaves s .recv .resizer → s.holder .recv = none) :
    Sems { s.giveUp .recv .resizer with rsz := .returned v } := by
  have hwait : s.waits .recv .resizer := ⟨rfl, x, hr⟩
  have hfields : ∀ s₀, s₀ = s.giveUp .recv .resizer → s₀.holder = s.holder ∧ s₀.pc = s.pc := by
    rintro s₀ rfl
    unfold Fifo.giveUp
    dsimp only
    split <;> exact ⟨rfl, rfl⟩
  obtain ⟨hh, hp⟩ := hfields _ rfl
  refine h.giveUp (movesOn_resizer hp (fun d hne => ?_) fun hn => absurd rfl hn)
    (fun hnil => hlast ⟨hwait, hnil⟩) rfl hh rfl
    (fun hn => nomatch hn.2.choose_spec) (fun hn => not_waits_of_holds hn hwait) nofun
  cases d with
  | send =>
    rw [hr]
    rfl
  | recv => exact absurd rfl hne

theorem Sems.rszWake (h : Sems s) (hlast : LastLeaves s .recv .resizer → s.holder .recv = none)
    (hs : rszWake s = some s') : Sems s' := by
  unfold RtaiFifoResize.rszWake at hs
  split at hs
  case h_1 x hr =>
    obtain rfl := Option.some.inj hs
    exact h.rszGiveUp hr hlast
  case h_2 x hr =>
    obtain rfl := Option.some.inj hs
    refine h.resizes rfl rfl rfl rfl ?_ nofun ?_
    · rw [hr]
      rintro (_ | _) <;> rfl
    · rw [hr]
      nofun
  case h_3 => exact nomatch hs

theorem Sems.rszInterrupt (h : Sems s)
    (hlast : LastLeaves s .recv .resizer → s.holder .recv = none)
    (hhanded : ∀ x, s.rsz ≠ .handed x) (hs : rszInterrupt s = some s') : Sems s' := by
  unfold RtaiFifoResize.rszInterrupt at hs
  split at hs
  case h_1 x hr =>
    obtain rfl := Option.some.inj hs
    exact h.rszGiveUp hr hlast
  case h_2 x hr => exact absurd hr (hhanded x)
  case h_3 => exact nomatch hs

/-- **EVERY STEP KEEPS THE SEMAPHORES RIGHT**. -/
theorem Sems.step (h : Sems s) {a : Action T} {u : Unit} (ha : Meets s a)
    (hs : fifoStep s a = some (s', u)) : Sems s' := by
  cases a with
  | call p msg msgSize i =>
    obtain ⟨s₁, hs₁, hp⟩ := Option.map_eq_some_iff.mp hs
    cases hp
    exact h.procCall hs₁
  | step p =>
    obtain ⟨s₁, hs₁, hp⟩ := Option.map_eq_some_iff.mp hs
    cases hp
    exact h.procStep hs₁
  | wake p =>
    obtain ⟨s₁, hs₁, hp⟩ := Option.map_eq_some_iff.mp hs
    cases hp
    exact h.procWake ha hs₁
  | interrupt p =>
    obtain ⟨s₁, hs₁, hp⟩ := Option.map_eq_some_iff.mp hs
    cases hp
    exact h.procInterrupt ha.1 ha.2 hs₁
  | resize size got =>
    obtain ⟨s₁, hs₁, hp⟩ := Option.map_eq_some_iff.mp hs
    cases hp
    exact h.rtfResize hs₁
  | rszStep i =>
    obtain ⟨s₁, hs₁, hp⟩ := Option.map_eq_some_iff.mp hs
    cases hp
    exact h.rszStep hs₁
  | rszWake =>
    obtain ⟨s₁, hs₁, hp⟩ := Option.map_eq_some_iff.mp hs
    cases hp
    exact h.rszWake ha hs₁
  | rszInterrupt =>
    obtain ⟨s₁, hs₁, hp⟩ := Option.map_eq_some_iff.mp hs
    cases hp
    exact h.rszInterrupt ha.1 ha.2 hs₁

end Semaphores

end Model

end RtaiFifoResize
