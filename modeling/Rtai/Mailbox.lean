import Rtai.Circular
import Rtai.Kernel

/-! # Mailboxes and their pollers

    `mbx.c` and `_rt_poll`, for any set `T` of tasks and `M` of mailboxes.  A
    call goes on by sections: what it does between two points at which another
    task, or another processor, may get in.  One pass of the loop of `mbxput`
    or of `mbxget` is three sections: the copy, the counters under the lock of
    the mailbox, and the index.

    Of `sndsem` and `rcvsem` only what they are for is kept: one task at a time
    is inside, and one that waits goes in when nobody is, or gives up with an
    error. -/

namespace RtaiMailbox

open RtaiCircular (store segment)
open RtaiKernel (Ret)

/-- The end of a mailbox: `sndsem` and `poll_send`, or `rcvsem` and
    `poll_recv`. -/
inductive Side where
  | send
  | recv
  deriving DecidableEq

/-- `MBX` -/
structure Mbx (T : Type) where
  size : Int
  bufadr : List UInt8
  frbs : Int
  avbs : Int
  /-- Where a receive reads, and where a send writes. -/
  fbyte : Int
  lbyte : Int
  /-- The task inside `sndsem`, and inside `rcvsem`. -/
  sem : Side → Option T
  waitingTask : Option T
  /-- `poll_send` and `poll_recv`: the nodes, each by its poller and its place
      in the list that is polled. -/
  pollq : Side → List (T × Nat)

/-- What a caller does when it cannot go on. -/
inductive Mode where
  | wait
  | until (time : Int)
  /-- `_wp`: as much as possible. -/
  | wp
  /-- `_if`: all or nothing. -/
  | cond
  | ovrwr
  deriving DecidableEq

/-- The arguments and locals of a send or a receive. -/
structure Call (M : Type) where
  side : Side
  mode : Mode
  mbx : M
  /-- `*msg` of a send. -/
  msg : Nat → UInt8
  msgSize : Int
  /-- `msg_size` at the call. -/
  size : Int

/-- What `rt_current->blocked_on` holds after the reschedule. -/
inductive Blocked where
  | null
  /-- The mailbox, or the queue of the `POLL_SEM`. -/
  | ptr
  /-- `RTP_UNBLKD` -/
  | unblkd
  deriving DecidableEq

/-- The next section of a send or a receive. -/
inductive Stage (T : Type) where
  /-- `rt_sem_wait` or `rt_sem_wait_until`. -/
  | semWait
  /-- The test of `while (msg_size)`, and `mbx_wait` if it holds. -/
  | loop
  /-- In the `rt_schedule` of `mbx_wait`. -/
  | asleep (delayed : Bool)
  /-- Behind it. -/
  | woken
  /-- The test of a pass and its copy. -/
  | copy
  | counters (tocpy : Int) (bytes : List UInt8)
  | index (tocpy : Int)
  /-- The inner loop of `mbxovrwrput`, which drops the oldest bytes. -/
  | drop
  | dropCounters (tocpy : Int)
  | dropIndex (tocpy : Int)
  | mbxSignal
  /-- `rt_sem_signal`, with the error that ended the wait, if one did. -/
  | semSignal (error : Option (Ret T))
  /-- `rt_wakeup_pollers`, and then `retval`. -/
  | wakeup (ql : Side) (reason retval : Ret T)

/-- The arguments of `_rt_poll`. -/
structure Poll (M : Type) where
  /-- `what` and `forwhat`. -/
  pds : List (M × Side)
  timeout : Int

/-- What `pollq[i].task` holds. -/
inductive NodeTask (T : Type) where
  | sem
  | null
  | reason (r : Ret T)
  deriving DecidableEq

/-- The next section of `_rt_poll`. -/
inductive PollStage (T : Type) where
  /-- `topoll` of the `i`-th mailbox. -/
  | test (i polled : Nat)
  | link (i polled : Nat)
  /-- `rt_poll_wait` or `rt_poll_wait_until`. -/
  | await
  | asleep (delayed : Bool)
  | woken
  | unlink (i polled : Nat) (semret : Ret T)

/-- Where a task stands. -/
inductive Pc (T M : Type) where
  | idle
  | call (c : Call M) (st : Stage T)
  | poll (p : Poll M) (st : PollStage T)

/-- The mailboxes and the tasks. -/
structure St (T M : Type) where
  mbx : M → Mbx T
  pc : T → Pc T M
  blockedOn : T → Blocked
  resumeTime : T → Int
  priority : T → Int
  /-- `POLL_SEM.wait` of the poll of a task. -/
  wait : T → Bool
  /-- `pollq[i].task` of the poll of a task. -/
  node : T → Nat → NodeTask T
  /-- `get_time()` and `rt_time_h`. -/
  time : Int
  timeH : Int
  /-- A copy has gone outside a buffer. -/
  wild : Bool

/-- What a section shows. -/
inductive Event (T M : Type) where
  | silent
  /-- Bytes of a message that are now in the mailbox. -/
  | accepted (m : M) (bytes : List UInt8)
  /-- Bytes of the mailbox that are now in a message. -/
  | delivered (m : M) (bytes : List UInt8)
  | returned (t : T) (r : Ret T)

/-- `rt_typed_mbx_init`, with the block that `rt_malloc(size)` has returned. -/
def rtTypedMbxInit {T : Type} (bufadr : List UInt8) : Mbx T where
  size := bufadr.length
  bufadr := bufadr
  frbs := bufadr.length
  avbs := 0
  fbyte := 0
  lbyte := 0
  sem := fun _ => none
  waitingTask := none
  pollq := fun _ => []

namespace Mbx

variable {T : Type} (x : Mbx T)

/-- `MOD_SIZE` -/
def modSize (indx : Int) : Int := if indx < x.size then indx else indx - x.size

/-- `frbs` for a send, `avbs` for a receive. -/
def fravbs : Side → Int
  | .send => x.frbs
  | .recv => x.avbs

/-- `lbyte` for a send, `fbyte` for a receive. -/
def byte : Side → Int
  | .send => x.lbyte
  | .recv => x.fbyte

/-- `tocpy` of a pass. -/
def tocpy (side : Side) (msgSize : Int) : Int :=
  let n := if x.size - x.byte side > msgSize then msgSize
    else x.size - x.byte side
  if n > x.fravbs side then x.fravbs side else n

/-- What the sections of a pass do to the counters and the indexes. -/
def fill (n : Int) : Mbx T := { x with frbs := x.frbs - n, avbs := x.avbs + n }

/-- Bytes are taken out. -/
def drain (n : Int) : Mbx T := { x with frbs := x.frbs + n, avbs := x.avbs - n }

/-- An index goes on, round the buffer. -/
def advance : Side → Int → Mbx T
  | .send, n => { x with lbyte := x.modSize (x.lbyte + n) }
  | .recv, n => { x with fbyte := x.modSize (x.fbyte + n) }

end Mbx

/-- `msg_size -= tocpy` and `*msg += tocpy` -/
def Call.advance {M : Type} (c : Call M) (n : Int) : Call M :=
  { c with msgSize := c.msgSize - n, msg := fun i => c.msg (n.toNat + i) }

/-- `memcpy` to a buffer. -/
def memcpyTo (buf : List UInt8) (ofs n : Int) (msg : Nat → UInt8) : Option (List UInt8) :=
  if 0 ≤ ofs ∧ 0 ≤ n ∧ ofs + n ≤ buf.length then
    some (store buf ofs.toNat ((List.range n.toNat).map msg))
  else none

/-- `memcpy` from a buffer. -/
def memcpyFrom (buf : List UInt8) (ofs n : Int) : Option (List UInt8) :=
  if 0 ≤ ofs ∧ 0 ≤ n ∧ ofs + n ≤ buf.length then
    some (segment buf ofs.toNat n.toNat)
  else none

section Sections

variable {T M : Type} [decT : DecidableEq T] [decM : DecidableEq M]

/-- The calls. -/
inductive Request (M : Type) where
  | mbxSend (m : M) (msg : Nat → UInt8) (msgSize : Int)
  | mbxSendWp (m : M) (msg : Nat → UInt8) (msgSize : Int)
  | mbxSendIf (m : M) (msg : Nat → UInt8) (msgSize : Int)
  | mbxSendUntil (m : M) (msg : Nat → UInt8) (msgSize time : Int)
  | mbxOvrwrSend (m : M) (msg : Nat → UInt8) (msgSize : Int)
  | mbxReceive (m : M) (msgSize : Int)
  | mbxReceiveWp (m : M) (msgSize : Int)
  | mbxReceiveIf (m : M) (msgSize : Int)
  | mbxReceiveUntil (m : M) (msgSize time : Int)
  | poll (pds : List (M × Side)) (timeout : Int)

/-- A task moves. -/
def St.goto (s : St T M) (t : T) (pc : Pc T M) : St T M :=
  { s with pc := Function.update s.pc t pc }

/-- A mailbox changes. -/
def St.setMbx (s : St T M) (m : M) (x : Mbx T) : St T M :=
  { s with mbx := Function.update s.mbx m x }

/-- `blocked_on` of a task. -/
def St.block (s : St T M) (t : T) (b : Blocked) : St T M :=
  { s with blockedOn := Function.update s.blockedOn t b }

omit decT in
@[simp] theorem setMbx_self (s : St T M) (m : M) (x : Mbx T) :
    (s.setMbx m x).mbx m = x := Function.update_self ..

omit decT in
theorem setMbx_of_ne {m m' : M} (h : m' ≠ m) (s : St T M) (x : Mbx T) :
    (s.setMbx m x).mbx m' = s.mbx m' := Function.update_of_ne h ..

/-- The task inside a semaphore. -/
def Mbx.setSem (x : Mbx T) (side : Side) (t : Option T) : Mbx T :=
  { x with sem := Function.update x.sem side t }

/-- A list of pollers. -/
def Mbx.setPollq (x : Mbx T) (side : Side) (l : List (T × Nat)) : Mbx T :=
  { x with pollq := Function.update x.pollq side l }

omit decT in
@[simp] theorem setPollq_self (x : Mbx T) (side : Side) (l : List (T × Nat)) :
    (x.setPollq side l).pollq side = l := Function.update_self ..

omit decT in
theorem setPollq_of_ne {side side' : Side} (h : side' ≠ side) (x : Mbx T)
    (l : List (T × Nat)) : (x.setPollq side l).pollq side' = x.pollq side' :=
  Function.update_of_ne h ..

/-! ## Sends and receives -/

/-- Go into the semaphore of the mailbox. -/
def enter (s : St T M) (t : T) (c : Call M) (st : Stage T) : St T M :=
  (s.setMbx c.mbx ((s.mbx c.mbx).setSem c.side (some t))).goto t (.call c st)

/-- The call that waits neither for the semaphore nor for the mailbox. -/
def tryCall (s : St T M) (t : T) (c : Call M) (able : Bool) : St T M × Event T M :=
  if (s.mbx c.mbx).sem c.side = none ∧ able then (enter s t c .copy, .silent)
  else (s, .returned t (.val c.msgSize))

/-- The call that waits for both. -/
def waitCall (s : St T M) (t : T) (c : Call M) : St T M × Event T M :=
  (s.goto t (.call c .semWait), .silent)

/-- A call with all its bytes left. -/
def newCall (side : Side) (mode : Mode) (m : M) (msg : Nat → UInt8) (msgSize : Int) : Call M :=
  { side, mode, mbx := m, msg, msgSize, size := msgSize }

/-- `_rt_mbx_send` -/
def rtMbxSend (s : St T M) (t : T) (m : M) (msg : Nat → UInt8)
    (msgSize : Int) : St T M × Event T M :=
  waitCall s t (newCall .send .wait m msg msgSize)

/-- `_rt_mbx_send_wp` -/
def rtMbxSendWp (s : St T M) (t : T) (m : M) (msg : Nat → UInt8)
    (msgSize : Int) : St T M × Event T M :=
  tryCall s t (newCall .send .wp m msg msgSize) ((s.mbx m).frbs ≠ 0)

/-- `_rt_mbx_send_if` -/
def rtMbxSendIf (s : St T M) (t : T) (m : M) (msg : Nat → UInt8)
    (msgSize : Int) : St T M × Event T M :=
  tryCall s t (newCall .send .cond m msg msgSize) (msgSize ≤ (s.mbx m).frbs)

/-- `_rt_mbx_send_until` -/
def rtMbxSendUntil (s : St T M) (t : T) (m : M) (msg : Nat → UInt8)
    (msgSize time : Int) : St T M × Event T M :=
  waitCall s t (newCall .send (.until time) m msg msgSize)

/-- `_rt_mbx_ovrwr_send`, with the beginning of `mbxovrwrput`: only the end of
    a message that is longer than the buffer is sent. -/
def rtMbxOvrwrSend (s : St T M) (t : T) (m : M) (msg : Nat → UInt8)
    (msgSize : Int) : St T M × Event T M :=
  let n := msgSize - (s.mbx m).size
  let c := newCall .send .ovrwr m msg msgSize
  if (s.mbx m).sem .send = none ∧ n > 0 then
    (enter s t (c.advance n) .copy, .silent)
  else tryCall s t c true

/-- `_rt_mbx_receive` -/
def rtMbxReceive (s : St T M) (t : T) (m : M) (msgSize : Int) : St T M × Event T M :=
  waitCall s t (newCall .recv .wait m (fun _ => 0) msgSize)

/-- `_rt_mbx_receive_wp` -/
def rtMbxReceiveWp (s : St T M) (t : T) (m : M) (msgSize : Int) : St T M × Event T M :=
  tryCall s t (newCall .recv .wp m (fun _ => 0) msgSize) ((s.mbx m).avbs ≠ 0)

/-- `_rt_mbx_receive_if` -/
def rtMbxReceiveIf (s : St T M) (t : T) (m : M) (msgSize : Int) : St T M × Event T M :=
  tryCall s t (newCall .recv .cond m (fun _ => 0) msgSize) (msgSize ≤ (s.mbx m).avbs)

/-- `_rt_mbx_receive_until` -/
def rtMbxReceiveUntil (s : St T M) (t : T) (m : M) (msgSize time : Int) : St T M × Event T M :=
  waitCall s t (newCall .recv (.until time) m (fun _ => 0) msgSize)

/-- What a failed wait for the semaphore returns: `rt_mbx_receive` leaves
    `MBX_RET` out. -/
def semError (c : Call M) (retval : Ret T) : Ret T :=
  match c.side, c.mode with
  | .recv, .wait => .val c.msgSize
  | _, _ => retval

/-- `mbx_wait` and `mbx_wait_until` up to the reschedule. -/
def mbxWait (s : St T M) (t : T) (c : Call M) : St T M :=
  let x := s.mbx c.mbx
  if x.fravbs c.side = 0 then
    match c.mode with
    | .until time =>
      let s := { s with resumeTime := Function.update s.resumeTime t time }
      if time > s.timeH then
        ((s.setMbx c.mbx { x with waitingTask := some t }).block t .ptr).goto t
          (.call c (.asleep true))
      else
        ((s.setMbx c.mbx { x with waitingTask := none }).block t .ptr).goto t
          (.call c (.semSignal (some .timout)))
    | _ =>
      ((s.setMbx c.mbx { x with waitingTask := some t }).block t .ptr).goto t
        (.call c (.asleep false))
  else s.goto t (.call c .copy)

/-- The error that the pointer left in `blocked_on` stands for.  Only the timer
    leaves the mailbox there. -/
def Blocked.error : Blocked → Option (Ret T)
  | .null => none
  | .ptr => some .timout
  | .unblkd => some .unblkd

/-- `mbx_wait` and `mbx_wait_until` after the reschedule. -/
def mbxWaitTail (s : St T M) (t : T) (c : Call M) : St T M :=
  match (s.blockedOn t).error with
  | none => s.goto t (.call c .copy)
  | some r =>
    (s.setMbx c.mbx { s.mbx c.mbx with waitingTask := none }).goto t
      (.call c (.semSignal (some r)))

/-- The copy of a pass of `mbxput`. -/
def mbxputCopy (s : St T M) (t : T) (c : Call M) : St T M :=
  let x := s.mbx c.mbx
  let n := x.tocpy .send c.msgSize
  match memcpyTo x.bufadr x.lbyte n c.msg with
  | none => { s with wild := true }
  | some buf =>
    (s.setMbx c.mbx { x with bufadr := buf }).goto t
      (.call c (.counters n ((List.range n.toNat).map c.msg)))

/-- The copy of a pass of `mbxget`. -/
def mbxgetCopy (s : St T M) (t : T) (c : Call M) : St T M :=
  let x := s.mbx c.mbx
  let n := x.tocpy .recv c.msgSize
  match memcpyFrom x.bufadr x.fbyte n with
  | none => { s with wild := true }
  | some bytes =>
    s.goto t (.call c (.counters n bytes))

/-- The loop test of `mbxput`, of `mbxget` and of `mbxovrwrput`, and the copy
    if there is a pass. -/
def copy (s : St T M) (t : T) (c : Call M) : St T M :=
  match c.side, c.mode with
  | .send, .ovrwr =>
    if c.msgSize > 0 then
      if (s.mbx c.mbx).frbs ≠ 0 then mbxputCopy s t c
      else s.goto t (.call c .drop)
    else s.goto t (.call { c with msgSize := 0 } .mbxSignal)
  | .send, _ =>
    if c.msgSize > 0 ∧ (s.mbx c.mbx).frbs ≠ 0 then mbxputCopy s t c
    else s.goto t (.call c .mbxSignal)
  | .recv, _ =>
    if c.msgSize > 0 ∧ (s.mbx c.mbx).avbs ≠ 0 then mbxgetCopy s t c
    else s.goto t (.call c .mbxSignal)

/-- The counters of a pass. -/
def counters (s : St T M) (t : T) (c : Call M) (n : Int)
    (bytes : List UInt8) : St T M × Event T M :=
  let x := s.mbx c.mbx
  match c.side with
  | .send =>
    ((s.setMbx c.mbx (x.fill n)).goto t
      (.call (c.advance n) (.index n)), .accepted c.mbx bytes)
  | .recv =>
    ((s.setMbx c.mbx (x.drain n)).goto t
      (.call (c.advance n) (.index n)), .delivered c.mbx bytes)

/-- The index of a pass. -/
def index (s : St T M) (t : T) (c : Call M) (n : Int) : St T M :=
  (s.setMbx c.mbx ((s.mbx c.mbx).advance c.side n)).goto t
    (.call c (if c.mode = .ovrwr then .drop else .copy))

/-- The loop test of the inner loop of `mbxovrwrput`. -/
def drop (s : St T M) (t : T) (c : Call M) : St T M :=
  let x := s.mbx c.mbx
  let n := c.msgSize - x.frbs
  if c.msgSize ≠ 0 ∧ n > 0 then
    s.goto t (.call c (.dropCounters (x.tocpy .recv n)))
  else s.goto t (.call c .copy)

/-- The counters of bytes that are dropped. -/
def dropCounters (s : St T M) (t : T) (c : Call M) (n : Int) : St T M :=
  (s.setMbx c.mbx ((s.mbx c.mbx).drain n)).goto t (.call c (.dropIndex n))

/-- Their index. -/
def dropIndex (s : St T M) (t : T) (c : Call M) (n : Int) : St T M :=
  (s.setMbx c.mbx ((s.mbx c.mbx).advance .recv n)).goto t (.call c .drop)

/-- Where a call stands after a pass is over and its waiter is signalled. -/
def Mode.afterSignal : Mode → Stage T
  | .wait => .loop
  | .until _ => .loop
  | _ => .semSignal none

/-- The task that sleeps in `mbx_wait` comes to the instruction after its
    `rt_schedule`. -/
def Pc.readyMbx : Pc T M → Pc T M
  | .call c (.asleep _) => .call c .woken
  | pc => pc

/-- `mbx_signal` -/
def mbxSignal (s : St T M) (m : M) : St T M :=
  match (s.mbx m).waitingTask with
  | none => s
  | some u =>
    ((s.setMbx m { s.mbx m with waitingTask := none }).block u .null).goto u (s.pc u).readyMbx

/-- What follows `rt_sem_signal`: the pollers to wake and the value to
    return. -/
def afterRelease (c : Call M) (error : Option (Ret T)) : Pc T M ⊕ Ret T :=
  match error with
  | some r => .inl (.call c (.wakeup .recv r r))
  | none =>
    let ql := if c.side = .send then Side.recv else Side.send
    match c.mode with
    | .wp =>
      if c.msgSize < c.size then
        .inl (.call c (.wakeup ql (.val 0) (.val c.msgSize)))
      else .inr (.val c.msgSize)
    | .ovrwr => .inr (.val c.msgSize)
    | _ => .inl (.call c (.wakeup ql (.val 0) (.val 0)))

/-- `rt_sem_signal` at the end of a send or a receive. -/
def semSignal (s : St T M) (t : T) (c : Call M) (error : Option (Ret T)) :
    St T M × Event T M :=
  let s := s.setMbx c.mbx ((s.mbx c.mbx).setSem c.side none)
  match afterRelease c error with
  | .inl pc => (s.goto t pc, .silent)
  | .inr r => (s.goto t .idle, .returned t r)

/-! ## Polls -/

/-- A poller is awake. -/
def Pc.readyPoll : Pc T M → Pc T M
  | .poll p (.asleep _) => .poll p .woken
  | pc => pc

/-- A task that is linked in the queue of its `POLL_SEM`. -/
def polling (s : St T M) (t : T) : Bool :=
  match s.pc t with
  | .poll _ (.asleep _) => s.blockedOn t ≠ .null
  | .poll _ .woken => s.blockedOn t ≠ .null
  | _ => false

/-- `rt_poll_signal` -/
def rtPollSignal (s : St T M) (t : T) : St T M :=
  let s' := { s with wait := Function.update s.wait t false }
  if polling s t then (s'.block t .null).goto t (s.pc t).readyPoll else s'

/-- One pass of the loop of `rt_wakeup_pollers`; `none` when the queue is
    empty. -/
def wakeupPoller (s : St T M) (m : M) (ql : Side) (reason : Ret T) : Option (St T M) :=
  match (s.mbx m).pollq ql with
  | [] => none
  | (u, i) :: rest =>
    let s := s.setMbx m ((s.mbx m).setPollq ql rest)
    some (rtPollSignal
      { s with node := Function.update s.node u
                (Function.update (s.node u) i (.reason reason)) } u)

/-- `recv_blocks` and `send_blocks` -/
def topoll (x : Mbx T) (side : Side) : Bool := x.fravbs side ≤ 0

/-- The node of a poller goes behind those of the same or of a higher
    priority. -/
def linkNode (prio : T → Int) (l : List (T × Nat)) (t : T) (i : Nat) : List (T × Nat) :=
  l.takeWhile (fun q => prio q.1 ≤ prio t) ++ (t, i) ::
    l.dropWhile (fun q => prio q.1 ≤ prio t)

/-- A node of a poll. -/
def setNode (s : St T M) (t : T) (i : Nat) (q : NodeTask T) : St T M :=
  { s with node := Function.update s.node t (Function.update (s.node t) i q) }

/-- The test of the `i`-th mailbox. -/
def pollTest (s : St T M) (t : T) (p : Poll M) (i polled : Nat) : St T M :=
  match p.pds[i]? with
  | none =>
    s.goto t (.poll p (if polled = 0 then .await else .unlink 0 0 (.val 0)))
  | some (m, side) =>
    if topoll (s.mbx m) side then s.goto t (.poll p (.link i polled))
    else (setNode s t i .null).goto t (.poll p (.test (i + 1) (polled + 1)))

/-- `rt_poll` links a node. -/
def pollLink (s : St T M) (t : T) (p : Poll M) (i polled : Nat) : St T M :=
  match p.pds[i]? with
  | none => s.goto t (.poll p (.test (i + 1) polled))
  | some (m, side) =>
    let x := s.mbx m
    let s := setNode s t i .sem
    (s.setMbx m (x.setPollq side (linkNode s.priority (x.pollq side) t i))).goto
      t (.poll p (.test (i + 1) polled))

/-- `rt_poll_wait_until` up to the reschedule. -/
def rtPollWaitUntil (s : St T M) (t : T) (p : Poll M) (time : Int) : St T M :=
  if s.wait t then
    let s := { s with resumeTime := Function.update s.resumeTime t time }
    if time > s.timeH then
      (s.block t .ptr).goto t (.poll p (.asleep true))
    else (s.block t .null).goto t (.poll p (.unlink 0 0 .timout))
  else s.goto t (.poll p (.unlink 0 0 (.val 0)))

/-- `rt_poll_wait` up to the reschedule. -/
def rtPollWait (s : St T M) (t : T) (p : Poll M) : St T M :=
  if s.wait t then (s.block t .ptr).goto t (.poll p (.asleep false))
  else s.goto t (.poll p (.unlink 0 0 (.val 0)))

/-- The wait that `timeout` asks for. -/
def pollAwait (s : St T M) (t : T) (p : Poll M) : St T M :=
  if p.timeout < 0 then rtPollWaitUntil s t p (s.time - p.timeout)
  else if p.timeout > 1 then rtPollWaitUntil s t p p.timeout
  else if p.timeout < 1 ∧ p.pds.length > 0 then rtPollWait s t p
  else s.goto t (.poll p (.unlink 0 0 (.val 0)))

/-- `rt_poll_wait` and `rt_poll_wait_until` after the reschedule. -/
def pollWaitTail (s : St T M) (t : T) (p : Poll M) : St T M :=
  (s.block t .null).goto t (.poll p (.unlink 0 0 (((s.blockedOn t).error).getD (.val 0))))

/-- The end of `_rt_poll` for the `i`-th mailbox. -/
def pollUnlink (s : St T M) (t : T) (p : Poll M) (i polled : Nat)
    (semret : Ret T) : St T M × Event T M :=
  match p.pds[i]? with
  | none =>
    (s.goto t .idle, .returned t (if polled = 0 then semret else .val polled))
  | some (m, side) =>
    if s.node t i = .sem then
      let x := s.mbx m
      ((s.setMbx m (x.setPollq side ((x.pollq side).erase (t, i)))).goto t
        (.poll p (.unlink (i + 1) polled semret)), .silent)
    else (s.goto t (.poll p (.unlink (i + 1) (polled + 1) semret)), .silent)

/-- `_rt_poll` up to the first mailbox. -/
def rtPoll (s : St T M) (t : T) (pds : List (M × Side)) (timeout : Int) : St T M × Event T M :=
  ({ s with wait := Function.update s.wait t true }.goto t
    (.poll { pds, timeout } (.test 0 0)), .silent)

/-! ## The steps -/

/-- The next section of a send or a receive. -/
def runCall (s : St T M) (t : T) (c : Call M) : Stage T → Option (St T M × Event T M)
  | .semWait =>
    if (s.mbx c.mbx).sem c.side = none then
      some (enter s t c .loop, .silent)
    else none
  | .loop =>
    if c.msgSize ≠ 0 then some (mbxWait s t c, .silent)
    else some (s.goto t (.call c (.semSignal none)), .silent)
  | .asleep _ => none
  | .woken => some (mbxWaitTail s t c, .silent)
  | .copy => some (copy s t c, .silent)
  | .counters n bytes => some (counters s t c n bytes)
  | .index n => some (index s t c n, .silent)
  | .drop => some (drop s t c, .silent)
  | .dropCounters n => some (dropCounters s t c n, .silent)
  | .dropIndex n => some (dropIndex s t c n, .silent)
  | .mbxSignal =>
    some ((mbxSignal s c.mbx).goto t (.call c c.mode.afterSignal), .silent)
  | .semSignal error => some (semSignal s t c error)
  | .wakeup ql reason retval =>
    match wakeupPoller s c.mbx ql reason with
    | some s' => some (s', .silent)
    | none => some (s.goto t .idle, .returned t retval)

/-- The next section of a poll. -/
def runPoll (s : St T M) (t : T) (p : Poll M) : PollStage T → Option (St T M × Event T M)
  | .test i polled => some (pollTest s t p i polled, .silent)
  | .link i polled => some (pollLink s t p i polled, .silent)
  | .await => some (pollAwait s t p, .silent)
  | .asleep _ => none
  | .woken => some (pollWaitTail s t p, .silent)
  | .unlink i polled semret => some (pollUnlink s t p i polled semret)

/-- The calls. -/
def request (s : St T M) (t : T) : Request M → St T M × Event T M
  | .mbxSend m msg n => rtMbxSend s t m msg n
  | .mbxSendWp m msg n => rtMbxSendWp s t m msg n
  | .mbxSendIf m msg n => rtMbxSendIf s t m msg n
  | .mbxSendUntil m msg n time => rtMbxSendUntil s t m msg n time
  | .mbxOvrwrSend m msg n => rtMbxOvrwrSend s t m msg n
  | .mbxReceive m n => rtMbxReceive s t m n
  | .mbxReceiveWp m n => rtMbxReceiveWp s t m n
  | .mbxReceiveIf m n => rtMbxReceiveIf s t m n
  | .mbxReceiveUntil m n time => rtMbxReceiveUntil s t m n time
  | .poll pds timeout => rtPoll s t pds timeout

/-- The sections. -/
inductive MbxAction (T M : Type) where
  /-- A task outside any call makes one. -/
  | call (t : T) (r : Request M)
  /-- A task executes its next section. -/
  | run (t : T)
  /-- A wait for `sndsem` or `rcvsem` fails. -/
  | giveUp (t : T) (error : Ret T)
  /-- The timer. -/
  | expire (t : T)
  /-- `rt_task_masked_unblock` of a task that sleeps in `mbx_wait` or in
      `_rt_poll`. -/
  | unblock (t : T)
  | tick (time timeH : Int)

/-- A task that sleeps in `mbx_wait` or in `_rt_poll`, and whether the timer
    may wake it. -/
def Pc.sleeps : Pc T M → Option Bool
  | .call _ (.asleep delayed) => some delayed
  | .poll _ (.asleep delayed) => some delayed
  | _ => none

/-- One step.  There is none after a copy has gone outside a buffer. -/
def step (s : St T M) (a : MbxAction T M) : Option (St T M × Event T M) :=
  if s.wild then none
  else
    match a with
    | .call t r =>
      match s.pc t with
      | .idle => some (request s t r)
      | _ => none
    | .run t =>
      match s.pc t with
      | .idle => none
      | .call c st => runCall s t c st
      | .poll p st => runPoll s t p st
    | .giveUp t error =>
      match s.pc t with
      | .call c .semWait =>
        some (s.goto t .idle, .returned t (semError c error))
      | _ => none
    | .expire t =>
      if (s.pc t).sleeps = some true ∧ s.resumeTime t ≤ s.timeH then
        some (s.goto t (s.pc t).readyMbx.readyPoll, .silent)
      else none
    | .unblock t =>
      if (s.pc t).sleeps ≠ none then
        some ((s.block t .unblkd).goto t (s.pc t).readyMbx.readyPoll, .silent)
      else none
    | .tick time timeH => some ({ s with time, timeH }, .silent)

/-- Every mailbox is new and no task is in a call. -/
def boot (buffer : M → List UInt8) (priority : T → Int) : St T M where
  mbx := fun m => rtTypedMbxInit (buffer m)
  pc := fun _ => .idle
  blockedOn := fun _ => .null
  resumeTime := fun _ => 0
  priority := priority
  wait := fun _ => false
  node := fun _ _ => .null
  time := 0
  timeH := 0
  wild := false

end Sections

end RtaiMailbox
