import Rtai.Bystanders

/-! # msg.c: Send, Receive and Reply

    `rt_Send` rpcs the address of a message control block on its stack to the
    task with a pid, and `rt_Receive` and `rt_Creceive` copy the message out of
    the block whose address they have received.  `rt_Reply` finds the block of
    its client through `task->msg` of the client, which holds the plain messages
    and the results of other calls as well.  A call is cut where it looks a task
    up, where it enters the kernel and at each access to a block. -/

namespace RtaiSyncMessages

open RtaiKernel RtaiTaskApi RtaiSched RtaiMsg RtaiSteps RtaiServices
  RtaiBystanders

/-- `MSGCB` -/
structure Msgcb (B : Type) where
  cmd : Int
  sbuf : B
  sbytes : Word
  rbuf : B
  rbytes : Word

/-- The type of the messages. -/
def SYNCMSG : Int := 0

/-- The errors. -/
def EPERM : Int := 1

def ESRCH : Int := 3

def EINVAL : Int := 22

/-- A block on the stack of an `rt_Send`, and what the call has put into it. -/
structure Sending (B : Type) where
  adr : Word
  cb : Msgcb B

/-- Which receive is called. -/
inductive Way where
  /-- `rt_Receive` -/
  | waits
  /-- `rt_Creceive` without a delay. -/
  | polls
  | timed (delay : Int)
  deriving DecidableEq

/-- Where a call stands: what it does next. -/
inductive Job (T B : Type) where
  /-- `rt_rpc` in `rt_Send` -/
  | send (dest : T) (g : Sending B)
  | inRpc (dest : T) (g : Sending B)
  /-- The receive of a short message. -/
  | receive (way : Way) (src : Option T) (msg : B) (maxsize : Word)
  | inReceive (way : Way) (msg : B) (maxsize : Word)
  /-- `rttask2pid(task)` -/
  | pid (way : Way) (got : Ret T) (msg : B) (maxsize : Word)
  /-- `cb->sbytes` -/
  | sbytes (got : Ret T) (pid : Int) (cb : Word) (msg : B) (maxsize : Word)
  /-- `cb->sbuf` and `memcpy` -/
  | sbuf (got : Ret T) (pid : Int) (cb : Word) (msg : B) (msglen : Word)
  /-- `task->msg` in `rt_Reply` -/
  | reply (dest : T) (msg : Word → UInt8) (size : Word)
  /-- `cb->cmd` -/
  | cmd (dest : T) (cb : Word) (msg : Word → UInt8) (size : Word)
  /-- `cb->rbytes` -/
  | rbytes (dest : T) (cb : Word) (msg : Word → UInt8) (size : Word)
  /-- `cb->rbuf` and `memcpy` -/
  | rbuf (dest : T) (cb : Word) (msg : Word → UInt8) (retlen : Word)
  /-- `rt_return(task, retlen)` -/
  | ret (dest : T) (retlen : Word)

/-- The task whose block an `rt_Reply` is about to use. -/
def Job.client {T B : Type} : Job T B → Option T
  | .reply dest _ _ => some dest
  | .cmd dest _ _ _ => some dest
  | .rbytes dest _ _ _ => some dest
  | .rbuf dest _ _ _ => some dest
  | _ => none

/-- The block of an `rt_Send`. -/
def Job.sending {T B : Type} : Job T B → Option (Sending B)
  | .send _ g => some g
  | .inRpc _ g => some g
  | _ => none

/-- What is recorded of the calls. -/
inductive Event (T B : Type) where
  /-- `rt_Reply` has read the block at `adr`, and stored so many bytes.  `call`
      is the `rt_Send` in which the client waits for the return of the calling
      task. -/
  | access (call : Option (Sending B)) (adr : Word) (stored : Option (B × Word))
  /-- `rt_Reply` has returned, with or without having used the block. -/
  | replied (used : Bool) (value : Int)
  /-- A receive has read the block after the short message has been received
      with this result. -/
  | read (got : Ret T)
  | received (got : Ret T) (value : Int)
  | sent (value : Int)

/-- The tasks with their messages. -/
structure Syncs (T S B : Type) where
  kernel : Kernel T S
  /-- What is found at an address that is taken for a block. -/
  mem : Word → Msgcb B
  buf : B → Word → UInt8
  job : T → Option (Job T B)
  /-- An error code has been taken for a task. -/
  wild : Bool
  log : List (Event T B)

/-- The list of tasks, and `task->tid`. -/
structure Pids (T : Type) where
  tasks : List T
  tid : T → Int

/-- The calls and sections. -/
inductive SAction (T S B : Type) where
  | send (c : T) (pid : Int) (smsg rmsg : B) (ssize rsize adr : Word)
  | receive (c : T) (pid : Int) (msg : B) (maxsize : Word)
  | creceive (c : T) (pid : Int) (msg : B) (maxsize : Word) (delay : Int)
  | reply (c : T) (pid : Int) (msg : Word → UInt8) (size : Word)
  /-- The next section of such a call, at time `now`. -/
  | goOn (c : T) (now : Int)
  /-- A service of the short messages. -/
  | short (c : T) (op : Op T S)
  /-- The task comes back from `rt_schedule` in one of these. -/
  | cont (c : T)
  /-- A service that is about no message, or the scheduler. -/
  | sched (a : Action T S)
  | delete (who : Option T) (t : T)
  /-- Somebody writes memory that is in no block of an `rt_Send`. -/
  | store (adr : Word) (m : Msgcb B)
  | write (b : B) (bytes : Word → UInt8)

section Model

variable {T S B : Type} [DecidableEq T] [DecidableEq S] [Fintype T] [Fintype S]
  [DecidableEq B] (P : Pids T)

/-- `pid2rttask`, that is `rt_find_task_by_pid`: a deleted task is in the list no
    more. -/
def pid2rttask (k : Kernel T S) (pid : Int) : Option T :=
  P.tasks.find? fun t => k.magic t && P.tid t = pid

/-- `rttask2pid`, when there is a task. -/
def rttask2pid : Ret T → Option Int
  | .received src _ => some (P.tid src)
  | _ => none

/-- `memcpy` of the first `n` bytes. -/
def memcpy (bytes : Word → UInt8) (n : Word) (old : Word → UInt8) (i : Word) :
    UInt8 :=
  if i < n then bytes i else old i

/-- The task may call a service, and is in none. -/
def free (s : Syncs T S B) (c : T) : Bool :=
  mayCall s.kernel c && (s.job c).isNone

/-- A task begins its call. -/
def Syncs.setJob (s : Syncs T S B) (c : T) (j : Job T B) : Syncs T S B :=
  { s with job := Function.update s.job c (some j) }

/-- A call returns. -/
def leave (s : Syncs T S B) (c : T) (e : Event T B) : Syncs T S B :=
  { s with
    kernel := { s.kernel with pc := Function.update s.kernel.pc c .idle }
    job := Function.update s.job c none
    log := e :: s.log }

/-- The block at `adr` is in use. -/
def inUse (s : Syncs T S B) (adr : Word) : Prop :=
  ∃ t, ∃ g ∈ (s.job t).bind Job.sending, g.adr = adr

/-- The `rt_Send` in which `t` waits for the return of `c`. -/
def waitingFor (s : Syncs T S B) (c t : T) : Option (Sending B) :=
  if .ret ∈ s.kernel.state t ∧ s.kernel.msgTask t = .task c then
    match s.job t with
    | some (.inRpc _ g) => some g
    | _ => none
  else none

instance (s : Syncs T S B) (adr : Word) : Decidable (inUse s adr) := by
  unfold inUse
  infer_instance

/-! ## Sends -/

/-- `rt_Send` up to `rt_rpc`.  The block is where nobody else has one. -/
def rtSend (s : Syncs T S B) (c : T) (pid : Int) (smsg rmsg : B)
    (ssize rsize adr : Word) : Option (Syncs T S B) :=
  if free s c ∧ ¬ inUse s adr then
    match pid2rttask P s.kernel pid with
    | some task =>
      let cb : Msgcb B := ⟨SYNCMSG, smsg, ssize, rmsg, rsize⟩
      some ({ s with mem := Function.update s.mem adr cb }.setJob c (.send task ⟨adr, cb⟩))
    | none => some (leave s c (.sent (-ESRCH)))
  else none

/-- `rt_rpc` sleeps, or has returned. -/
def rpced (s : Syncs T S B) (c dest : T) (g : Sending B) (r : Outcome T S) :
    Syncs T S B :=
  let s := { s with kernel := r.1 }
  match r.2 with
  | none => s.setJob c (.inRpc dest g)
  | some (.rpced task replylen) =>
    leave s c (.sent (if task ≠ dest then -ESRCH else replylen.toUInt32.toInt32.toInt))
  | some .none => leave s c (.sent (-EINVAL))
  | some _ => leave s c (.sent (-ESRCH))

/-! ## Receives -/

/-- The source of a receive: any task when there is none with the pid. -/
def source (s : Syncs T S B) (pid : Int) : Option T :=
  if pid ≠ 0 then pid2rttask P s.kernel pid else none

/-- `rt_Receive`. -/
def rtReceive (s : Syncs T S B) (c : T) (pid : Int) (msg : B) (maxsize : Word) :
    Option (Syncs T S B) :=
  if free s c then
    some (s.setJob c (.receive .waits (source P s pid) msg maxsize))
  else none

/-- `rt_Creceive`: polls, or waits for a time. -/
def rtCreceive (s : Syncs T S B) (c : T) (pid : Int) (msg : B) (maxsize : Word)
    (delay : Int) : Option (Syncs T S B) :=
  if free s c then
    some (s.setJob c (.receive (if delay ≠ 0 then .timed delay else .polls)
      (source P s pid) msg maxsize))
  else none

/-- The service that a receive calls. -/
def receiveOp (way : Way) (src : Option T) (now : Int) : Op T S :=
  match way with
  | .waits => .receive src
  | .polls => .receiveIf src
  | .timed delay => .receiveUntil src (now + delay)

/-- `task > RTE_HIGERR` in `rt_Receive`, `task` in `rt_Creceive`. -/
def isTask : Way → Ret T → Bool
  | .waits, .received _ _ => true
  | .waits, _ => false
  | .polls, .none => false
  | .polls, _ => true
  | .timed _, .none => false
  | .timed _, _ => true

/-- What a receive returns when there is no task, and when its pid is 0. -/
def noTask : Way → Int
  | .waits => -EINVAL
  | _ => 0

/-- The value when there is no message. -/
def noPid : Way → Int
  | .waits => -ESRCH
  | _ => 0

/-- The short message has been received, or the caller sleeps. -/
def got (s : Syncs T S B) (c : T) (way : Way) (msg : B) (maxsize : Word)
    (r : Outcome T S) : Syncs T S B :=
  let s := { s with kernel := r.1 }
  match r.2 with
  | none => s.setJob c (.inReceive way msg maxsize)
  | some v =>
    if isTask way v then s.setJob c (.pid way v msg maxsize)
    else leave s c (.received v (noTask way))

/-! ## Replies -/

/-- `rt_Reply`. -/
def rtReply (s : Syncs T S B) (c : T) (pid : Int) (msg : Word → UInt8)
    (size : Word) : Option (Syncs T S B) :=
  if free s c then
    match pid2rttask P s.kernel pid with
    | some task => some (s.setJob c (.reply task msg size))
    | none => some (leave s c (.replied false (-ESRCH)))
  else none

/-- `rt_return` has returned. -/
def replied (s : Syncs T S B) (c dest : T) (r : Outcome T S) : Syncs T S B :=
  leave { s with kernel := r.1 } c (.replied true
    (match r.2 with
      | some (.returned task) => if task ≠ dest then -ESRCH else 0
      | some .none => -EINVAL
      | _ => -ESRCH))

/-! ## Steps -/

/-- The next section of a call. -/
def goOn (s : Syncs T S B) (c : T) (now : Int) : Option (Syncs T S B) :=
  if !executes s.kernel c then none
  else
    match s.job c with
    | none => none
    | some (.send dest g) =>
      (exec s.kernel (.call c (.rpc dest g.adr))).map (rpced s c dest g)
    | some (.inRpc dest g) =>
      (exec s.kernel (.cont c)).map (rpced s c dest g)
    | some (.receive way src msg maxsize) =>
      (exec s.kernel (.call c (receiveOp way src now))).map (got s c way msg maxsize)
    | some (.inReceive way msg maxsize) =>
      (exec s.kernel (.cont c)).map (got s c way msg maxsize)
    | some (.pid way v msg maxsize) =>
      match rttask2pid P v, v with
      | some pid, .received _ cb =>
        if pid ≠ 0 then some (s.setJob c (.sbytes v pid cb msg maxsize))
        else some (leave s c (.received v (noPid way)))
      | _, _ => some { s with wild := true }
    | some (.sbytes v pid cb msg maxsize) =>
      let s := { s with log := .read v :: s.log }
      let msglen :=
        if maxsize ≤ (s.mem cb).sbytes then maxsize else (s.mem cb).sbytes
      if msglen ≠ 0 then some (s.setJob c (.sbuf v pid cb msg msglen))
      else some (leave s c (.received v pid))
    | some (.sbuf v pid cb msg msglen) =>
      let s := { s with
        log := .read v :: s.log
        buf := Function.update s.buf msg (memcpy (s.buf (s.mem cb).sbuf) msglen (s.buf msg)) }
      some (leave s c (.received v pid))
    | some (.reply dest msg size) =>
      some (s.setJob c (.cmd dest (s.kernel.msg dest) msg size))
    | some (.cmd dest cb msg size) =>
      let s := { s with log := .access (waitingFor s c dest) cb none :: s.log }
      if (s.mem cb).cmd = SYNCMSG then
        some (s.setJob c (.rbytes dest cb msg size))
      else some (leave s c (.replied true (-EPERM)))
    | some (.rbytes dest cb msg size) =>
      let s := { s with log := .access (waitingFor s c dest) cb none :: s.log }
      let retlen :=
        if size ≤ (s.mem cb).rbytes then size else (s.mem cb).rbytes
      if retlen ≠ 0 then some (s.setJob c (.rbuf dest cb msg retlen))
      else some (s.setJob c (.ret dest retlen))
    | some (.rbuf dest cb msg retlen) =>
      let rbuf := (s.mem cb).rbuf
      some ({ s with
        log := .access (waitingFor s c dest) cb (some (rbuf, retlen)) :: s.log
        buf := Function.update s.buf rbuf
          (memcpy msg retlen (s.buf rbuf)) }.setJob c (.ret dest retlen))
    | some (.ret dest retlen) =>
      (exec s.kernel (.call c (.ret dest retlen))).map (replied s c dest)

/-- Who does it, when it is a task. -/
def actor : Action T S → Option T
  | .call c _ => some c
  | .cont c => some c
  | .softTail t => some t
  | _ => none

/-- `rt_task_delete` has returned to the task that called it. -/
def deleted (who : Option T) (k : Kernel T S) : Kernel T S :=
  match who with
  | some c => { k with pc := Function.update k.pc c .idle }
  | none => k

/-- One section; none after a wild access. -/
def sstep (s : Syncs T S B) (a : SAction T S B) : Option (Syncs T S B × Unit) :=
  if s.wild then none
  else
    (match a with
      | .send c pid smsg rmsg ssize rsize adr =>
        rtSend P s c pid smsg rmsg ssize rsize adr
      | .receive c pid msg maxsize => rtReceive P s c pid msg maxsize
      | .creceive c pid msg maxsize delay =>
        rtCreceive P s c pid msg maxsize delay
      | .reply c pid msg size => rtReply P s c pid msg size
      | .goOn c now => goOn P s c now
      | .short c op =>
        if free s c && messagesOp op then
          (exec s.kernel (.call c op)).map fun r : Outcome T S =>
            { s with kernel := r.1 }
        else none
      | .cont c =>
        if inMessage (s.kernel.pc c) && (s.job c).isNone then
          (exec s.kernel (.cont c)).map fun r : Outcome T S =>
            { s with kernel := r.1 }
        else none
      | .sched a =>
        if delays s.kernel a
            && (actor a).all fun t => (s.job t).isNone then
          (exec s.kernel a).map fun r : Outcome T S => { s with kernel := r.1 }
        else none
      | .delete who t =>
        if who.all fun c => free s c then
          (rtTaskDelete s.kernel who t).map fun k =>
            { s with kernel := deleted who k }
        else none
      | .store adr m =>
        if inUse s adr then none
        else some { s with mem := Function.update s.mem adr m }
      | .write b bytes =>
        some { s with buf := Function.update s.buf b bytes }).map (·, ())

/-- The tasks are set up, and nothing has been sent. -/
def fresh (cfg : Config T S) (mem : Word → Msgcb B) (buf : B → Word → UInt8) :
    Syncs T S B where
  kernel := boot cfg
  mem := mem
  buf := buf
  job := fun _ => none
  wild := false
  log := []

/-! ## What is promised -/

/-- The result of a receive is an error code. -/
def isError : Ret T → Bool
  | .received _ _ => false
  | .none => false
  | _ => true

/-- An event that is as it should be. -/
def Event.Valid : Event T B → Prop
  | .access call adr stored => ∃ g, call = some g ∧ adr = g.adr ∧
      ∀ b n, stored = some (b, n) → b = g.cb.rbuf ∧ n ≤ g.cb.rbytes
  | .replied used value => used = false → value < 0
  | .read got => ∃ src cb, got = .received src cb
  | .received got value => isError got = true → value < 0
  | .sent _ => True

/-- Only valid messages have been touched. -/
structure Sound (s : Syncs T S B) : Prop where
  wild : s.wild = false
  valid : ∀ e ∈ s.log, e.Valid

/-! ## When it is kept -/

/-- Nobody else ends the wait of a client whose block is about to be used. -/
def KeepsClients (s : Syncs T S B) (a : SAction T S B) : Prop :=
  ∀ c t s', (s.job c).bind Job.client = some t → (∀ now, a ≠ .goOn c now) →
    sstep P s a = some (s', ()) → (waitingFor s' c t).isSome = true

/-- There is a message, or time to wait for one. -/
def InTime (k : Kernel T S) (c : T) (src : Option T) (time : Int) : Prop :=
  k.timeH < time ∨ ∃ t, receiveSource k c src = some t ∧ hasMessage k c t = true

/-- `rt_Reply` is called for a client that waits for the return of the caller
    in `rt_Send`, and nobody else ends its wait meanwhile.  The receive that
    `rt_Creceive` calls has a source that exists, is not too late, and goes on
    only when it has got a message. -/
def Heeds (s : Syncs T S B) (a : SAction T S B) : Prop :=
  KeepsClients P s a ∧
  match a with
  | .reply c pid _ _ => ∀ t, pid2rttask P s.kernel pid = some t →
      (waitingFor s c t).isSome = true
  | .goOn c now =>
    match s.job c with
    | some (.receive way src _ _) => way = .waits ∨ (∀ t ∈ src, s.kernel.magic t = true) ∧
          ∀ delay, way = .timed delay → InTime s.kernel c src (now + delay)
    | some (.inReceive way _ _) => way = .waits ∨ s.kernel.retTask c = .null
    | _ => True
  | _ => True

end Model

end RtaiSyncMessages
