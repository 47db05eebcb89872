import Rtai.CounterRing

/-! # fifos.c: the semaphores and mailboxes of the FIFOs

    A FIFO has a mailbox and semaphores on which Linux processes wait.  `T` are
    the processes, `S` the `F_SEM`s and `B` the FIFOs.  Whoever is to be woken
    is put into `taskq`, which `rtf_sysrq_handler` empties; a FIFO that is
    polled is put into `pol_asyn_q`.

    A process executes one call at a time, so that the `LX_TASK` on its stack
    is named by the process. -/

namespace RtaiFifo

open RtaiCounterRing

/-- The places of the ring of requests. -/
def MAXREQS : Nat := 64

theorem MAXREQS_pos : 0 < MAXREQS := by decide

/-- What an interrupted wait returns. -/
def ERESTARTSYS : Int := 512

/-- The semaphores, tasks and mailboxes. -/
structure Fifos (T S B : Type) where
  /-- The fields of `F_SEM`; `queue` are the `LX_TASK`s linked in it. -/
  free : S → Int
  qtype : S → Int
  queue : S → List T
  /-- The fields of `LX_TASK`. -/
  blocked : T → Bool
  priority : T → Int
  /-- `state == TASK_INTERRUPTIBLE` -/
  interruptible : T → Bool
  /-- The fields of `F_MBX` and `FIFO`; `polled` is
      `waitqueue_active(&fifop->pollq) || fifop->asynq`. -/
  waitingTask : B → Option T
  avbs : B → Int
  frbs : B → Int
  polAsynPended : B → Bool
  polled : B → Bool
  taskq : Traced MAXREQS MAXREQS T
  polAsynQ : Traced MAXREQS MAXREQS B

variable {T S B : Type} [DecidableEq T] [DecidableEq S] [DecidableEq B]

/-! ## Waking up -/

/-- `taskq.task[taskq.in] = task` and the next index. -/
def postTask (st : Fifos T S B) (t : T) : Fifos T S B :=
  { st with taskq := st.taskq.post t }

/-- `dequeue_blocked`. -/
def dequeueBlocked (st : Fifos T S B) (s : S) (t : T) : Fifos T S B :=
  { st with
    blocked := Function.update st.blocked t false
    queue := Function.update st.queue s ((st.queue s).erase t) }

/-- Is the FIFO to be put into `pol_asyn_q`? -/
def pendsPoll (st : Fifos T S B) (fifop : Option B) : Bool :=
  match fifop with
  | none => false
  | some b =>
    !st.polAsynPended b && (st.avbs b != 0 || st.frbs b != 0) && st.polled b

/-- `mbx_sem_signal`: the first waiter, or free. -/
def mbxSemSignal (st : Fifos T S B) (s : S) (fifop : Option B) : Fifos T S B :=
  match st.queue s with
  | t :: _ => postTask (dequeueBlocked st s t) t
  | [] =>
    let st := { st with free := Function.update st.free s 1 }
    match fifop with
    | some b =>
      if pendsPoll st fifop then
        { st with
          polAsynPended := Function.update st.polAsynPended b true
          polAsynQ := st.polAsynQ.post b }
      else st
    | none => st

/-- `mbx_signal`: the waiting task. -/
def mbxSignal (st : Fifos T S B) (b : B) : Fifos T S B :=
  match st.waitingTask b with
  | some t =>
    postTask { st with
      waitingTask := Function.update st.waitingTask b none } t
  | none => st

/-- Every `LX_TASK` is unlinked; its `blocked` is left as it is. -/
def mbxSemDelete (st : Fifos T S B) (s : S) : Fifos T S B :=
  { st with
    taskq := st.taskq.postAll (st.queue s)
    queue := Function.update st.queue s [] }

/-- One round of the first loop of `rtf_sysrq_handler`, with the process that
    is woken. -/
def sysrqTask (st : Fifos T S B) : Option (Fifos T S B × Option T) :=
  match st.taskq.takeOne with
  | none => none
  | some (none, q) => some ({ st with taskq := q }, none)
  | some (some t, q) =>
    if st.interruptible t then
      some ({ st with
        taskq := q
        interruptible := Function.update st.interruptible t false }, some t)
    else some ({ st with taskq := q }, none)

/-- One round of the second loop. -/
def sysrqFifo (st : Fifos T S B) : Option (Fifos T S B) :=
  match st.polAsynQ.takeOne with
  | none => none
  | some (none, q) => some { st with polAsynQ := q }
  | some (some b, q) =>
    some { st with
      polAsynPended := Function.update st.polAsynPended b false
      polAsynQ := q }

/-! ## Waiting -/

/-- `enqueue_blocked`: in front of the first one of a lower priority, or at the
    end. -/
def enqueueBlocked (st : Fifos T S B) (s : S) (t : T) (priority : Int) :
    Fifos T S B :=
  let before :=
    if st.qtype s = 0 then
      (st.queue s).takeWhile fun u => decide (st.priority u ≥ priority)
    else st.queue s
  { st with
    blocked := Function.update st.blocked t true
    priority := Function.update st.priority t priority
    queue := Function.update st.queue s (before ++ t :: (st.queue s).drop before.length) }

/-- `mbx_sem_wait_if`. -/
def mbxSemWaitIf (st : Fifos T S B) (s : S) : Fifos T S B × Int :=
  if st.free s ≠ 0 then
    ({ st with free := Function.update st.free s 0 }, 1)
  else (st, 0)

/-- The first section of `mbx_sem_wait` and `mbx_sem_wait_timed`; the process
    goes on to sleep unless a value is returned. -/
def mbxSemWait (st : Fifos T S B) (s : S) (t : T) (rtPriority : Int) :
    Fifos T S B × Option Int :=
  if st.free s = 0 then (enqueueBlocked st s t rtPriority, none)
  else ({ st with free := Function.update st.free s 0 }, some 0)

/-- `current->state = TASK_INTERRUPTIBLE` -/
def setInterruptible (st : Fifos T S B) (t : T) : Fifos T S B :=
  { st with interruptible := Function.update st.interruptible t true }

/-- The waiter that is still blocked gives up. -/
def giveUp (st : Fifos T S B) (s : S) (t : T) : Fifos T S B :=
  let st := dequeueBlocked st s t
  if st.queue s = [] then { st with free := Function.update st.free s 1 }
  else st

/-- The second section of `mbx_sem_wait`; `ret` is what the test for a signal
    has left. -/
def mbxSemWaitTail (st : Fifos T S B) (s : S) (t : T) (ret : Int) : Fifos T S B × Int :=
  if st.blocked t then (giveUp st s t, if ret = 0 then -1 else ret)
  else (st, ret)

/-- The second section of `mbx_sem_wait_timed`. -/
def mbxSemWaitTimedTail (st : Fifos T S B) (s : S) (t : T) : Fifos T S B × Int :=
  if st.blocked t then (giveUp st s t, -1) else (st, 0)

/-- The first section of `mbx_wait` and `mbx_wait_timed`; `fravbs` is the value
    of the counter waited on.  The former also sets the state in it. -/
def mbxWait (st : Fifos T S B) (b : B) (fravbs : Int) (t : T) (timed : Bool) :
    Fifos T S B × Option Int :=
  if fravbs = 0 then
    let st := { st with
      waitingTask := Function.update st.waitingTask b (some t) }
    (if timed then st else setInterruptible st t, none)
  else (st, some 0)

/-- The second section of `mbx_wait` and `mbx_wait_timed`. -/
def mbxWaitTail (st : Fifos T S B) (b : B) (t : T) : Fifos T S B × Int :=
  if st.waitingTask b = some t then
    ({ st with waitingTask := Function.update st.waitingTask b none }, -1)
  else (st, 0)

end RtaiFifo
