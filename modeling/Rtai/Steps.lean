import Rtai.Msg
import Rtai.Runs

/-! # Runs of the system

    An action is one atomic section of one party: a task that calls a service
    or goes on with one, the Linux task or an interrupt that calls a service,
    the timer, the scheduler taking up a task, or the Linux side of a soft
    task.  `exec` is partial: it is undefined where the action is not enabled
    or the code would not come back from it. -/

namespace RtaiSteps

open RtaiKernel RtaiSchedCore RtaiTaskApi RtaiSched RtaiSem RtaiMsg

/-- A service with its arguments. -/
inductive Op (T S : Type) where
  | suspend (t : T)
  | suspendUntil (t : T) (time : Int)
  | resume (t : T)
  | unblock (t : T) (mask : TaskState)
  | changePrio (t : T) (priority : Int)
  | makePeriodic (t : T) (startTime period : Int)
  | waitPeriod (tsc : Int)
  | setResumeTime (t : T) (time : Int)
  | sleep (now delay : Int)
  | sleepUntil (time : Int)
  | semWait (s : S)
  | semWaitIf (s : S)
  | semWaitUntil (s : S) (time : Int)
  | semSignal (s : S)
  | send (dest : T) (msg : Word)
  | sendIf (dest : T) (msg : Word)
  | sendUntil (dest : T) (msg : Word) (time : Int)
  | rpc (dest : T) (toDo : Word)
  | rpcIf (dest : T) (toDo : Word)
  | rpcUntil (dest : T) (toDo : Word) (time : Int)
  | ret (dest : T) (result : Word)
  | receive (src : Option T)
  | receiveIf (src : Option T)
  | receiveUntil (src : Option T) (time : Int)
  deriving DecidableEq

/-- One atomic section. -/
inductive Action (T S : Type) where
  /-- The task calls a service. -/
  | call (c : T) (op : Op T S)
  /-- The task comes back from `rt_schedule` and goes on with its call. -/
  | cont (c : T)
  /-- The Linux task or an interrupt handler calls a service. -/
  | linux (op : Op T S)
  /-- The timer, or the beginning of `rt_schedule`, at time `now`. -/
  | wake (now : Int)
  | dispatch (t : T)
  | softEnter (t : T)
  | softEntered (t : T)
  | softSchedule (t : T)
  | softWake (t : T)
  | softTail (t : T)
  deriving DecidableEq

variable {T S : Type} [DecidableEq T] [DecidableEq S] [Fintype T] [Fintype S]

/-- The first section of a service called by a task. -/
def taskOp (k : Kernel T S) (c : T) : Op T S → Option (Outcome T S)
  | .suspend t => rtTaskSuspend k (some c) t
  | .suspendUntil t time => rtTaskSuspendUntil k (some c) t time
  | .resume t => rtTaskResume k t
  | .unblock t mask => rtTaskMaskedUnblock k t mask
  | .changePrio t priority => rtChangePrio k t priority
  | .makePeriodic t startTime period => rtTaskMakePeriodic k t startTime period
  | .waitPeriod tsc => rtTaskWaitPeriod k c tsc
  | .setResumeTime t time => rtSetResumeTime k t time
  | .sleep now delay => rtSleep k c now delay
  | .sleepUntil time => rtSleepUntil k c time
  | .semWait s => rtSemWait k c s
  | .semWaitIf s => rtSemWaitIf k c s
  | .semWaitUntil s time => rtSemWaitUntil k c s time
  | .semSignal s => rtSemSignal k (some c) s
  | .send dest msg => rtSend k c dest msg
  | .sendIf dest msg => rtSendIf k c dest msg
  | .sendUntil dest msg time => rtSendUntil k c dest msg time
  | .rpc dest toDo => rtRpc k c dest toDo
  | .rpcIf dest toDo => rtRpcIf k c dest toDo
  | .rpcUntil dest toDo time => rtRpcUntil k c dest toDo time
  | .ret dest result => rtReturn k c dest result
  | .receive src => rtReceive k c src
  | .receiveIf src => rtReceiveIf k c src
  | .receiveUntil src time => rtReceiveUntil k c src time

/-- A service that is called outside any RTAI task. -/
def linuxOp (k : Kernel T S) : Op T S → Option (Outcome T S)
  | .suspend t => rtTaskSuspend k none t
  | .suspendUntil t time => rtTaskSuspendUntil k none t time
  | .resume t => rtTaskResume k t
  | .unblock t mask => rtTaskMaskedUnblock k t mask
  | .changePrio t priority => rtChangePrio k t priority
  | .makePeriodic t startTime period => rtTaskMakePeriodic k t startTime period
  | .setResumeTime t time => rtSetResumeTime k t time
  | .semSignal s => rtSemSignal k none s
  | _ => none

/-- What a task does when `rt_schedule` returns. -/
def contOp (k : Kernel T S) (c : T) : Option (Outcome T S) :=
  match k.pc c with
  | .idle => none
  | .start => none
  | .suspend => rtTaskSuspendTail k c
  | .suspendUntil => rtTaskSuspendUntilTail k c
  | .sleep => delayTail k c
  | .semWait s => rtSemWaitTail k c s
  | .semWaitUntil s => rtSemWaitUntilTail k c s
  | .send dest => rtSendTail k c dest
  | .sendIf dest => rtSendIfTail k c dest
  | .rpc dest => rtRpcTail k c dest
  | .receive got => rtReceiveTail k c got
  | .receiveIf got => rtReceiveIfTail k c got
  | .proxyReturn src got => proxyReturnTail k c src got

/-- A call that returns leaves its task outside any call. -/
def finish (c : T) (r : Outcome T S) : Outcome T S :=
  match r with
  | (k, some v) => ({ k with pc := Function.update k.pc c .idle }, some v)
  | (k, none) => (k, none)

/-- A task may call a service: it executes and is not inside one. -/
def mayCall (k : Kernel T S) (c : T) : Bool :=
  executes k c && k.pc c = (if k.isHard c then .idle else .start)

/-- The time and the wake ups of the timer. -/
def timer (k : Kernel T S) (now : Int) : Option (Kernel T S) :=
  if k.timeH ≤ now then wakeUpTimedTasks { k with timeH := now } else none

/-- One atomic section.  The output is the value returned by the call that
    ends in it. -/
def exec (k : Kernel T S) : Action T S → Option (Outcome T S)
  | .call c op =>
    if mayCall k c then (taskOp k c op).map (finish c) else none
  | .cont c => if executes k c then (contOp k c).map (finish c) else none
  | .linux op => linuxOp k op
  | .wake now => (timer k now).map (·, none)
  | .dispatch t => (dispatch k t).map (·, none)
  | .softEnter t => (rtScheduleSoft k t).map (·, none)
  | .softEntered t => (rtScheduleSoftEntered k t).map (·, none)
  | .softSchedule t => (softSchedule k t).map (·, none)
  | .softWake t => (softWake k t).map (·, none)
  | .softTail t => (rtScheduleSoftTail k t).map (·, none)

theorem exec_call {k k' : Kernel T S} {c : T} {op : Op T S}
    {o : Option (Ret T)} (h : exec k (.call c op) = some (k', o)) :
    mayCall k c = true ∧ ∃ r, taskOp k c op = some r ∧ finish c r = (k', o) := by
  have h' : (if mayCall k c then (taskOp k c op).map (finish c) else none) = some (k', o) := h
  by_cases hc : mayCall k c = true
  · rw [if_pos hc] at h'
    exact ⟨hc, Option.map_eq_some_iff.mp h'⟩
  · rw [if_neg hc] at h'
    exact nomatch h'

theorem exec_cont {k k' : Kernel T S} {c : T} {o : Option (Ret T)}
    (h : exec k (.cont c) = some (k', o)) :
    executes k c = true ∧ ∃ r, contOp k c = some r ∧ finish c r = (k', o) := by
  have h' : (if executes k c then (contOp k c).map (finish c) else none) = some (k', o) := h
  by_cases hc : executes k c = true
  · rw [if_pos hc] at h'
    exact ⟨hc, Option.map_eq_some_iff.mp h'⟩
  · rw [if_neg hc] at h'
    exact nomatch h'

end RtaiSteps
