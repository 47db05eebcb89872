import Rtai.Kernel

/-! # rtai_schedcore.h: the ready list, the timed list and the wait queues

    Every function is the one of the header with the same name.  `none` stands
    for the executions that do not return: a wild or null pointer is followed,
    or a walk along a ring never meets its stop condition. -/

namespace RtaiSchedCore

open RtaiRings RtaiKernel

variable {T S : Type} [DecidableEq T] [DecidableEq S] [Fintype T] [Fintype S]

/-- `node->priority` for a node of the ready list. -/
def readyPriority (k : Kernel T S) : Node T Unit → Int
  | .head _ => RT_SCHED_LINUX_PRIORITY
  | .elem t => k.priority t

/-- `node->policy` for a node of the ready list. -/
def readyPolicy (k : Kernel T S) : Node T Unit → Int
  | .head _ => 0
  | .elem t => k.policy t

/-- `node->period` for a node of the ready list. -/
def readyPeriod (k : Kernel T S) : Node T Unit → Int
  | .head _ => 0
  | .elem t => k.period t

/-- `node->resume_time` for a node of the timed list. -/
def timedResumeTime (k : Kernel T S) : Node T Unit → Int
  | .head _ => RTAI_TIME_LIMIT
  | .elem t => k.resumeTime t

/-- `node->schedlat` for a node of the timed list. -/
def timedSchedlat (k : Kernel T S) : Node T Unit → Int
  | .head _ => k.linuxSchedlat
  | .elem t => k.schedlat t

/-- `node->task` for a node of a wait queue. -/
def queueTask (k : Kernel T S) : Node T (Head T S) → TaskPtr T
  | .elem t => .task t
  | .head (.sem _) => .null
  | .head (.msg t) => k.msgTask t
  | .head (.ret t) => k.retTask t

/-- More nodes than the ready list or the timed list can have. -/
def taskFuel (T : Type) [Fintype T] : Nat := Fintype.card T + 2

/-- More nodes than all wait queues can have. -/
def queueFuel (T S : Type) [Fintype T] [Fintype S] : Nat :=
  3 * Fintype.card T + Fintype.card S + 1

/-! ## The ready list -/

/-- `enq_ready_edf_task`: by period. -/
def enqReadyEdfTask (k : Kernel T S) (t : T) : Option (Kernel T S) := do
  let pos ← walk (fun n => some (!(readyPolicy k n < 0 && k.period t ≥ readyPeriod k n)))
    k.ready.next (taskFuel T) (k.ready.next (.head ()))
  return { k with ready := k.ready.insertBefore (.elem t) pos }

/-- The node before which `enq_ready_task` links a hard task.  The first node
    is not compared with 0. -/
def readyPos (k : Kernel T S) (t : T) : Option (Node T Unit) :=
  let first := k.ready.next (.head ())
  if k.priority t < readyPriority k first then some first
  else walk (fun n => some (readyPriority k n < 0 || k.priority t < readyPriority k n))
    k.ready.next (taskFuel T) (k.ready.next first)

/-- `enq_ready_task`: behind its equals. -/
def enqReadyTask (k : Kernel T S) (t : T) : Option (Kernel T S) :=
  if k.isHard t then do
    let pos ← readyPos k t
    return { k with ready := k.ready.insertBefore (.elem t) pos }
  else
    some { k with
      state := Function.update k.state t (k.state t ∪ {.sftrdy})
      wakeup := Function.update k.wakeup t true }

/-- `renq_ready_task`: with a new priority. -/
def renqReadyTask (k : Kernel T S) (t : T) (priority : Int) : Option (Kernel T S) :=
  if k.priority t = priority then some k
  else
    let k := { k with priority := Function.update k.priority t priority }
    if k.state t = {.ready} then
      enqReadyTask { k with ready := k.ready.unlink (.elem t) } t
    else some k

/-- For a soft task `NON_RTAI_TASK_SUSPEND` only marks its Linux thread, which
    goes to sleep at its next `schedule()`. -/
def remReadyTask (k : Kernel T S) (t : T) : Kernel T S :=
  if k.state t = {.ready} then { k with ready := k.ready.unlink (.elem t) }
  else k

/-- The current task unlinks itself and, when soft, will sleep in the
    `schedule()` of the `rt_schedule` that follows. -/
def remReadyCurrent (k : Kernel T S) (t : T) : Kernel T S :=
  if k.isHard t then { k with ready := k.ready.unlink (.elem t) }
  else
    { k with
      ready := k.ready.unlink (.elem t)
      linux := Function.update k.linux t .asleep
      wakeup := Function.update k.wakeup t false }

/-! ## The timed list -/

/-- `enq_timed_task`: by resume time. -/
def enqTimedTask (k : Kernel T S) (t : T) : Option (Kernel T S) := do
  let pos ← walk (fun n => some (!(k.resumeTime t > timedResumeTime k n)))
    k.timed.next (taskFuel T) (k.timed.next (.head ()))
  return { k with timed := k.timed.insertBefore (.elem t) pos }

/-- `rem_timed_task`. -/
def remTimedTask (k : Kernel T S) (t : T) : Kernel T S :=
  if .delayed ∈ k.state t then { k with timed := k.timed.unlink (.elem t) }
  else k

/-- The bits cleared by `wake_up_timed_tasks`. -/
def timedMask : TaskState :=
  {.delayed, .suspended, .semaphore, .receive, .send, .rpc, .ret, .mbxsusp, .poll}

/-- The body of the loop of `wake_up_timed_tasks`. -/
def wakeUpTask (k : Kernel T S) (t : T) : Option (Kernel T S) :=
  let k :=
    if .suspended ∈ k.state t ∧ k.suspdepth t > 0 then
      { k with suspdepth := Function.update k.suspdepth t 0 }
    else k
  let k := { k with state := Function.update k.state t (k.state t \ timedMask) }
  if k.state t = {.ready} then
    if k.policy t < 0 then enqReadyEdfTask k t else enqReadyTask k t
  else some k

/-- The loop of `wake_up_timed_tasks` from node `n` on.  The Linux task is
    never due. -/
def wakeUpLoop : Nat → Kernel T S → Node T Unit → Option (Kernel T S × Node T Unit)
  | 0, _, _ => none
  | _, _, .head _ => none
  | fuel + 1, k, .elem t => do
      let k ← wakeUpTask k t
      let n := k.timed.next (.elem t)
      if timedResumeTime k n ≤ k.timeH then wakeUpLoop fuel k n
      else return (k, n)

/-- `wake_up_timed_tasks`: all that are due. -/
def wakeUpTimedTasks (k : Kernel T S) : Option (Kernel T S) :=
  let first := k.timed.next (.head ())
  if toRTIME (timedResumeTime k first - timedSchedlat k first) ≤ k.timeH then do
    let (k, n) ← wakeUpLoop (taskFuel T) k first
    return { k with
      timed :=
        { next := Function.update k.timed.next (.head ()) n
          prev := Function.update k.timed.prev n (.head ()) } }
  else some k

/-! ## The wait queues -/

/-- `node->task->priority <= priority` fails; undefined for a node without a
    task. -/
def queueStop (k : Kernel T S) (h : Head T S) (priority : Int)
    (n : Node T (Head T S)) : Option Bool :=
  if n = .head h then some true
  else
    match queueTask k n with
    | .task u => some (!(k.priority u ≤ priority))
    | _ => none

/-- The node before which a task of this priority is linked. -/
def queuePos (k : Kernel T S) (h : Head T S) (priority : Int) : Option (Node T (Head T S)) :=
  walk (queueStop k h priority) k.queue.next (queueFuel T S) (k.queue.next (.head h))

/-- `enqueue_blocked`: by priority or at the end. -/
def enqueueBlocked (k : Kernel T S) (t : T) (h : Head T S) (qtype : Int) :
    Option (Kernel T S) :=
  let k := { k with blockedOn := Function.update k.blockedOn t (.queue h) }
  if qtype = 0 then do
    let pos ← queuePos k h (k.priority t)
    return { k with queue := k.queue.insertBefore (.elem t) pos }
  else
    some { k with queue := k.queue.insertBefore (.elem t) (.head h) }

/-- `dequeue_blocked`. -/
def dequeueBlocked (k : Kernel T S) (t : T) : Kernel T S :=
  { k with
    queue := k.queue.unlink (.elem t)
    blockedOn := Function.update k.blockedOn t .null }

/-! ## Passing a priority on -/

/-- The bits of a task in a `msg_queue` or a `ret_queue`. -/
def msgFlags : TaskState := {.send, .rpc, .ret}

/-- Is a task that gets a new priority to be moved in its wait queue?  A
    semaphore bit makes `blocked_on` be read as a `SEM`. -/
def inPriorityQueue (k : Kernel T S) (t : T) : Option Bool :=
  if (k.blockedOn t).isPtr then
    if .semaphore ∈ k.state t then
      match k.blockedOn t with
      | .queue (.sem s) => some (k.type s > 0 || ¬ Disjoint (k.state t) msgFlags)
      | _ => none
    else some (¬ Disjoint (k.state t) msgFlags)
  else some false

/-- `(state & RT_SCHED_SEMAPHORE) ? ((SEM *)blocked_on)->owndby
    : blocked_on->task`. -/
def nextOwner (k : Kernel T S) (t : T) : Option (TaskPtr T) :=
  match k.blockedOn t with
  | .queue (.sem s) =>
    if .semaphore ∈ k.state t then
      match k.owndby s with
      | some o => some (.task o)
      | none => some .null
    else some .null
  | .queue h =>
    if .semaphore ∈ k.state t then none else some (queueTask k (.head h))
  | _ => none

/-- Move a task to its place in the queue it is blocked in. -/
def reposition (k : Kernel T S) (t : T) (h : Head T S) (priority : Int) :
    Option (Kernel T S) := do
  let k := { k with queue := k.queue.unlink (.elem t) }
  let pos ← queuePos k h priority
  return { k with queue := k.queue.insertBefore (.elem t) pos }

/-- The common body of the loops of `pass_prio` and `rt_change_prio`: the task
    gets the priority, is moved accordingly, and the next task to be looked at
    is returned. -/
def givePriority (k : Kernel T S) (t : T) (priority : Int) :
    Option (Kernel T S × TaskPtr T) := do
  let k := { k with priority := Function.update k.priority t priority }
  if k.state t = {.ready} then
    if readyPriority k (k.ready.prev (.elem t)) > priority
        ∨ readyPriority k (k.ready.next (.elem t)) < priority then
      let k ← enqReadyTask { k with ready := k.ready.unlink (.elem t) } t
      return (k, .null)
    else return (k, .null)
  else if ← inPriorityQueue k t then
    match k.blockedOn t with
    | .queue h =>
      if k.queue.prev (.elem t) = .head h then
        return (k, ← nextOwner k t)
      else
        let k ← reposition k t h priority
        if k.queue.prev (.elem t) = .head h then
          return (k, ← nextOwner k t)
        else return (k, .null)
    | _ => none
  else return (k, .task t)

/-- `while (to && to->priority > priority)`.  Each round lowers a priority
    that was above `priority`, so there are no more rounds than tasks. -/
def passLoop : Nat → Kernel T S → TaskPtr T → Int → Option (Kernel T S)
  | _, k, .null, _ => some k
  | _, _, .higerr, _ => none
  | 0, _, .task _, _ => none
  | fuel + 1, k, .task t, priority =>
    if k.priority t > priority then do
      let (k, next) ← givePriority k t priority
      passLoop fuel k next priority
    else some k

/-- `pass_prio`: along the chain of owners. -/
def passPrio (k : Kernel T S) (dest : TaskPtr T) (src : T) : Option (Kernel T S) :=
  passLoop (taskFuel T) k dest (k.priority src)

end RtaiSchedCore
