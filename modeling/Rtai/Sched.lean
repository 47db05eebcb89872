import Rtai.TaskApi

/-! # sched.c: taking up tasks, soft tasks, deleting tasks

    `dispatch` is what `rt_schedule` and the timer handler do to the task they
    choose.  A soft task runs a service inside `rt_schedule_soft`: it enters
    the ready list, runs the call, and leaves through
    `_rt_schedule_soft_tail`; whenever it has to wait in between it sleeps as
    a Linux thread. -/

namespace RtaiSched

open RtaiRings RtaiKernel RtaiSchedCore RtaiPrioInher

variable {T S : Type} [decT : DecidableEq T] [decS : DecidableEq S] [finT : Fintype T]
  [finS : Fintype S]

/-- `TASK_TO_SCHEDULE`: a ready task is given the processor. -/
def dispatch (k : Kernel T S) (t : T) : Option (Kernel T S) :=
  if k.state t = {.ready} ∧ (k.isHard t ∨ k.linux t = .inside) then
    some { k with running := Function.update k.running t 1 }
  else none

/-- `enq_soft_ready_task`: in front of every ready task. -/
def enqSoftReadyTask (k : Kernel T S) (t : T) : Kernel T S :=
  if k.ready.next (.head ()) = .elem t then k
  else { k with
    ready := k.ready.insertBefore (.elem t) (k.ready.next (.head ())) }

/-- `rt_schedule_soft` up to the call of the service, or to its first sleep. -/
def rtScheduleSoft (k : Kernel T S) (t : T) : Option (Kernel T S) :=
  if !k.isHard t ∧ k.linux t = .user ∧ k.pc t = .idle then
    let k := { k with
      state := Function.update k.state t (k.state t ∪ {.ready}) }
    if k.state t = {.ready} then
      some { enqSoftReadyTask k t with
        linux := Function.update k.linux t .inside
        pc := Function.update k.pc t .start }
    else some { k with linux := Function.update k.linux t .entering }
  else none

/-- The loop at the beginning of `rt_schedule_soft` ends. -/
def rtScheduleSoftEntered (k : Kernel T S) (t : T) : Option (Kernel T S) :=
  if !k.isHard t ∧ k.linux t = .entering ∧ k.pc t = .idle
      ∧ k.state t = {.ready} then
    some { enqSoftReadyTask k t with
      linux := Function.update k.linux t .inside
      pc := Function.update k.pc t .start }
  else none

/-- A soft task that comes back to `rt_schedule` and is not ready goes to
    sleep in `schedule()`. -/
def softSchedule (k : Kernel T S) (t : T) : Option (Kernel T S) :=
  if !k.isHard t ∧ k.linux t = .inside ∧ k.state t ≠ {.ready} then
    some { k with linux := Function.update k.linux t .asleep }
  else none

/-- `schedule()` returns in `rt_schedule`. -/
def softWake (k : Kernel T S) (t : T) : Option (Kernel T S) :=
  if !k.isHard t ∧ k.linux t = .asleep ∧ k.wakeup t then
    let k := { k with
      state := Function.update k.state t ((k.state t \ {.sftrdy}) ∪ {.ready})
      wakeup := Function.update k.wakeup t false
      linux := Function.update k.linux t .inside }
    some (enqSoftReadyTask k t)
  else none

/-- `_rt_schedule_soft_tail`: the call is over. -/
def rtScheduleSoftTail (k : Kernel T S) (t : T) : Option (Kernel T S) :=
  if !k.isHard t ∧ k.linux t = .inside ∧ k.pc t = .idle then
    some { k with
      state := Function.update k.state t (k.state t \ {.ready, .sftrdy})
      ready := k.ready.unlink (.elem t)
      linux := Function.update k.linux t .user }
  else none

/-- A task that can execute: a hard one that has been dispatched and is
    ready, a soft one that Linux runs inside `rt_schedule_soft`. -/
def executes (k : Kernel T S) (t : T) : Bool :=
  if k.isHard t then k.state t = {.ready} && k.running t = 1
  else k.linux t = .inside

/-! ## Deleting a task -/

/-- The loops of `clr_rtext`: every task in the ring of `h` is made ready and
    told that the object it waits on is gone.  None is dequeued. -/
def removeWaiters (h : Head T S) (mask : TaskState) :
    Nat → Kernel T S → Node T (Head T S) → Option (Kernel T S)
  | 0, _, _ => none
  | fuel + 1, k, n =>
    if n = .head h then some k
    else
      match queueTask k n with
      | .task u => do
          let k := remTimedTask k u
          let k ←
            if k.state u = {.ready} then some k
            else
              let k := { k with
                state := Function.update k.state u (k.state u \ mask) }
              if k.state u = {.ready} then enqReadyTask k u else some k
          let k := { k with
            blockedOn := Function.update k.blockedOn u .objrem }
          removeWaiters h mask fuel k (k.queue.next n)
      | _ => none

/-- `sem->count` after `++sem->count`, which is cut at 1 unless the semaphore
    counts. -/
def moreCount (k : Kernel T S) (s : S) : Int :=
  if incr (k.count s) > 1 ∧ k.type s ≠ 0 then 1 else incr (k.count s)

omit decT decS finT finS in
/-- A count that is not positive can be raised. -/
theorem moreCount_of_nonpos {k : Kernel T S} {s : S} (h : k.count s ≤ 0) :
    moreCount k s = k.count s + 1 := by
  have hi : incr (k.count s) = k.count s + 1 := incr_of_lt (by omega)
  refine (if_neg ?_).trans hi
  rw [hi]
  rintro ⟨hpos, -⟩
  omega

/-- A deleted task leaves the queue it is blocked in.  Waiting on a mailbox is
    not modelled. -/
def leaveQueue (k : Kernel T S) (t : T) : Option (Kernel T S) :=
  if k.blockedOn t = .null then some k
  else if ¬ Disjoint (k.state t) {.semaphore, .send, .rpc, .ret} then
    let k := { k with queue := k.queue.unlink (.elem t) }
    if .semaphore ∈ k.state t then
      match k.blockedOn t with
      | .queue (.sem s) =>
        some { k with count := Function.update k.count s (moreCount k s) }
      | _ => none
    else some k
  else if .mbxsusp ∈ k.state t then none
  else some k

/-- `rt_task_delete`, that is `clr_rtext`. -/
def rtTaskDelete (k : Kernel T S) (c : Option T) (t : T) : Option (Kernel T S) :=
  if !k.magic t || k.priority t = RT_SCHED_LINUX_PRIORITY then some k
  else if !taskOwnsSems k t || c = some t || c = none then do
    let k ← leaveQueue (remTimedTask k t) t
    let k ← removeWaiters (.msg t) {.send, .rpc, .delayed} (queueFuel T S) k
      (k.queue.next (.head (.msg t)))
    let k ← removeWaiters (.ret t) {.ret, .delayed} (queueFuel T S) k
      (k.queue.next (.head (.ret t)))
    let k := remReadyTask { k with
      magic := Function.update k.magic t false } t
    return { k with
      state := Function.update k.state t ∅
      linux := if c = some t then Function.update k.linux t .asleep
        else k.linux }
  else
    some { k with
      suspdepth := Function.update k.suspdepth t RT_RESEM_SUSPDEL }

end RtaiSched
