import Rtai.SchedCore

/-! # rtai_prinher.h: the semaphores a task owns

    `task->resq` is the ring of the resource semaphores a task owns, through
    their `resq` nodes.  Giving one up recomputes the owner's priority from
    what is left in that ring and from the head of its message queue. -/

namespace RtaiPrioInher

open RtaiRings RtaiKernel RtaiSchedCore

variable {T S : Type} [decT : DecidableEq T] [decS : DecidableEq S] [finT : Fintype T]
  [finS : Fintype S]

/-- `task_owns_sems`. -/
def taskOwnsSems (k : Kernel T S) (t : T) : Bool :=
  k.resq.next (.head t) ≠ .head t

/-- `enqueue_resqel`. -/
def enqueueResqel (k : Kernel T S) (s : S) (owner : T) : Kernel T S :=
  { k with resq := k.resq.insertBefore (.elem s) (.head owner) }

/-- `RESQEL_TASK`: the first task waiting on a semaphore. -/
def resqelTask (k : Kernel T S) (s : S) : TaskPtr T :=
  queueTask k (k.queue.next (.head (.sem s)))

/-- The loop of `_set_task_prio_from_resq` from node `n` on.  It ends at the
    first semaphore that nobody waits on or whose first waiter does not
    improve `hprio`. -/
def resqScan (k : Kernel T S) (t : T) : Nat → Node S T → Int → Option Int
  | 0, _, _ => none
  | fuel + 1, .elem s, hprio =>
    match resqelTask k s with
    | .null => some hprio
    | .higerr => none
    | .task u =>
      if k.priority u < hprio then
        resqScan k t fuel (k.resq.next (.elem s)) (k.priority u)
      else some hprio
  | _ + 1, .head t', hprio => if t' = t then some hprio else none

/-- The scan of the resources. -/
def setTaskPrioFromResqScan (k : Kernel T S) (t : T) : Option Int :=
  resqScan k t (Fintype.card S + Fintype.card T + 1) (k.resq.next (.head t)) (k.basePriority t)

/-- `_set_task_prio_from_resq` and what both its callers do with the head of
    the message queue. -/
def prioFromResq (k : Kernel T S) (t : T) : Option Int := do
  let hprio ← setTaskPrioFromResqScan k t
  let q := k.queue.next (.head (.msg t))
  if q = .head (.msg t) then return hprio
  else
    match queueTask k q with
    | .task u => if k.priority u < hprio then return k.priority u else return hprio
    | _ => none

omit decS finT finS in
/-- The recomputed priority depends on the priorities, the wait queues and the
    owned semaphores only. -/
theorem resqScan_congr {k k' : Kernel T S} (t : T)
    (hq : k'.queue = k.queue) (hr : k'.resq = k.resq)
    (hp : k'.priority = k.priority) (hm : k'.msgTask = k.msgTask)
    (ht : k'.retTask = k.retTask) :
    ∀ (fuel : Nat) (n : Node S T) (hprio : Int),
      resqScan k' t fuel n hprio = resqScan k t fuel n hprio := by
  intro fuel
  induction fuel with
  | zero => intro n hprio; rfl
  | succ fuel ih =>
    intro n hprio
    cases n with
    | head t' => rfl
    | elem s =>
      have htask : resqelTask k' s = resqelTask k s := by
        unfold resqelTask
        rw [hq]
        cases k.queue.next (.head (.sem s)) with
        | elem u => rfl
        | head h =>
          cases h with
          | sem _ => rfl
          | msg u => exact congrFun hm u
          | ret u => exact congrFun ht u
      unfold resqScan
      rw [htask, hr, hp]
      cases resqelTask k s with
      | null => rfl
      | higerr => rfl
      | task u =>
        simp only [ih]

theorem prioFromResq_congr {k k' : Kernel T S} (t : T)
    (hq : k'.queue = k.queue) (hr : k'.resq = k.resq)
    (hp : k'.priority = k.priority) (hb : k'.basePriority = k.basePriority)
    (hm : k'.msgTask = k.msgTask) (ht : k'.retTask = k.retTask) :
    prioFromResq k' t = prioFromResq k t := by
  unfold prioFromResq setTaskPrioFromResqScan
  simp only [resqScan_congr t hq hr hp hm ht, hr, hb, hq, hp]
  have htask : ∀ n, queueTask k' n = queueTask k n := by
    intro n
    cases n with
    | elem u => rfl
    | head h =>
      cases h with
      | sem _ => rfl
      | msg u => exact congrFun hm u
      | ret u => exact congrFun ht u
  simp only [htask]

/-- `set_task_prio_from_resq`. -/
def setTaskPrioFromResq (k : Kernel T S) (t : T) : Option (Kernel T S) := do
  renqReadyTask k t (← prioFromResq k t)

/-- `dequeue_resqel_reset_task_priority`. -/
def dequeueResqelResetTaskPriority (k : Kernel T S) (s : S) (t : T) : Option (Kernel T S) :=
  setTaskPrioFromResq { k with resq := k.resq.unlink (.elem s) } t

end RtaiPrioInher
