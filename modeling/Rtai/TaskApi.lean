import Rtai.PrioInher

/-! # api.c: suspending, resuming, delaying and unblocking tasks

    A service that does not block runs in one section and returns its value.
    One that blocks ends its first section in `rt_schedule` and leaves in `pc`
    where it stands; what it does when it runs again is the function of the
    same name with `Tail`.  `c` is the calling task, `none` when it is the
    Linux task.

    A section that ends in a reschedule after its last effect returns its
    value at once: who runs next is decided by later steps. -/

namespace RtaiTaskApi

open RtaiKernel RtaiSchedCore RtaiPrioInher

variable {T S : Type} [DecidableEq T] [DecidableEq S] [Fintype T] [Fintype S]

/-- The outcome of a section: the state, and the value returned unless the
    call goes on later. -/
abbrev Outcome (T S : Type) := Kernel T S × Option (Ret T)

/-- The call returns `r`. -/
def done (k : Kernel T S) (r : Ret T) : Option (Outcome T S) := some (k, some r)

/-- The call of `c` stands at `p`. -/
def stay (k : Kernel T S) (c : T) (p : Pc T S) : Option (Outcome T S) :=
  some ({ k with pc := Function.update k.pc c p }, none)

/-! ## Priorities -/

/-- `rt_change_prio`. -/
def rtChangePrio (k : Kernel T S) (t : T) (priority : Int) : Option (Outcome T S) :=
  if !k.magic t || priority < 0 then done k .inval
  else
    let prio := k.basePriority t
    let priority :=
      if !k.isHard t && priority < BASE_SOFT_PRIORITY then
        priority + BASE_SOFT_PRIORITY
      else priority
    let k := { k with
      basePriority := Function.update k.basePriority t priority }
    if prio = k.priority t ∨ priority < k.priority t then do
      let (k, next) ← givePriority k t priority
      let k ← passLoop (taskFuel T) k next priority
      done k (.val prio)
    else done k (.val prio)

/-! ## Suspending and resuming -/

/-- `rt_task_suspend`: at once, or registered. -/
def rtTaskSuspend (k : Kernel T S) (c : Option T) (t : T) : Option (Outcome T S) :=
  if !k.magic t then done k .inval
  else if !taskOwnsSems k t && k.suspdepth t = 0 then
    let k := { k with suspdepth := Function.update k.suspdepth t 1 }
    if c = some t then
      let k := { k with blockedOn := Function.update k.blockedOn t (.self t) }
      let k := remReadyCurrent k t
      let k := { k with
        state := Function.update k.state t (k.state t ∪ {.suspended}) }
      stay k t .suspend
    else
      let k := remTimedTask (remReadyTask k t) t
      let k := { k with
        state := Function.update k.state t (k.state t ∪ {.suspended}) }
      done k (.val (k.suspdepth t))
  else
    let k := { k with
      suspdepth := Function.update k.suspdepth t (incr (k.suspdepth t)) }
    done k (.val (k.suspdepth t))

/-- The end of `rt_task_suspend`. -/
def rtTaskSuspendTail (k : Kernel T S) (t : T) : Option (Outcome T S) :=
  if k.blockedOn t ≠ .null then done k .unblkd
  else done k (.val (k.suspdepth t))

/-- `rt_task_suspend_until`. -/
def rtTaskSuspendUntil (k : Kernel T S) (c : Option T) (t : T) (time : Int) :
    Option (Outcome T S) :=
  if !k.magic t then done k .inval
  else if !taskOwnsSems k t && k.suspdepth t = 0 then
    let k := { k with resumeTime := Function.update k.resumeTime t time }
    if time > k.timeH then
      let k := { k with suspdepth := Function.update k.suspdepth t 1 }
      if c = some t then do
        let k := { k with blockedOn := Function.update k.blockedOn t (.self t) }
        let k := remReadyCurrent k t
        let k ← enqTimedTask k t
        let k := { k with
          state := Function.update k.state t (k.state t ∪ {.suspended, .delayed}) }
        stay k t .suspendUntil
      else do
        let k := remReadyTask k t
        let k ← if .delayed ∈ k.state t then some k else enqTimedTask k t
        let k := { k with
          state := Function.update k.state t (k.state t ∪ {.suspended, .delayed}) }
        done k (.val (k.suspdepth t))
    else done k .tmrovrn
  else
    let k := { k with
      suspdepth := Function.update k.suspdepth t (incr (k.suspdepth t)) }
    done k (.val (k.suspdepth t))

/-- The end of `rt_task_suspend_until`. -/
def rtTaskSuspendUntilTail (k : Kernel T S) (t : T) : Option (Outcome T S) :=
  if (k.blockedOn t).isPtr then done k .timout
  else if k.blockedOn t ≠ .null then done k .unblkd
  else done k (.val (k.suspdepth t))

/-- `rt_task_resume`: with the last suspension. -/
def rtTaskResume (k : Kernel T S) (t : T) : Option (Outcome T S) :=
  if !k.magic t then done k .inval
  else
    let k := { k with
      suspdepth := Function.update k.suspdepth t (decr (k.suspdepth t)) }
    if k.suspdepth t = 0 then
      let k := remTimedTask k t
      let k := { k with
        state := Function.update k.state t (k.state t \ {.suspended, .delayed}) }
      if k.state t = {.ready} then do
        let k := { k with blockedOn := Function.update k.blockedOn t .null }
        let k ← enqReadyTask k t
        done k (.val 0)
      else done k (.val 0)
    else done k (.val 0)

/-- `rt_task_masked_unblock`. -/
def rtTaskMaskedUnblock (k : Kernel T S) (t : T) (mask : TaskState) : Option (Outcome T S) :=
  if !k.magic t then done k .inval
  else if k.state t ≠ ∅ ∧ k.state t ≠ {.ready} then
    let k := if .delayed ∈ mask then remTimedTask k t else k
    let k :=
      if .suspended ∈ mask ∧ .suspended ∈ k.state t ∧ k.suspdepth t > 0 then
        { k with suspdepth := Function.update k.suspdepth t 0 }
      else k
    let k := { k with state := Function.update k.state t (k.state t \ mask) }
    if k.state t = {.ready} then do
      let k := { k with blockedOn := Function.update k.blockedOn t .unblkd }
      let k ← enqReadyTask k t
      done k .unblkd
    else done k .unblkd
  else done k (.val 0)

/-! ## Time -/

/-- `rt_task_make_periodic`. -/
def rtTaskMakePeriodic (k : Kernel T S) (t : T) (startTime period : Int) :
    Option (Outcome T S) :=
  if !k.magic t then done k .inval
  else
    let k := { k with
      resumeTime := Function.update k.resumeTime t startTime
      periodicResumeTime := Function.update k.periodicResumeTime t startTime
      period := Function.update k.period t period
      suspdepth := Function.update k.suspdepth t 0 }
    if .delayed ∈ k.state t then done k (.val 0)
    else do
      let k := remReadyTask k t
      let k := { k with
        state := Function.update k.state t ((k.state t \ {.suspended}) ∪ {.delayed}) }
      let k ← enqTimedTask k t
      done k (.val 0)

/-- The common end of `rt_task_wait_period`, `rt_sleep` and `rt_sleep_until`:
    the current task is delayed to its `resume_time`. -/
def delayCurrent (k : Kernel T S) (c : T) : Option (Outcome T S) := do
  let k := { k with
    blockedOn := Function.update k.blockedOn c .null
    state := Function.update k.state c (k.state c ∪ {.delayed}) }
  let k := remReadyCurrent k c
  let k ← enqTimedTask k c
  stay k c .sleep

/-- The end of a delay. -/
def delayTail (k : Kernel T S) (c : T) : Option (Outcome T S) :=
  if k.blockedOn c = .null then done k (.val 0) else done k .unblkd

/-- `rt_task_wait_period`. -/
def rtTaskWaitPeriod (k : Kernel T S) (c : T) (tsc : Int) : Option (Outcome T S) :=
  if k.resyncFrame c then
    done { k with
      resyncFrame := Function.update k.resyncFrame c false
      resumeTime := Function.update k.resumeTime c tsc
      periodicResumeTime := Function.update k.periodicResumeTime c tsc } .tmrovrn
  else
    let k := { k with
      periodicResumeTime := Function.update k.periodicResumeTime c
        (toRTIME (k.periodicResumeTime c + k.period c)) }
    if k.periodicResumeTime c > k.timeH then
      delayCurrent { k with
        resumeTime := Function.update k.resumeTime c (k.periodicResumeTime c) } c
    else done k .tmrovrn

/-- `rt_set_resume_time`. -/
def rtSetResumeTime (k : Kernel T S) (t : T) (newResumeTime : Int) : Option (Outcome T S) :=
  if !k.magic t then done k .inval
  else if .delayed ∈ k.state t then
    let k := { k with
      resumeTime := Function.update k.resumeTime t newResumeTime }
    if toRTIME (newResumeTime -
        timedResumeTime k (k.timed.next (.elem t))) > 0 then do
      let k ← enqTimedTask (remTimedTask k t) t
      done k (.val 0)
    else done k .time
  else done k .time

/-- `rt_sleep_until`. -/
def rtSleepUntil (k : Kernel T S) (c : T) (time : Int) : Option (Outcome T S) :=
  let k := { k with resumeTime := Function.update k.resumeTime c time }
  if time > k.timeH then delayCurrent k c else done k .tmrovrn

/-- `now` is what `get_time` reads. -/
def rtSleep (k : Kernel T S) (c : T) (now delay : Int) : Option (Outcome T S) :=
  rtSleepUntil k c (toRTIME (now + delay))

end RtaiTaskApi
