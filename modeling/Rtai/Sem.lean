import Rtai.Sched

/-! # sem.c: waiting on and signalling semaphores

    `type` is -1 for a binary semaphore, 0 for a counting one and positive for
    a resource, where it is the depth of the owner's nested waits. -/

namespace RtaiSem

open RtaiKernel RtaiSchedCore RtaiPrioInher RtaiTaskApi RtaiSched

variable {T S : Type} [DecidableEq T] [DecidableEq S] [Fintype T] [Fintype S]

/-- The test of `UBI_MAIOR_MINOR_CESSAT_WAIT`: the owner that the current task
    may rob. -/
def ubiMaiorVictim (k : Kernel T S) (c : T) (s : S) : Option T :=
  match k.owndby s with
  | some o =>
    if k.priority c < k.priority o ∧ k.running o ≤ 0 then some o else none
  | none => none

/-- The rest of `UBI_MAIOR_MINOR_CESSAT_WAIT`: the owner is queued again and
    the current task takes its place. -/
def ubiMaiorRob (k : Kernel T S) (c : T) (s : S) (o : T) :
    Option (Outcome T S) := do
  let k ←
    if k.running o = 0 then
      let k := { k with count := Function.update k.count s (k.count s - 1) }
      let k := remReadyTask k o
      some { k with
        state := Function.update k.state o (k.state o ∪ {.semaphore}) }
    else if k.resumeTime o > k.timeH then
      let k := { k with count := Function.update k.count s (k.count s - 1) }
      let k := remReadyTask k o
      let k := { k with
        state := Function.update k.state o (k.state o ∪ {.semaphore, .delayed}) }
      enqTimedTask k o
    else some k
  let k ← enqueueBlocked k o (.sem s) 0
  let k := { k with owndby := Function.update k.owndby s (some c) }
  done (enqueueResqel k s c) (.val 1)

/-- `enqueue_resqel(&sem->resq, sem->owndby = rt_current)` for a resource. -/
def takeOwnership (k : Kernel T S) (c : T) (s : S) : Kernel T S :=
  if k.type s > 0 then
    enqueueResqel { k with owndby := Function.update k.owndby s (some c) } s c
  else k

/-- A wait by the owner of a resource. -/
def nestedWait (k : Kernel T S) (s : S) : Option (Outcome T S) :=
  if k.restype s > 0 then
    done { k with type := Function.update k.type s (incr (k.type s)) } (.val (incr (k.type s)))
  else done k .deadlok

/-- `pass_prio(sem->owndby, rt_current)` for a resource. -/
def passToOwner (k : Kernel T S) (c : T) (s : S) : Option (Kernel T S) :=
  if k.type s > 0 then
    match k.owndby s with
    | some o => passPrio k (.task o) c
    | none => passPrio k .null c
  else some k

/-- A wait on a free semaphore. -/
def takeToken (k : Kernel T S) (c : T) (s : S) : Option (Outcome T S) :=
  done (takeOwnership { k with
    count := Function.update k.count s (k.count s - 1) } c s)
    (.val (k.count s))

/-- `rt_sem_wait`. -/
def rtSemWait (k : Kernel T S) (c : T) (s : S) : Option (Outcome T S) :=
  if !k.semMagic s then done k .objinv
  else if k.count s ≤ 0 then
    match if k.type s > 0 then ubiMaiorVictim k c s else none with
    | some o => ubiMaiorRob k c s o
    | none =>
      if k.type s > 0 ∧ k.restype s ≠ 0 ∧ k.owndby s = some c then
        nestedWait k s
      else do
        let k ← passToOwner k c s
        let k := { k with
          count := Function.update k.count s (k.count s - 1)
          state := Function.update k.state c (k.state c ∪ {.semaphore}) }
        let k := remReadyCurrent k c
        let k ← enqueueBlocked k c (.sem s) (k.qtype s)
        stay k c (.semWait s)
  else takeToken k c s

/-- A waiter that has not got the semaphore leaves its queue. -/
def semWaitFailed (k : Kernel T S) (c : T) (s : S) : Option (Kernel T S) :=
  let k := dequeueBlocked k c
  let k := { k with count := Function.update k.count s (moreCount k s) }
  match k.owndby s with
  | some o => if k.type s > 0 then setTaskPrioFromResq k o else some k
  | none => some k

/-- The end of `rt_sem_wait`. -/
def rtSemWaitTail (k : Kernel T S) (c : T) (s : S) : Option (Outcome T S) :=
  match k.blockedOn c with
  | .null => done (takeOwnership k c s) (.val (k.count s))
  | .objrem => done k .objrem
  | _ => do done (← semWaitFailed k c s) .unblkd

/-- `rt_sem_wait_if`. -/
def rtSemWaitIf (k : Kernel T S) (c : T) (s : S) : Option (Outcome T S) :=
  if !k.semMagic s then done k .objinv
  else if k.count s ≤ 0 then
    match if k.type s > 0 then ubiMaiorVictim k c s else none with
    | some o => ubiMaiorRob k c s o
    | none =>
      if k.restype s ≠ 0 ∧ k.owndby s = some c then nestedWait k s
      else done k (.val (k.count s))
  else takeToken k c s

/-- The end of `rt_sem_wait_until`. -/
def rtSemWaitUntilTail (k : Kernel T S) (c : T) (s : S) : Option (Outcome T S) :=
  match k.blockedOn c with
  | .null => done (takeOwnership k c s) (.val (k.count s))
  | .objrem => done k .objrem
  | b => do
      done (← semWaitFailed k c s) (if b.isPtr then .timout else .unblkd)

/-- `rt_sem_wait_until`. -/
def rtSemWaitUntil (k : Kernel T S) (c : T) (s : S) (time : Int) : Option (Outcome T S) :=
  if !k.semMagic s then done k .objinv
  else if k.count s ≤ 0 then
    let k := { k with
      blockedOn := Function.update k.blockedOn c (.queue (.sem s))
      resumeTime := Function.update k.resumeTime c time }
    if time > k.timeH then
      match if k.type s > 0 then ubiMaiorVictim k c s else none with
      | some o => ubiMaiorRob k c s o
      | none =>
        if k.type s > 0 ∧ k.restype s ≠ 0 ∧ k.owndby s = some c then
          nestedWait k s
        else do
          let k ← passToOwner k c s
          let k := { k with
            count := Function.update k.count s (k.count s - 1)
            state := Function.update k.state c (k.state c ∪ {.semaphore, .delayed}) }
          let k := remReadyCurrent k c
          let k ← enqueueBlocked k c (.sem s) (k.qtype s)
          let k ← enqTimedTask k c
          stay k c (.semWaitUntil s)
    else
      -- the time is over: the task leaves a queue it has not entered
      rtSemWaitUntilTail
        { k with
          count := Function.update k.count s (k.count s - 1)
          queue := k.queue.selfLink (.elem c) } c s
  else takeToken k c s

/-- The first waiter leaves the queue.  It is made ready unless something
    else holds it; the result says whether it was. -/
def wakeWaiter (k : Kernel T S) (u : T) : Option (Kernel T S × Bool) :=
  let k := remTimedTask (dequeueBlocked k u) u
  if k.state u = {.ready} then some (k, false)
  else
    let k := { k with
      state := Function.update k.state u (k.state u \ {.semaphore, .delayed}) }
    if k.state u = {.ready} then do return (← enqReadyTask k u, true)
    else some (k, false)

/-- The end of `rt_sem_signal` for a resource: `u` is the new owner.  A
    registered suspension or deletion of the old owner takes effect. -/
def releaseResource (k : Kernel T S) (c : T) (s : S) (u : Option T) :
    Option (Outcome T S) := do
  let k := { k with owndby := Function.update k.owndby s u }
  let k ← dequeueResqelResetTaskPriority k s c
  if k.suspdepth c > 0 then
    let k := { k with
      state := Function.update k.state c (k.state c ∪ {.suspended}) }
    let k := remReadyCurrent k c
    done k (.val 0)
  else if k.suspdepth c < 0 then
    match u with
    | none => none
    | some u =>
      if k.suspdepth u = RT_RESEM_SUSPDEL then do
        done (← rtTaskDelete k (some c) c) (.val 0)
      else done k (.val 0)
  else done k (.val 0)

/-- The Linux task may not release a resource that has no owner check. -/
def rtSemSignal (k : Kernel T S) (c : Option T) (s : S) : Option (Outcome T S) :=
  if !k.semMagic s then done k .objinv
  else if k.type s ≠ 0 ∧ k.restype s ≠ 0 ∧ (k.owndby s = none ∨ k.owndby s ≠ c)
  then done k .perm
  else if k.type s > 1 then
    done { k with type := Function.update k.type s (k.type s - 1) } (.val 0)
  else
    let k := { k with count := Function.update k.count s (moreCount k s) }
    match queueTask k (k.queue.next (.head (.sem s))) with
    | .higerr => none
    | .null =>
      if k.type s > 0 then do releaseResource k (← c) s none
      else done k (.val 0)
    | .task u => do
        let (k, ready) ← wakeWaiter k u
        if k.type s > 0 then
          let k :=
            if ready then
              { k with
                running := Function.update k.running u
                  (if .delayed ∈ k.state u then -4 else 0) }
            else k
          releaseResource k (← c) s (some u)
        else done k (.val 0)

end RtaiSem
