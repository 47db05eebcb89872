import Rtai.Kernel
import Rtai.Runs

/-! # sched.c: the tasks of several CPUs

    Every CPU has a Linux task that anchors three lists: of its tasks, linked
    by `next` and `prev` and ended by a null pointer, of its ready tasks and of
    its timed tasks.  The CPU of a task is in `runnable_on_cpus`, and it is in
    the low bits of `tid`, by which a task is found again. -/

namespace RtaiCpus

open RtaiRings
open RtaiKernel (Flag TaskState toRTIME RT_SCHED_LINUX_PRIORITY RTAI_TIME_LIMIT)

variable {T : Type} [decT : DecidableEq T] [finT : Fintype T]

/-- `RTAI_NR_CPUS`, `num_online_cpus()`, `TIMER_FREQ` and `tuned.clock_freq` -/
structure Machine where
  nrCpus : Nat
  online : Nat
  timerFreq : Nat
  clockFreq : Nat

/-- The tasks, the heads and the counters.  All the tasks are hard. -/
structure Cpus (T : Type) where
  /-- `magic == RT_TASK_MAGIC` -/
  magic : T → Bool
  lnxtsk : T → Bool
  state : T → TaskState
  priority : T → Int
  period : T → Int
  resumeTime : T → Int
  periodicResumeTime : T → Int
  runnableOnCpus : T → Nat
  tid : T → Int
  /-- `next`, with `none` for the null pointer, and `prev`. -/
  next : Node T Nat → Option T
  prev : Node T Nat → Node T Nat
  /-- `rnext`, `rprev`, and `tnext`, `tprev` -/
  ready : Links (Node T Nat)
  timed : Links (Node T Nat)
  tasksPerCpu : Nat → Int
  rtPid : Int

/-- A value of type `int`. -/
def toInt (x : Int) : Int := x.bmod (2 ^ 32)

/-! ## The three lists -/

/-- `(task->prev)->next = task->next`, and the pointer back. -/
def unlinkTask (x : Cpus T) (t : T) : Cpus T :=
  let p := x.prev (.elem t)
  let n := x.next (.elem t)
  { x with
    next := Function.update x.next p n
    prev := Function.update x.prev
      (match n with
      | none => .head (x.runnableOnCpus t)
      | some u => .elem u) p }

/-- A task becomes the last one of a CPU. -/
def appendTask (x : Cpus T) (t : T) (cpuid : Nat) : Cpus T :=
  let p := x.prev (.head cpuid)
  let next := Function.update x.next (.elem t) none
  { x with
    next := Function.update next p (some t)
    prev := Function.update (Function.update x.prev (.elem t) p) (.head cpuid) (.elem t) }

/-- The priority the scan reads. -/
def readyPriority (x : Cpus T) : Node T Nat → Int
  | .head _ => RT_SCHED_LINUX_PRIORITY
  | .elem t => x.priority t

/-- The resume time the scan reads. -/
def timedResumeTime (x : Cpus T) : Node T Nat → Int
  | .head _ => RTAI_TIME_LIMIT
  | .elem t => x.resumeTime t

/-- More nodes than a list can have. -/
def taskFuel (T : Type) [Fintype T] : Nat := Fintype.card T + 2

/-- Where `enq_ready_task` links a task.  The first node is not compared
    with 0. -/
def readyPos (x : Cpus T) (t : T) : Option (Node T Nat) :=
  let first := x.ready.next (.head (x.runnableOnCpus t))
  if x.priority t < readyPriority x first then some first
  else walk (fun n => some (readyPriority x n < 0 || x.priority t < readyPriority x n))
    x.ready.next (taskFuel T) (x.ready.next first)

/-- `enq_ready_task`, in the list of the task's CPU. -/
def enqReadyTask (x : Cpus T) (t : T) : Option (Cpus T) := do
  let pos ← readyPos x t
  return { x with ready := x.ready.insertBefore (.elem t) pos }

/-- `rem_ready_task`. -/
def remReadyTask (x : Cpus T) (t : T) : Cpus T :=
  if x.state t = {.ready} then { x with ready := x.ready.unlink (.elem t) }
  else x

/-- `enq_timed_task`, in the list of the task's CPU. -/
def enqTimedTask (x : Cpus T) (t : T) : Option (Cpus T) := do
  let pos ← walk (fun n => some (!(x.resumeTime t > timedResumeTime x n)))
    x.timed.next (taskFuel T)
    (x.timed.next (.head (x.runnableOnCpus t)))
  return { x with timed := x.timed.insertBefore (.elem t) pos }

/-- `rem_timed_task`. -/
def remTimedTask (x : Cpus T) (t : T) : Cpus T :=
  if .delayed ∈ x.state t then { x with timed := x.timed.unlink (.elem t) }
  else x

/-! ## Finding a task -/

/-- `while ((task = task->next))` -/
def findLoop (x : Cpus T) (pid : Int) : Nat → Option T → Option T
  | 0, _ => none
  | _, none => none
  | fuel + 1, some t =>
    if x.tid t = pid then some t else findLoop x pid fuel (x.next (.elem t))

/-- `rt_find_task_by_pid`, through a list of the hash. -/
def rtFindTaskByPid (x : Cpus T) (pid : Int) : Option T :=
  findLoop x pid (taskFuel T) (x.next (.head (pid % 16).toNat))

/-- `rt_set_task_pid`: the number tells the CPU. -/
def rtSetTaskPid (x : Cpus T) (t : T) : Cpus T :=
  let rtPid := toInt (x.rtPid - 0x10)
  { x with
    rtPid := rtPid
    tid := Function.update x.tid t (toInt (rtPid + x.runnableOnCpus t)) }

/-! ## Creating, moving and deleting -/

/-- `get_min_tasks_cpuid`: the first that is least loaded. -/
def getMinTasksCpuid (m : Machine) (x : Cpus T) (cpusAllowed : Nat) : Nat :=
  ((List.range m.online).drop 1).foldl
    (fun cpuid i =>
      if cpusAllowed.testBit i ∧ x.tasksPerCpu i < x.tasksPerCpu cpuid then i
      else cpuid) 0

/-- What `rt_task_init_cpuid`, and `__task_init` for a Linux task, do to the
    lists and the counters. -/
def rtTaskInitCpuid (m : Machine) (x : Cpus T) (t : T) (linux : Bool)
    (priority : Int) (cpuid : Nat) : Option (Cpus T) :=
  let cpuid := if m.online ≤ 1 then 0 else cpuid
  if x.magic t ∨ cpuid ≥ m.nrCpus ∨ priority < 0 then none
  else
    let x := { x with
      magic := Function.update x.magic t true
      lnxtsk := Function.update x.lnxtsk t linux
      state := Function.update x.state t (if linux then ∅ else {.suspended, .ready})
      priority := Function.update x.priority t priority
      period := Function.update x.period t 0
      resumeTime := Function.update x.resumeTime t RTAI_TIME_LIMIT
      periodicResumeTime :=
        Function.update x.periodicResumeTime t RTAI_TIME_LIMIT
      runnableOnCpus := Function.update x.runnableOnCpus t cpuid
      tasksPerCpu :=
        Function.update x.tasksPerCpu cpuid (x.tasksPerCpu cpuid + 1) }
    some (rtSetTaskPid (appendTask x t cpuid) t)

/-- What `clr_rtext` does to the task itself. -/
def clrRtext (x : Cpus T) (t : T) : Cpus T :=
  let x := remTimedTask x t
  let x := unlinkTask x t
  let x := { x with magic := Function.update x.magic t false }
  let x := remReadyTask x t
  let cpuid := x.runnableOnCpus t
  { x with
    state := Function.update x.state t ∅
    tasksPerCpu :=
      Function.update x.tasksPerCpu cpuid (x.tasksPerCpu cpuid - 1) }

/-- `mulq` and `divq`, which traps when the quotient has more than 64 bits. -/
def rtaiLlimd (ll : Int) (mult div : Nat) : Option Int :=
  let product := (ll % 2 ^ 64).toNat * mult
  if div = 0 ∨ product / div ≥ 2 ^ 64 then none
  else some (toRTIME (product / div : Nat))

/-- `rt_set_runnable_on_cpuid`: a task changes its CPU. -/
def rtSetRunnableOnCpuid (m : Machine) (x : Cpus T) (t : T) (cpuid : Nat) : Option (Cpus T) :=
  if x.lnxtsk t then some x
  else do
    let cpuid := if cpuid ≥ m.nrCpus then getMinTasksCpuid m x 0xff else cpuid
    let period ← rtaiLlimd (x.period t) m.timerFreq m.clockFreq
    let resumeTime ← rtaiLlimd (x.resumeTime t) m.timerFreq m.clockFreq
    let periodic ← rtaiLlimd (x.periodicResumeTime t) m.timerFreq m.clockFreq
    let x := { x with
      period := Function.update x.period t period
      resumeTime := Function.update x.resumeTime t resumeTime
      periodicResumeTime := Function.update x.periodicResumeTime t periodic }
    let x := unlinkTask x t
    let x ←
      if .delayed ∈ x.state t then
        let x := remTimedTask x t
        enqTimedTask
          { x with
            runnableOnCpus := Function.update x.runnableOnCpus t cpuid } t
      else
        some { x with
          runnableOnCpus := Function.update x.runnableOnCpus t cpuid }
    some (appendTask x t cpuid)

/-! ## What the services do to the lists -/

/-- A task gets bits that keep it from running; with the delayed bit goes the
    time at which it is to run again. -/
def holdTask (x : Cpus T) (t : T) (bits : TaskState) (resumeTime : Int) : Option (Cpus T) :=
  let x := remReadyTask x t
  if .delayed ∈ bits ∧ .delayed ∉ x.state t then
    enqTimedTask
      { x with
        state := Function.update x.state t (x.state t ∪ bits)
        resumeTime := Function.update x.resumeTime t resumeTime } t
  else some { x with state := Function.update x.state t (x.state t ∪ bits) }

/-- A task loses bits, and runs again when only the ready bit is left. -/
def freeTask (x : Cpus T) (t : T) (bits : TaskState) : Option (Cpus T) :=
  let x := if .delayed ∈ bits then remTimedTask x t else x
  if x.state t = {.ready} then some x
  else
    let x := { x with state := Function.update x.state t (x.state t \ bits) }
    if x.state t = {.ready} then enqReadyTask x t else some x

/-- `renq_ready_task` -/
def renqReadyTask (x : Cpus T) (t : T) (priority : Int) : Option (Cpus T) :=
  if x.priority t = priority then some x
  else
    let x := { x with priority := Function.update x.priority t priority }
    if x.state t = {.ready} then
      enqReadyTask { x with ready := x.ready.unlink (.elem t) } t
    else some x

/-- What is done to the tasks and their lists. -/
inductive CpuAction (T : Type) where
  | init (t : T) (linux : Bool) (priority : Int) (cpuid : Nat)
  | delete (t : T)
  | hold (t : T) (bits : TaskState) (resumeTime : Int)
  | free (t : T) (bits : TaskState)
  | setPriority (t : T) (priority : Int)
  /-- Times are set while the task is not in the timed list. -/
  | setTimes (t : T) (period resumeTime periodicResumeTime : Int)
  | migrate (t : T) (cpuid : Nat)

/-- The services are called for tasks that exist.  A priority is an `int`. -/
def cpuStep (m : Machine) (x : Cpus T) : CpuAction T → Option (Cpus T × Unit)
  | .init t linux priority cpuid =>
    if priority ≤ RT_SCHED_LINUX_PRIORITY then do
      let x ← rtTaskInitCpuid m x t linux priority cpuid
      some (x, ())
    else none
  | .delete t => if x.magic t then some (clrRtext x t, ()) else none
  | .hold t bits resumeTime =>
    if x.magic t ∧ bits ≠ ∅ ∧ .ready ∉ bits then do
      let x ← holdTask x t bits resumeTime
      some (x, ())
    else none
  | .free t bits =>
    if x.magic t ∧ .ready ∉ bits then do
      let x ← freeTask x t bits
      some (x, ())
    else none
  | .setPriority t priority =>
    if x.magic t ∧ 0 ≤ priority ∧ priority ≤ RT_SCHED_LINUX_PRIORITY then do
      let x ← renqReadyTask x t priority
      some (x, ())
    else none
  | .setTimes t period resumeTime periodicResumeTime =>
    if x.magic t ∧ .delayed ∉ x.state t then
      some ({ x with
        period := Function.update x.period t period
        resumeTime := Function.update x.resumeTime t resumeTime
        periodicResumeTime :=
          Function.update x.periodicResumeTime t periodicResumeTime }, ())
    else none
  | .migrate t cpuid =>
    if x.magic t then do
      let x ← rtSetRunnableOnCpuid m x t cpuid
      some (x, ())
    else none

/-- Before the first task. -/
def noTasks : Cpus T where
  magic := fun _ => false
  lnxtsk := fun _ => false
  state := fun _ => ∅
  priority := fun _ => 0
  period := fun _ => 0
  resumeTime := fun _ => 0
  periodicResumeTime := fun _ => 0
  runnableOnCpus := fun _ => 0
  tid := fun _ => 0
  next := fun _ => none
  prev := id
  ready := Links.empty
  timed := Links.empty
  tasksPerCpu := fun _ => 0
  rtPid := 0x7ffffff0

/-! ## What holds of the tasks -/

/-- The anchor of the list that a node is in. -/
def home (x : Cpus T) : Node T Nat → Nat
  | .head c => c
  | .elem t => x.runnableOnCpus t

/-- The task lists as rings, with the null pointers led back to the heads. -/
def taskLinks (x : Cpus T) : Links (Node T Nat) where
  next := fun n =>
    match x.next n with
    | none => .head (home x n)
    | some u => .elem u
  prev := x.prev

omit decT finT in
theorem taskLinks_next (x : Cpus T) (n : Node T Nat) :
    (taskLinks x).next n = (x.next n).elim (.head (home x n)) .elem := by
  unfold taskLinks
  dsimp only
  cases x.next n with
  | none => rfl
  | some u => rfl

/-- Well formed lists, one for each CPU: the list of a CPU has the tasks that
    belong in a list and to the CPU, each once and in order. -/
def WellFormed (links : Links (Node T Nat)) (belongs : T → Prop) (cpu : T → Nat)
    (order : T → T → Prop) : Prop :=
  ∃ L, Rings links L ∧ (∀ c t, t ∈ L c ↔ belongs t ∧ cpu t = c) ∧ ∀ c, (L c).Pairwise order

/-- The lists and the counters of all CPUs are right, and every task can be
    found by its `tid`. -/
structure Sound (x : Cpus T) : Prop where
  tasks : WellFormed (taskLinks x) (fun t => x.magic t) x.runnableOnCpus fun _ _ => True
  ready : WellFormed x.ready (fun t => x.magic t ∧ x.state t = {.ready})
    x.runnableOnCpus fun t u => x.priority t ≤ x.priority u
  timed : WellFormed x.timed (fun t => x.magic t ∧ .delayed ∈ x.state t)
    x.runnableOnCpus fun t u => x.resumeTime t ≤ x.resumeTime u
  counts : ∀ c, x.tasksPerCpu c =
    (Finset.univ.filter fun t => x.magic t ∧ x.runnableOnCpus t = c).card
  found : ∀ t, x.magic t → rtFindTaskByPid x (x.tid t) = some t

/-- The times of a task are what they were. -/
def SameTimes (x x' : Cpus T) (t : T) : Prop :=
  x'.period t = x.period t ∧ x'.resumeTime t = x.resumeTime t ∧
    x'.periodicResumeTime t = x.periodicResumeTime t

/-- The scaling leaves the three times of a task. -/
def ScalesToSelf (m : Machine) (x : Cpus T) (t : T) : Prop :=
  rtaiLlimd (x.period t) m.timerFreq m.clockFreq = some (x.period t) ∧
    rtaiLlimd (x.resumeTime t) m.timerFreq m.clockFreq = some (x.resumeTime t) ∧
    rtaiLlimd (x.periodicResumeTime t) m.timerFreq m.clockFreq = some (x.periodicResumeTime t)

/-- The CPU that a task is moved to. -/
def target (m : Machine) (x : Cpus T) (cpuid : Nat) : Nat :=
  if cpuid ≥ m.nrCpus then getMinTasksCpuid m x 0xff else cpuid

/-- A task is moved to the CPU that it is on, and the scaling is that of a timer
    as fast as the clock.  A task is created on a CPU whose number has four
    bits, and gets a `tid` that no task has. -/
def StaysPut (m : Machine) (x : Cpus T) : CpuAction T → Prop
  | .init _ _ _ cpuid =>
    let cpuid := if m.online ≤ 1 then 0 else cpuid
    cpuid < 16 ∧ ∀ u, x.magic u → x.tid u ≠ toInt (toInt (x.rtPid - 0x10) + cpuid)
  | .migrate t cpuid =>
    x.lnxtsk t = false → target m x cpuid = x.runnableOnCpus t ∧ ScalesToSelf m x t
  | _ => True

end RtaiCpus
