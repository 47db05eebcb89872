import Rtai.Rings

/-! # The scheduler's data

    The fields of `RT_TASK` and `SEM` that the scheduler, the semaphores and
    the intertask messages read and write, for any set `T` of tasks and `S` of
    semaphores on one CPU.  Pointers are kept as such: the ready and timed
    lists, the wait queues and the lists of owned resources are `Links`
    between nodes, never Lean lists.

    The configuration is `CONFIG_RTAI_FULL_PRINHER`, the new error codes, the
    linear timed list and no pollers.  A task's progress through a blocking
    call is explicit: `pc` says at which call of `rt_schedule` it stands. -/

namespace RtaiKernel

open RtaiRings

/-- The bits of `task->state`. -/
inductive Flag where
  | ready
  | suspended
  | delayed
  | semaphore
  | send
  | receive
  | rpc
  | ret
  | mbxsusp
  | sftrdy
  | poll
  | sigsusp
  deriving DecidableEq

/-- A value of `task->state`, or a mask for it. -/
abbrev TaskState := Finset Flag

/-- An `unsigned long` that is only stored and copied. -/
abbrev Word := UInt64

/-- The priority of the Linux tasks. -/
def RT_SCHED_LINUX_PRIORITY : Int := 0x7fffffff

/-- Where the soft priorities begin. -/
def BASE_SOFT_PRIORITY : Int := 1000000000

/-- A time that never comes. -/
def RTAI_TIME_LIMIT : Int := 0x7000000000000000

/-- `suspdepth` of a resource owner that is to be deleted. -/
def RT_RESEM_SUSPDEL : Int := -0x7fffffff

/-- The result of 64 bit signed arithmetic on `RTIME`. -/
def toRTIME (x : Int) : Int := x.bmod (2 ^ 64)

/-- `++` on an `int`, which goes round at the end of its range. -/
def incr (n : Int) : Int := if n = 2 ^ 31 - 1 then -2 ^ 31 else n + 1

/-- `--` on an `int`. -/
def decr (n : Int) : Int := if n = -2 ^ 31 then 2 ^ 31 - 1 else n - 1

theorem incr_of_lt {n : Int} (h : n < 2 ^ 31 - 1) : incr n = n + 1 :=
  if_neg (by omega)

theorem decr_of_gt {n : Int} (h : -2 ^ 31 < n) : decr n = n - 1 :=
  if_neg (by omega)

/-- `!--n` finds 0 when `n` has been 1. -/
@[simp] theorem decr_eq_zero {n : Int} : decr n = 0 ↔ n = 1 := by
  unfold decr
  split <;> omega

/-- The three queue heads: `sem->queue`, `task->msg_queue` and
    `task->ret_queue`. -/
inductive Head (T S : Type) where
  | sem (s : S)
  | msg (t : T)
  | ret (t : T)
  deriving DecidableEq

/-- What `msg_queue.task` and `ret_queue.task` hold. -/
inductive TaskPtr (T : Type) where
  | null
  /-- `RTP_HIGERR`: a receive that has got nothing yet. -/
  | higerr
  | task (t : T)
  deriving DecidableEq

/-- What `task->blocked_on` holds. -/
inductive BlockedOn (T S : Type) where
  | null
  /-- `RTP_OBJREM` -/
  | objrem
  /-- `RTP_UNBLKD` -/
  | unblkd
  /-- The task itself: suspended by its own call. -/
  | self (t : T)
  | queue (h : Head T S)
  deriving DecidableEq

/-- `(void *)blocked_on > RTP_HIGERR`: a pointer, not an error marker. -/
def BlockedOn.isPtr {T S : Type} : BlockedOn T S → Bool
  | .null => false
  | .objrem => false
  | .unblkd => false
  | .self _ => true
  | .queue _ => true

/-- Where a task stands in the call it executes. -/
inductive Pc (T S : Type) where
  /-- Outside any call. -/
  | idle
  /-- A soft task in `rt_schedule_soft`, about to run its call. -/
  | start
  | suspend
  | suspendUntil
  /-- `rt_sleep`, `rt_sleep_until`, `rt_task_wait_period` -/
  | sleep
  | semWait (s : S)
  | semWaitUntil (s : S)
  /-- `rt_send`, `rt_send_until` -/
  | send (dest : T)
  | sendIf (dest : T)
  /-- `rt_rpc`, `rt_rpc_if`, `rt_rpc_until` -/
  | rpc (dest : T)
  /-- `rt_receive`, `rt_receive_until`, with the message when it had been
      taken before the reschedule -/
  | receive (got : Option Word)
  | receiveIf (got : Word)
  /-- The `rt_return` to a proxy at the end of a receive. -/
  | proxyReturn (src : T) (got : Word)
  deriving DecidableEq

/-- What Linux is doing with the thread of a soft task. -/
inductive LinuxSide where
  /-- In user mode, outside `rt_schedule_soft`. -/
  | user
  /-- In the loop at the beginning of `rt_schedule_soft`. -/
  | entering
  /-- Executing the call. -/
  | inside
  /-- In the `schedule()` of `rt_schedule`. -/
  | asleep
  deriving DecidableEq

/-- The state of one CPU. -/
structure Kernel (T S : Type) where
  /-- The fields of `RT_TASK`. -/
  isHard : T → Bool
  magic : T → Bool
  state : T → TaskState
  running : T → Int
  priority : T → Int
  basePriority : T → Int
  policy : T → Int
  period : T → Int
  resumeTime : T → Int
  periodicResumeTime : T → Int
  resyncFrame : T → Bool
  schedlat : T → Int
  /-- An `int`, for `incr` and `decr`. -/
  suspdepth : T → Int
  blockedOn : T → BlockedOn T S
  msg : T → Word
  /-- `msg_queue.task` -/
  msgTask : T → TaskPtr T
  /-- `ret_queue.task` -/
  retTask : T → TaskPtr T
  /-- `((struct proxy_t *)stack_bottom)->receiver` of a proxy -/
  receiver : T → Option T
  /-- The Linux thread of a soft task; `wakeup` is a pended wake up. -/
  linux : T → LinuxSide
  wakeup : T → Bool
  pc : T → Pc T S
  /-- `rnext`, `rprev`, anchored at the Linux task. -/
  ready : Links (Node T Unit)
  /-- `tnext`, `tprev`, anchored at the Linux task. -/
  timed : Links (Node T Unit)
  /-- `next`, `prev` of `task->queue` and of the queue heads. -/
  queue : Links (Node T (Head T S))
  /-- `next`, `prev` of `sem->resq` and of `task->resq`. -/
  resq : Links (Node S T)
  /-- The fields of `SEM`. -/
  semMagic : S → Bool
  /-- An `int`.  Below zero it is minus the number of tasks in the queue, which
      an `int` holds, so that `--` is a subtraction. -/
  count : S → Int
  /-- An `int`. -/
  type : S → Int
  restype : S → Int
  qtype : S → Int
  owndby : S → Option T
  /-- `rt_time_h` and the `schedlat` of the Linux task. -/
  timeH : Int
  linuxSchedlat : Int

/-- What a call returns. -/
inductive Ret (T : Type) where
  | val (n : Int)
  | inval
  | time
  | objinv
  | objrem
  | deadlok
  | perm
  | timout
  | unblkd
  | tmrovrn
  /-- The null pointer of a messaging call. -/
  | none
  /-- The destination of a send. -/
  | sent (dest : T)
  /-- The destination of an rpc and `*result`. -/
  | rpced (dest : T) (result : Word)
  /-- The task a result has been returned to. -/
  | returned (dest : T)
  /-- The sender of a message and `*msg`. -/
  | received (src : T) (msg : Word)
  deriving DecidableEq

/-- The kinds of semaphores, with the `restype` of a resource. -/
inductive SemKind where
  | binSem
  | cntSem
  | resSem (restype : Int)
  deriving DecidableEq

/-- The arguments of `rt_typed_sem_init`. -/
structure SemInit where
  kind : SemKind
  value : Nat
  fifo : Bool
  deriving DecidableEq

/-- How a system is set up. -/
structure Config (T S : Type) where
  hard : T → Bool
  priority : T → Nat
  /-- The receiver of a task that is a proxy. -/
  receiver : T → Option T
  schedlat : T → Int
  linuxSchedlat : Int
  sems : S → SemInit
  time : Int

section Boot

variable {T S : Type} [DecidableEq T] [DecidableEq S]

/-- The state after `rt_task_init` (hard tasks), `set_rtext` (soft tasks) and
    `rt_typed_sem_init` have set up every task and semaphore. -/
def boot (cfg : Config T S) : Kernel T S where
  isHard := cfg.hard
  magic := fun _ => true
  state := fun t => if cfg.hard t then {.suspended, .ready} else {.ready}
  running := fun _ => 0
  priority := fun t =>
    if cfg.hard t then cfg.priority t else BASE_SOFT_PRIORITY + cfg.priority t
  basePriority := fun t =>
    if cfg.hard t then cfg.priority t else BASE_SOFT_PRIORITY + cfg.priority t
  policy := fun _ => 0
  period := fun _ => 0
  resumeTime := fun _ => RTAI_TIME_LIMIT
  periodicResumeTime := fun _ => RTAI_TIME_LIMIT
  resyncFrame := fun _ => false
  schedlat := cfg.schedlat
  suspdepth := fun t => if cfg.hard t then 1 else 0
  blockedOn := fun _ => .null
  msg := fun _ => 0
  msgTask := fun t => .task t
  retTask := fun _ => .null
  receiver := cfg.receiver
  linux := fun _ => .user
  wakeup := fun _ => false
  pc := fun _ => .idle
  ready := Links.empty
  timed := Links.empty
  queue := Links.empty
  resq := Links.empty
  semMagic := fun _ => true
  count := fun s =>
    match (cfg.sems s).kind with
    | .binSem => if (cfg.sems s).value > 1 then 1 else (cfg.sems s).value
    | .cntSem => (cfg.sems s).value
    | .resSem _ => 1
  type := fun s =>
    match (cfg.sems s).kind with
    | .binSem => -1
    | .cntSem => 0
    | .resSem _ => 1
  restype := fun s =>
    match (cfg.sems s).kind with
    | .binSem => 0
    | .cntSem => 0
    | .resSem r => r
  qtype := fun s =>
    match (cfg.sems s).kind with
    | .resSem _ => 0
    | _ => if (cfg.sems s).fifo then 1 else 0
  owndby := fun _ => none
  timeH := cfg.time
  linuxSchedlat := cfg.linuxSchedlat

end Boot

end RtaiKernel
