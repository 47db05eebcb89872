import Rtai.Runs

/-! # A server for the Linux system calls of a hard task

    `rt_exec_linux_syscall` puts the calls of the task into a ring of slots,
    and the loop of the server takes them out.  Both go on side by side, and
    `rt_linux_syscall_cancel` writes into the slots, too.  The stores of each
    to the shared structure are steps.

    `A` are the arguments of a call and `R` what it returns.  The callback and
    the priority of the server are left out. -/

namespace RtaiLinuxServer

variable {A R U : Type} [DecidableEq U]

/-- The errors. -/
def EINVAL : Int := 22
def ENOENT : Int := 2
def EINPROGRESS : Int := 115
def ECANCELED : Int := 125

/-- A value of type `int`. -/
def toInt (x : Int) : Int := x.bmod (2 ^ 32)

/-- `SYNC_LINUX_SYSCALL` and `ASYNC_LINUX_SYSCALL` -/
inductive SyscallMode where
  | sync
  | async
  deriving DecidableEq

/-- The `mode` of a slot, which `LINUX_SYSCALL_CANCELED` may replace. -/
inductive SlotMode where
  | zero
  | call (mode : SyscallMode)
  | canceled
  deriving DecidableEq

/-- `struct linux_syscall` -/
structure Slot (A R : Type) where
  args : A
  mode : SlotMode
  id : Int
  retval : R

/-- What `rt_exec_linux_syscall` has read. -/
structure From where
  slot : Nat
  id : Int
  mode : SyscallMode
  deriving DecidableEq

/-- Where the task is in `rt_exec_linux_syscall`. -/
inductive TaskPc (A : Type) where
  | out
  /-- Before the stores to the arguments and the mode of a slot. -/
  | fills (args : A) (from_ : From)
  /-- Before the store to the id. -/
  | names (from_ : From)
  /-- Before the stores to the `id` and `in` of the list, which only the task
      reads. -/
  | puts (from_ : From)
  /-- Before `rt_task_resume(from.serv)`. -/
  | wakes (from_ : From)
  /-- Before `rt_task_suspend(rt_current)`. -/
  | suspends (slot : Nat)
  | asleep (slot : Nat)
  /-- Before the read of the result. -/
  | reads (slot : Nat)

/-- Where the server is in its loop. -/
inductive ServerPc (R : Type) where
  /-- Before `SUSPEND`. -/
  | suspends
  | asleep
  /-- Back from `SUSPEND`. -/
  | returns
  /-- Before the test of the mode. -/
  | tests
  /-- Before `syscall`. -/
  | runs
  /-- Before the store to `retval`. -/
  | stores (retval : R)
  /-- Before the change of the sign of the id. -/
  | marks (retval : R)
  /-- Before the task is resumed. -/
  | answers
  /-- Before `++syscalls.out`. -/
  | advances
  | ended

/-- A call that `rt_exec_linux_syscall` has accepted. -/
structure Call (A : Type) where
  args : A
  id : Int
  mode : SyscallMode

/-- The server, its list and the task.  From `log` on it is history: the calls
    accepted, how many of them the server has left behind, what it has run,
    what it has passed over, what `rt_linux_syscall_cancel` has returned 0
    for, and what the calls that have ended have returned. -/
structure Server (A R U : Type) where
  nr : Nat
  in_ : Nat
  out : Nat
  id : Int
  mode : SyscallMode
  slots : Nat → Slot A R
  task : TaskPc A
  server : ServerPc R
  /-- The `suspdepth` of the server and of the task. -/
  servDepth : Int
  taskDepth : Int
  /-- The ids that threads are about to cancel. -/
  canceling : U → Option Int
  log : List (Call A)
  served : Nat
  done : List (Nat × A)
  skipped : Nat → Bool
  canceled : Nat → Bool
  results : Nat → Option R

/-- `++i >= nr` -/
def advance (nr i : Nat) : Nat :=
  if i + 1 ≥ nr then 0 else i + 1

/-- `++from.id < 0` -/
def nextId (id : Int) : Int :=
  if toInt (id + 1) < 0 then 0 else toInt (id + 1)

/-- A slot of the ring. -/
def Server.setSlot (s : Server A R U) (slot : Nat) (v : Slot A R) :
    Server A R U :=
  { s with slots := Function.update s.slots slot v }

/-! ## rt_exec_linux_syscall -/

/-- Up to the test for a full ring. -/
def exec (s : Server A R U) (args : A) : Option (Server A R U × Option Int) :=
  match s.task with
  | .out =>
    if s.mode = .async ∧ advance s.nr s.in_ = s.out then some (s, some (-1))
    else some ({ s with task := .fills args ⟨s.in_, s.id, s.mode⟩ }, none)
  | _ => none

/-- `rt_task_resume` of the server. -/
def resumeServer (s : Server A R U) : Server A R U :=
  let s := { s with servDepth := s.servDepth - 1 }
  if s.servDepth = 0 then
    match s.server with
    | .asleep => { s with server := .returns }
    | _ => s
  else s

/-- The next step of the task, in the variant with `CONFIG_RTAI_USE_STACK_ARGS`,
    which copies a whole slot, in the order of its fields: `args`, `mode`, `id`.
    `owns` is what `task_owns_sems` finds. -/
def taskGo (s : Server A R U) (owns : Bool) : Option (Server A R U × Option Int) :=
  match s.task with
  | .out => none
  | .fills args from_ =>
    let s := s.setSlot from_.slot { s.slots from_.slot with
      args := args
      mode := .call from_.mode }
    some ({ s with
      task := .names from_
      log := s.log ++ [⟨args, from_.id, from_.mode⟩] }, none)
  | .names from_ =>
    let s := s.setSlot from_.slot { s.slots from_.slot with id := from_.id }
    some ({ s with task := .puts from_ }, none)
  | .puts from_ =>
    some ({ s with
      id := nextId from_.id
      in_ := advance s.nr from_.slot
      task := .wakes from_ }, none)
  | .wakes from_ =>
    let s := if s.servDepth ≥ -(s.nr : Int) then resumeServer s else s
    match from_.mode with
    | .sync => some ({ s with task := .suspends from_.slot }, none)
    | .async => some ({ s with task := .out }, some from_.id)
  | .suspends slot =>
    if !owns ∧ s.taskDepth = 0 then
      some ({ s with task := .asleep slot, taskDepth := 1 }, none)
    else
      some ({ s with task := .reads slot, taskDepth := s.taskDepth + 1 }, none)
  | .asleep _ => none
  | .reads _ => some ({ s with task := .out }, none)

/-! ## linux_syscall_server_fun -/

/-- `rt_task_resume` of the task. -/
def resumeTask (s : Server A R U) : Server A R U :=
  let s := { s with taskDepth := s.taskDepth - 1 }
  if s.taskDepth = 0 then
    match s.task with
    | .asleep slot => { s with task := .reads slot }
    | _ => s
  else s

/-- The next step of the server.  `retval` is what the call returns, if it is
    made now, and `lowErr` is `RTE_LOWERR`. -/
def serverGo (lowErr : Nat) (s : Server A R U) (retval : R) : Option (Server A R U) :=
  let slot := s.slots s.out
  match s.server with
  | .suspends =>
    if s.servDepth = 0 then
      some { s with server := .asleep, servDepth := 1 }
    else some { s with server := .returns, servDepth := s.servDepth + 1 }
  | .asleep | .ended => none
  | .returns =>
    some { s with
      server := if s.servDepth.natAbs < lowErr then .tests else .ended }
  | .tests =>
    if slot.mode = .canceled then
      some { s with
        server := .advances
        skipped := Function.update s.skipped s.served true }
    else some { s with server := .runs }
  | .runs =>
    some { s with
      server := .stores retval
      done := s.done ++ [(s.served, slot.args)] }
  | .stores retval =>
    some { s.setSlot s.out { slot with retval := retval } with
      server := .marks retval }
  | .marks retval =>
    some { s.setSlot s.out { slot with id := toInt (-slot.id) } with
      server := .answers
      results := Function.update s.results s.served (some retval) }
  | .answers =>
    let s := if slot.mode = .call .sync then resumeTask s else s
    some { s with server := .advances }
  | .advances =>
    some { s with
      server := .suspends
      out := advance s.nr s.out
      served := s.served + 1 }

/-! ## rt_linux_syscall_status and rt_linux_syscall_cancel -/

/-- The slot of an identifier. -/
def slotOf (s : Server A R U) (id : Int) : Nat := (id % s.nr).toNat

/-- What is returned, and the result that is stored. -/
def rtLinuxSyscallStatus (s : Server A R U) (id : Int) : Int × Option R :=
  let slot := s.slots (slotOf s id)
  if id < 0 then (EINVAL, none)
  else if id ≠ slot.id.natAbs then (ENOENT, none)
  else if slot.mode = .canceled then (ECANCELED, none)
  else if slot.id > 0 then (EINPROGRESS, none)
  else (0, some slot.retval)

/-- `rt_linux_syscall_cancel` up to its store. -/
def cancelBegin (s : Server A R U) (u : U) (id : Int) : Option (Server A R U × Option Int) :=
  match s.canceling u with
  | some _ => none
  | none =>
    let slot := s.slots (slotOf s id)
    if id < 0 then some (s, some EINVAL)
    else if id ≠ slot.id.natAbs then some (s, some ENOENT)
    else if slot.id < 0 then some (s, some slot.id)
    else
      some ({ s with canceling := Function.update s.canceling u (some id) }, none)

/-- The call that a slot holds, if it has not been reused. -/
def Holds (s : Server A R U) (k : Nat) : Prop :=
  k < s.log.length ∧ s.log.length ≤ k + s.nr

instance (s : Server A R U) (k : Nat) : Decidable (Holds s k) :=
  inferInstanceAs (Decidable (_ ∧ _))

/-- A call with an id that a slot holds. -/
def IsCall (s : Server A R U) (slot : Nat) (id : Int) (k : Nat) : Prop :=
  Holds s k ∧ k % s.nr = slot ∧ s.log[k]?.any fun c => c.id = id

instance (s : Server A R U) (slot : Nat) (id : Int) (k : Nat) :
    Decidable (IsCall s slot id k) :=
  inferInstanceAs (Decidable (_ ∧ _ ∧ _))

/-- The store. -/
def cancelEnd (s : Server A R U) (u : U) : Option (Server A R U × Option Int) :=
  match s.canceling u with
  | none => none
  | some id =>
    let slot := slotOf s id
    let s := { s with
      canceling := Function.update s.canceling u none
      canceled := fun k => s.canceled k || IsCall s slot id k }
    some (s.setSlot slot { s.slots slot with mode := .canceled }, some 0)

/-! ## The system -/

/-- What the parties do. -/
inductive ServerAction (A R U : Type) where
  | exec (args : A)
  | task (owns : Bool)
  | server (retval : R)
  | cancel (u : U) (id : Int)
  | cancelEnd (u : U)
  /-- `rt_linux_syscall_mode` -/
  | setMode (mode : SyscallMode)

/-- One section of one of them. -/
def serverStep (lowErr : Nat) (s : Server A R U) :
    ServerAction A R U → Option (Server A R U × Option Int)
  | .exec args => exec s args
  | .task owns => taskGo s owns
  | .server retval => do
      let s ← serverGo lowErr s retval
      return (s, none)
  | .cancel u id => cancelBegin s u id
  | .cancelEnd u => cancelEnd s u
  | .setMode mode => some ({ s with mode := mode }, none)

/-- A server for `nrCalls` calls that is at its loop. -/
def create (args : A) (retval : R) (nrCalls : Nat) (mode : SyscallMode) :
    Server A R U where
  nr := nrCalls + 1
  in_ := 0
  out := 0
  id := 0
  mode := mode
  slots := fun _ => ⟨args, .zero, 0, retval⟩
  task := .out
  server := .suspends
  servDepth := 0
  taskDepth := 0
  canceling := fun _ => none
  log := []
  served := 0
  done := []
  skipped := fun _ => false
  canceled := fun _ => false
  results := fun _ => none

/-! ## What a server promises -/

/-- The asynchronous calls that are accepted and not left behind. -/
def outstanding (s : Server A R U) : Nat :=
  (s.log.drop s.served).countP fun c => c.mode = .async

/-- The calls that the server has taken up or passed over. -/
def pastOf (served : Nat) : ServerPc R → Nat
  | .stores _ | .marks _ | .answers | .advances => served + 1
  | _ => served

/-- Those of the first `m` calls that are not passed over, with their
    arguments. -/
def turns (log : List (Call A)) (skipped : Nat → Bool) (m : Nat) : List (Nat × A) :=
  ((List.range m).filter fun k => !skipped k).filterMap
    fun k => log[k]?.map fun c => (k, c.args)

/-- Of `n` calls, those for which the server has been woken. -/
def wokenOf (n : Nat) : TaskPc A → Nat
  | .names _ | .puts _ | .wakes _ => n - 1
  | _ => n

/-- The calls the server has been woken for. -/
def woken (s : Server A R U) : Nat := wokenOf s.log.length s.task

/-- Every call that is not cancelled is executed once and in its turn, there is
    room for the asynchronous ones, and the status of a call is what has become
    of it. -/
structure ServerOk (s : Server A R U) : Prop where
  /-- What has been run, with its arguments. -/
  executed : s.done = turns s.log s.skipped (pastOf s.served s.server)
  passed : ∀ k, s.skipped k → s.canceled k
  /-- A server that sleeps has nothing to do. -/
  idle : s.server = .asleep ∨ s.server = .ended → s.served = woken s
  bound : outstanding s ≤ s.nr - 1
  refused : ∀ args, s.task = .out → s.mode = .async →
    outstanding s = s.nr - 1 → exec s args = some (s, some (-1))
  status : ∀ k c, s.log[k]? = some c → c.mode = .async → k < woken s → Holds s k →
    rtLinuxSyscallStatus s c.id =
      if s.canceled k then (ECANCELED, none)
      else
        match s.results k with
        | none => (EINPROGRESS, none)
        | some retval => (0, some retval)

/-- An asynchronous call gets an id other than 0 whose slot is the one it is put
    in, the ring does not hold so many calls that the server takes their number
    for an error, a task that waits for a call holds no semaphore, and a slot
    has the same call when it is cancelled as when it was looked up. -/
def Plain (lowErr : Nat) (s : Server A R U) : ServerAction A R U → Prop
  | .task owns =>
    match s.task with
    | .fills _ from_ =>
      from_.mode = .async → from_.id ≠ 0 ∧ slotOf s from_.id = from_.slot
    | .suspends _ => owns = false
    | _ => True
  | .server _ =>
    match s.server with
    | .returns => s.servDepth.natAbs < lowErr
    | _ => True
  | .cancelEnd u =>
    match s.canceling u with
    | some id =>
      id = (s.slots (slotOf s id)).id.natAbs ∧
        match s.task with
        | .names from_ => from_.slot ≠ slotOf s id
        | _ => True
    | none => True
  | _ => True

end RtaiLinuxServer
