import Rtai.Broadcast

/-! # sem.c: multi readers single writer locks

    A lock is made of three semaphores.  The number of its readers is kept in
    the `owndby` field of `rdsem`, which is no resource, so that nothing reads
    the field as a pointer; here it is `readers`.  A call keeps the interrupts
    off but where it sleeps in a wait, and where `rt_rwl_unlock` lets them in
    between giving the lock up and choosing whom to wake. -/

namespace RtaiRwl

open RtaiKernel RtaiPrioInher RtaiTaskApi RtaiSched RtaiSem RtaiSteps
  RtaiBroadcast

/-- The semaphores of the locks `R`. -/
inductive RwlSem (R : Type) where
  | wrmtx (r : R)
  | wrsem (r : R)
  | rdsem (r : R)
  deriving DecidableEq, Fintype

/-- What the calls return: 0, -1, `RTE_RWLINV`, `RTE_PERM`, or what a wait or
    another service has returned. -/
inductive RwlRet (T : Type) where
  | ok
  | busy
  | rwlinv
  | perm
  | other (v : Ret T)
  deriving DecidableEq

/-- Where a call stands: in a wait, whose time it keeps for the next one, or
    between the two sections of `rt_rwl_unlock`. -/
inductive RwlPc (R : Type) where
  | rdsem (r : R) (time : Option Int)
  | wrsem (r : R) (time : Option Int)
  | wrmtx (r : R) (time : Option Int)
  | unlock (r : R)
  deriving DecidableEq

/-- The system, with the place of every task in its call. -/
structure Rwl (T R : Type) where
  kernel : Kernel T (RwlSem R)
  /-- `rdsem.owndby`, counted as an `int`. -/
  readers : R → Int
  call : T → Option (RwlPc R)

/-- The state after a section, and what is returned. -/
abbrev RwlOutcome (T R : Type) := Rwl T R × Option (RwlRet T)

variable {T R : Type} [DecidableEq T] [DecidableEq R] [Fintype T] [Fintype R]

/-- The call of `c` returns. -/
def returns (x : Rwl T R) (c : T) (v : RwlRet T) : Option (RwlOutcome T R) :=
  some ({ x with
    kernel := { x.kernel with
      pc := Function.update x.kernel.pc c .idle }
    call := Function.update x.call c none }, some v)

/-- The call of `c` stands at `p`. -/
def stands (x : Rwl T R) (c : T) (p : RwlPc R) : Option (RwlOutcome T R) :=
  some ({ x with call := Function.update x.call c (some p) }, none)

/-- `rt_sem_wait`, or `rt_sem_wait_until` when there is a time. -/
def semWait (k : Kernel T (RwlSem R)) (c : T) (s : RwlSem R)
    (time : Option Int) : Option (Outcome T (RwlSem R)) :=
  match time with
  | none => (rtSemWait k c s).map (finish c)
  | some time => (rtSemWaitUntil k c s time).map (finish c)

/-- A wait that returns at once takes a token, so that a loop of waits goes
    round no more often than there are tokens. -/
def waitFuel (k : Kernel T (RwlSem R)) (s : RwlSem R) : Nat :=
  (k.count s).toNat + 2

/-! ## Reading -/

/-- `rwl->wrmtx.owndby || ((wtask = (rwl->wrsem.queue.next)->task) &&
    wtask->priority <= rt_current->priority)` -/
def readerWaits (k : Kernel T (RwlSem R)) (c : T) (r : R) : Option Bool :=
  if k.owndby (.wrmtx r) ≠ none then some true
  else
    match resqelTask k (.wrsem r) with
    | .null => some false
    | .task w => some (k.priority w ≤ k.priority c)
    | .higerr => none

/-- `rdsem.owndby++` -/
def addReader (x : Rwl T R) (r : R) : Rwl T R :=
  { x with readers := Function.update x.readers r (incr (x.readers r)) }

/-- The loop of `rt_rwl_rdlock` and `rt_rwl_rdlock_until`. -/
def rdlockLoop (c : T) (r : R) (time : Option Int) : Nat → Rwl T R → Option (RwlOutcome T R)
  | 0, _ => none
  | fuel + 1, x => do
      if ← readerWaits x.kernel c r then
        if x.kernel.owndby (.wrmtx r) = some c then returns x c .rwlinv
        else
          let (k, o) ← semWait x.kernel c (.rdsem r) time
          match o with
          | none => stands { x with kernel := k } c (.rdsem r time)
          | some (.val _) => rdlockLoop c r time fuel { x with kernel := k }
          | some v => returns { x with kernel := k } c (.other v)
      else returns (addReader x r) c .ok

/-- `rt_rwl_rdlock`. -/
def rtRwlRdlock (x : Rwl T R) (c : T) (r : R) : Option (RwlOutcome T R) :=
  rdlockLoop c r none (waitFuel x.kernel (.rdsem r)) x

/-- `rt_rwl_rdlock_until`. -/
def rtRwlRdlockUntil (x : Rwl T R) (c : T) (r : R) (time : Int) : Option (RwlOutcome T R) :=
  rdlockLoop c r (some time) (waitFuel x.kernel (.rdsem r)) x

/-- The test is the opposite of the one of `rt_rwl_rdlock`. -/
def rtRwlRdlockIf (x : Rwl T R) (c : T) (r : R) : Option (RwlOutcome T R) := do
  if !(← readerWaits x.kernel c r) then returns (addReader x r) c .ok
  else returns x c .busy

/-- The wait on `rdsem` is over. -/
def rdlockTail (x : Rwl T R) (c : T) (r : R) (time : Option Int) :
    Option (RwlOutcome T R) := do
  let (k, o) ← (contOp x.kernel c).map (finish c)
  match o with
  | none => none
  | some (.val _) =>
    rdlockLoop c r time (waitFuel k (.rdsem r)) { x with kernel := k }
  | some v => returns { x with kernel := k } c (.other v)

/-! ## Writing -/

/-- What is made of the value of the wait on `wrmtx`. -/
def wrmtxResult (x : Rwl T R) (c : T) (r : R) (time : Option Int)
    (w : Outcome T (RwlSem R)) : Option (RwlOutcome T R) :=
  match w.2 with
  | none => stands { x with kernel := w.1 } c (.wrmtx r time)
  | some (.val _) => returns { x with kernel := w.1 } c .ok
  | some v => returns { x with kernel := w.1 } c (.other v)

/-- The loop of `rt_rwl_wrlock` and `rt_rwl_wrlock_until`, and what follows
    it. -/
def wrlockLoop (c : T) (r : R) (time : Option Int) : Nat → Rwl T R → Option (RwlOutcome T R)
  | 0, _ => none
  | fuel + 1, x =>
    if x.readers r ≠ 0 then do
      let (k, o) ← semWait x.kernel c (.wrsem r) time
      match o with
      | none => stands { x with kernel := k } c (.wrsem r time)
      | some (.val _) => wrlockLoop c r time fuel { x with kernel := k }
      | some v => returns { x with kernel := k } c (.other v)
    else do wrmtxResult x c r time (← semWait x.kernel c (.wrmtx r) time)

/-- `rt_rwl_wrlock`. -/
def rtRwlWrlock (x : Rwl T R) (c : T) (r : R) : Option (RwlOutcome T R) :=
  wrlockLoop c r none (waitFuel x.kernel (.wrsem r)) x

/-- `rt_rwl_wrlock_until`. -/
def rtRwlWrlockUntil (x : Rwl T R) (c : T) (r : R) (time : Int) : Option (RwlOutcome T R) :=
  wrlockLoop c r (some time) (waitFuel x.kernel (.wrsem r)) x

/-- `rt_rwl_wrlock_if`: no readers, and `wrmtx`. -/
def rtRwlWrlockIf (x : Rwl T R) (c : T) (r : R) : Option (RwlOutcome T R) :=
  if x.readers r = 0 then do
    let (k, o) ← (rtSemWaitIf x.kernel c (.wrmtx r)).map (finish c)
    match o with
    | some (.val n) =>
      if n > 0 then returns { x with kernel := k } c .ok
      else returns { x with kernel := k } c .busy
    | _ => returns { x with kernel := k } c .busy
  else returns x c .busy

/-- The wait on `wrsem` is over. -/
def wrsemTail (x : Rwl T R) (c : T) (r : R) (time : Option Int) :
    Option (RwlOutcome T R) := do
  let (k, o) ← (contOp x.kernel c).map (finish c)
  match o with
  | none => none
  | some (.val _) =>
    wrlockLoop c r time (waitFuel k (.wrsem r)) { x with kernel := k }
  | some v => returns { x with kernel := k } c (.other v)

/-- The wait on `wrmtx` is over. -/
def wrmtxTail (x : Rwl T R) (c : T) (r : R) (time : Option Int) :
    Option (RwlOutcome T R) := do
  wrmtxResult x c r time (← (contOp x.kernel c).map (finish c))

/-! ## Unlocking -/

/-- The first section: the lock is given up. -/
def rtRwlUnlock (x : Rwl T R) (c : T) (r : R) : Option (RwlOutcome T R) :=
  if x.kernel.owndby (.wrmtx r) = some c then do
    let (k, _) ← rtSemSignal x.kernel (some c) (.wrmtx r)
    let k := { k with pc := Function.update k.pc c .idle }
    stands { x with kernel := k } c (.unlock r)
  else if x.readers r ≠ 0 then
    stands { x with
      kernel := { x.kernel with
        pc := Function.update x.kernel.pc c .idle }
      readers := Function.update x.readers r (decr (x.readers r)) } c (.unlock r)
  else returns x c .perm

/-- `rt_sem_signal(&rwl->wrsem)` -/
def wakeWriter (x : Rwl T R) (c : T) (r : R) : Option (RwlOutcome T R) := do
  let (k, _) ← rtSemSignal x.kernel (some c) (.wrsem r)
  returns { x with kernel := k } c .ok

/-- `rt_sem_broadcast(&rwl->rdsem)` -/
def wakeReaders (x : Rwl T R) (c : T) (r : R) : Option (RwlOutcome T R) := do
  let (k, _) ← rtSemBroadcast x.kernel (.rdsem r)
  returns { x with kernel := k } c .ok

/-- The second section: a lock that is free is offered to the first writer or
    to the readers. -/
def rwlUnlockTail (x : Rwl T R) (c : T) (r : R) : Option (RwlOutcome T R) :=
  if x.kernel.owndby (.wrmtx r) = none ∧ x.readers r = 0 then
    match resqelTask x.kernel (.wrsem r), resqelTask x.kernel (.rdsem r) with
    | .task wtask, .task rtask =>
      if x.kernel.priority wtask ≤ x.kernel.priority rtask then
        wakeWriter x c r
      else wakeReaders x c r
    | .task _, .null => wakeWriter x c r
    | .null, .task _ => wakeReaders x c r
    | .null, .null => returns x c .ok
    | _, _ => none
  else returns x c .ok

/-! ## The system -/

/-- The calls. -/
inductive RwlOp (R : Type) where
  | rdlock (r : R)
  | rdlockUntil (r : R) (time : Int)
  | rdlockIf (r : R)
  | wrlock (r : R)
  | wrlockUntil (r : R) (time : Int)
  | wrlockIf (r : R)
  | unlock (r : R)
  deriving DecidableEq

/-- The sections. -/
inductive RwlAction (T R : Type) where
  /-- The task calls a service of a lock. -/
  | call (c : T) (op : RwlOp R)
  /-- The task goes on with its call. -/
  | go (c : T)
  /-- Another service, the timer or the scheduler. -/
  | kernel (a : Action T (RwlSem R))
  deriving DecidableEq

/-- A call, up to its first stop. -/
def rwlOp (x : Rwl T R) (c : T) : RwlOp R → Option (RwlOutcome T R)
  | .rdlock r => rtRwlRdlock x c r
  | .rdlockUntil r time => rtRwlRdlockUntil x c r time
  | .rdlockIf r => rtRwlRdlockIf x c r
  | .wrlock r => rtRwlWrlock x c r
  | .wrlockUntil r time => rtRwlWrlockUntil x c r time
  | .wrlockIf r => rtRwlWrlockIf x c r
  | .unlock r => rtRwlUnlock x c r

/-- A task goes on with its call. -/
def goOn (x : Rwl T R) (c : T) : Option (RwlOutcome T R) :=
  match x.call c with
  | none => none
  | some (.rdsem r time) => rdlockTail x c r time
  | some (.wrsem r time) => wrsemTail x c r time
  | some (.wrmtx r time) => wrmtxTail x c r time
  | some (.unlock r) => rwlUnlockTail x c r

/-- A task inside a call of a lock calls nothing else, and its Linux side does
    not leave `rt_schedule_soft`. -/
def outside (x : Rwl T R) : Action T (RwlSem R) → Bool
  | .call c _ => x.call c = none
  | .cont _ => false
  | .softTail t => x.call t = none
  | _ => true

/-- One atomic section. -/
def rwlStep (x : Rwl T R) : RwlAction T R → Option (RwlOutcome T R)
  | .call c op =>
    if mayCall x.kernel c && x.call c = none then rwlOp x c op else none
  | .go c => if executes x.kernel c then goOn x c else none
  | .kernel a =>
    if outside x a then do
      let (k, o) ← exec x.kernel a
      some ({ x with kernel := k }, o.map .other)
    else none

/-- How a system of locks is set up. -/
structure RwlConfig (T R : Type) where
  hard : T → Bool
  priority : T → Nat
  schedlat : T → Int
  linuxSchedlat : Int
  time : Int
  /-- The argument of `rt_typed_rwl_init`. -/
  type : R → Int

/-- `rt_typed_rwl_init` -/
def rtTypedRwlInit (type : R → Int) : RwlSem R → SemInit
  | .wrmtx r => { kind := .resSem (type r), value := 1, fifo := false }
  | .wrsem _ => { kind := .cntSem, value := 0, fifo := false }
  | .rdsem _ => { kind := .cntSem, value := 0, fifo := false }

/-- Tasks and locks at the beginning. -/
def rwlBoot (cfg : RwlConfig T R) : Rwl T R where
  kernel := boot
    { hard := cfg.hard
      priority := cfg.priority
      receiver := fun _ => none
      schedlat := cfg.schedlat
      linuxSchedlat := cfg.linuxSchedlat
      sems := rtTypedRwlInit cfg.type
      time := cfg.time }
  readers := fun _ => 0
  call := fun _ => none

/-! ## The locks that are held -/

/-- The system, with how often each task has to unlock each lock it has taken
    for reading and for writing. -/
structure Locking (T R : Type) where
  rwl : Rwl T R
  reads : T → R → Nat
  writes : T → R → Nat

/-- Nobody has a lock. -/
def unlocked (cfg : RwlConfig T R) : Locking T R where
  rwl := rwlBoot cfg
  reads := fun _ _ => 0
  writes := fun _ _ => 0

/-- The task and the lock of an action that may take the lock, and whether for
    writing. -/
def takes (x : Rwl T R) : RwlAction T R → Option (T × R × Bool)
  | .call c (.rdlock r) => some (c, r, false)
  | .call c (.rdlockUntil r _) => some (c, r, false)
  | .call c (.rdlockIf r) => some (c, r, false)
  | .call c (.wrlock r) => some (c, r, true)
  | .call c (.wrlockUntil r _) => some (c, r, true)
  | .call c (.wrlockIf r) => some (c, r, true)
  | .go c =>
    match x.call c with
    | some (.rdsem r _) => some (c, r, false)
    | some (.wrsem r _) => some (c, r, true)
    | some (.wrmtx r _) => some (c, r, true)
    | _ => none
  | _ => none

/-- The task and the lock of an unlock, and whether the task owns `wrmtx`. -/
def gives (x : Rwl T R) : RwlAction T R → Option (T × R × Bool)
  | .call c (.unlock r) => some (c, r, x.kernel.owndby (.wrmtx r) = some c)
  | _ => none

/-- How often the tasks hold the locks after an action: one that has returned
    0 has taken its lock, an unlock that has not returned an error has given
    it up. -/
def held (x : Rwl T R) (a : RwlAction T R) (o : Option (RwlRet T))
    (write : Bool) (holds : T → R → Nat) (t : T) (r : R) : Nat :=
  holds t r + (if takes x a = some (t, r, write) ∧ o = some .ok then 1 else 0) -
    (if gives x a = some (t, r, write) ∧ o ≠ some .perm then 1 else 0)

/-- A section, and who holds what. -/
def locking (x : Locking T R) (a : RwlAction T R) :
    Option (Locking T R × Option (RwlRet T)) := do
  let (y, o) ← rwlStep x.rwl a
  some (
    { rwl := y
      reads := held x.rwl a o false x.reads
      writes := held x.rwl a o true x.writes }, o)

end RtaiRwl
