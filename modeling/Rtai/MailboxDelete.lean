import Rtai.Mailbox

/-! # The deletion of a mailbox

    `rt_mbx_delete`, or the last `rt_named_mbx_delete`, section by section
    beside the sends and receives of `Mailbox`.  A send or a receive is cut
    once more, behind each of the two checks of a magic; a task in the queue of
    `sndsem` or `rcvsem` is told from one that has yet to get there.  What is
    called is `_rt_mbx_send`, `_rt_mbx_receive` and their `_wp`, `_if` and
    `_until` forms.  There is no step after an access to freed memory. -/

namespace RtaiMailboxDelete

open RtaiMailbox
open RtaiKernel (Ret)

/-- Where a task is in `rt_sem_wait` or `rt_sem_wait_until`. -/
inductive Door where
  /-- Before `CHECK_SEM_MAGIC`. -/
  | calling
  /-- Behind it. -/
  | checked
  | queued
  /-- Made ready by the timer or by an unblock, still in the queue. -/
  | ended (unblocked : Bool)
  /-- Let in by `rt_sem_signal`. -/
  | granted
  deriving DecidableEq

/-- The next section of a deletion. -/
inductive DelPc where
  | none
  /-- `rt_wakeup_pollers` of this end. -/
  | pollers (side : Side)
  /-- `rt_sem_delete` of this end. -/
  | sem (side : Side)
  /-- `while (mbx->waiting_task)`, and `mbx_delete_signal`. -/
  | waiter
  /-- `rt_free(mbx->bufadr)` -/
  | freeBuf
  /-- `rt_free(mbx)` of `rt_named_mbx_delete`. -/
  | freeMbx
  | done
  deriving DecidableEq

/-- A send or a receive that has returned. -/
structure Return (T : Type) where
  /-- The mailbox was deleted before the call. -/
  refused : Bool
  /-- The call has been told that the mailbox is removed. -/
  told : Bool
  /-- It has copied from or to a freed buffer. -/
  late : Bool
  /-- The bytes that it has not moved. -/
  left : Int
  value : Ret T

/-- The mailboxes, and how far a deletion is. -/
structure Sys (T M : Type) where
  st : St T M
  /-- The call that is behind `CHK_MBX_MAGIC`. -/
  begun : T → Option (Request M)
  door : T → Door
  /-- `blocked_on` is `RTP_OBJREM`. -/
  told : T → Bool
  magic : M → Bool
  semMagic : M → Side → Bool
  deletion : M → DelPc
  /-- It is a `rt_named_mbx_delete`. -/
  named : M → Bool
  bufFreed : M → Bool
  mbxFreed : M → Bool
  /-- Freed memory has been read or written. -/
  touched : Bool
  late : T → Bool
  returns : List (Return T)

/-- The sections, with those of a deletion. -/
inductive DelAction (T M : Type) where
  | call (t : T) (r : Request M)
  /-- A task executes its next section. -/
  | run (t : T)
  /-- The timer or an unblock makes a task in the queue of a semaphore ready. -/
  | giveUp (t : T) (unblocked : Bool)
  /-- What `rt_sem_signal` does to a task in the queue. -/
  | grant (t : T)
  /-- The same for a task that sleeps in `mbx_wait`. -/
  | expire (t : T)
  | unblock (t : T)
  | tick (time timeH : Int)
  | delete (m : M) (named : Bool)
  /-- The next section of the deletion. -/
  | goDelete (m : M)

/-- The mailbox of a send or a receive. -/
def mailbox {M : Type} : Request M → Option M
  | .mbxSend m _ _ => some m
  | .mbxSendWp m _ _ => some m
  | .mbxSendIf m _ _ => some m
  | .mbxSendUntil m _ _ _ => some m
  | .mbxReceive m _ => some m
  | .mbxReceiveWp m _ => some m
  | .mbxReceiveIf m _ => some m
  | .mbxReceiveUntil m _ _ => some m
  | .mbxOvrwrSend _ _ _ => none
  | .poll _ _ => none

/-- The bytes that are asked for. -/
def msgSize {M : Type} : Request M → Int
  | .mbxSend _ _ n => n
  | .mbxSendWp _ _ n => n
  | .mbxSendIf _ _ n => n
  | .mbxSendUntil _ _ n _ => n
  | .mbxReceive _ n => n
  | .mbxReceiveWp _ n => n
  | .mbxReceiveIf _ n => n
  | .mbxReceiveUntil _ n _ => n
  | .mbxOvrwrSend _ _ n => n
  | .poll _ _ => 0

/-- The call goes through `rt_sem_wait`. -/
def throughSem {M : Type} : Request M → Bool
  | .mbxSend _ _ _ => true
  | .mbxSendUntil _ _ _ _ => true
  | .mbxReceive _ _ => true
  | .mbxReceiveUntil _ _ _ => true
  | _ => false

/-- The call may block. -/
def waits : Mode → Bool
  | .wait => true
  | .until _ => true
  | _ => false

section Model

variable {T M : Type} [DecidableEq T] [DecidableEq M]

/-- A field of the mailbox is read or written. -/
def Sys.access (s : Sys T M) (m : M) : Sys T M :=
  { s with touched := s.touched || s.mbxFreed m }

/-- Bytes are copied from or to the buffer. -/
def Sys.accessBuf (s : Sys T M) (t : T) (m : M) : Sys T M :=
  { s with
    touched := s.touched || s.bufFreed m
    late := Function.update s.late t (s.late t || s.bufFreed m) }

/-- A call at its test of `magic`. -/
def Sys.enterDoor (s : Sys T M) (t : T) (d : Door) : Sys T M :=
  { s with door := Function.update s.door t d }

/-- A task has been told. -/
def Sys.setTold (s : Sys T M) (t : T) (b : Bool) : Sys T M :=
  { s with told := Function.update s.told t b }

/-- The call returns. -/
def finish (s : Sys T M) (t : T) (c : Call M) (r : Ret T) : Sys T M :=
  { s with
    st := s.st.goto t .idle
    returns := ⟨false, s.told t, s.late t, c.msgSize, r⟩ :: s.returns }

/-! ## Sends and receives -/

/-- Behind `CHK_MBX_MAGIC`: the first section of the call. -/
def runBegun (s : Sys T M) (t : T) (r : Request M) : Sys T M :=
  let (st, e) := request s.st t r
  let s := { s with st, begun := Function.update s.begun t none }
  match e with
  | .returned _ v =>
    { s with
      returns := ⟨false, s.told t, s.late t, msgSize r, v⟩ :: s.returns }
  | _ => s.enterDoor t .calling

/-- `rt_sem_wait` and `rt_sem_wait_until`. -/
def runSem (s : Sys T M) (t : T) (c : Call M) : Option (Sys T M) :=
  let free := (s.st.mbx c.mbx).sem c.side = none
  match s.door t with
  | .calling =>
    let s := s.access c.mbx
    if s.semMagic c.mbx c.side then some (s.enterDoor t .checked)
    else some (finish s t c (semError c .objinv))
  | .checked =>
    let s := s.access c.mbx
    if free then some { s with st := enter s.st t c .loop }
    else some ((s.enterDoor t .queued).setTold t false)
  | .queued =>
    if s.told t then some (finish s t c (semError c .objrem)) else none
  | .ended unblocked =>
    some (finish (s.access c.mbx) t c (semError c (if unblocked then .unblkd else .timout)))
  | .granted =>
    let s := s.access c.mbx
    some { s with st := s.st.goto t (.call c .loop) }

/-- `rt_sem_signal` finds the task in the queue. -/
def grant (s : Sys T M) (t : T) (c : Call M) : Option (Sys T M) :=
  let x := s.st.mbx c.mbx
  if s.semMagic c.mbx c.side ∧ x.sem c.side = none then
    let s' := { s with st := s.st.setMbx c.mbx (x.setSem c.side (some t)) }
    match s.door t with
    | .queued => some ((s'.enterDoor t .granted).setTold t false)
    | .ended _ => some ((s'.enterDoor t .granted).setTold t false)
    | _ => none
  else none

/-- The copy of a pass is done. -/
def copies (s : Sys T M) (c : Call M) : Bool :=
  c.msgSize > 0 ∧ (s.st.mbx c.mbx).fravbs c.side ≠ 0

/-- `rt_sem_signal` finds the magic of a deleted semaphore. -/
def runSemSignal (s : Sys T M) (t : T) (c : Call M) (error : Option (Ret T)) :
    Sys T M :=
  let s := s.access c.mbx
  let s := if s.semMagic c.mbx c.side then
      { s with st := s.st.setMbx c.mbx ((s.st.mbx c.mbx).setSem c.side none) }
    else s
  match afterRelease c error with
  | .inl pc => { s with st := s.st.goto t pc }
  | .inr r => finish s t c r

/-- `mbx_signal` -/
def runSignal (s : Sys T M) (t : T) (c : Call M) : Sys T M :=
  let s := s.access c.mbx
  let s := match (s.st.mbx c.mbx).waitingTask with
    | none => s
    | some u => s.setTold u false
  { s with
    st := (mbxSignal s.st c.mbx).goto t (.call c c.mode.afterSignal) }

/-- The return to `mbx_wait` and `mbx_wait_until`. -/
def runWoken (s : Sys T M) (t : T) (c : Call M) : Sys T M :=
  if s.told t then
    let s := s.access c.mbx
    let x := { s.st.mbx c.mbx with waitingTask := none }
    { s with
      st := (s.st.setMbx c.mbx x).goto t (.call c (.semSignal (some .objrem))) }
  else
    let s := if s.st.blockedOn t = .null then s else s.access c.mbx
    { s with st := mbxWaitTail s.st t c }

/-- The next section of a send or a receive. -/
def runSection (s : Sys T M) (t : T) (c : Call M) : Stage T → Option (Sys T M)
  | .semWait => runSem s t c
  | .loop =>
    if c.msgSize ≠ 0 then
      let s := (s.access c.mbx).setTold t false
      some { s with st := mbxWait s.st t c }
    else some { s with st := s.st.goto t (.call c (.semSignal none)) }
  | .woken => some (runWoken s t c)
  | .copy =>
    let s := s.access c.mbx
    let s := if copies s c then s.accessBuf t c.mbx else s
    some { s with st := copy s.st t c }
  | .counters n bytes =>
    let s := s.access c.mbx
    some { s with st := (counters s.st t c n bytes).1 }
  | .index n =>
    let s := s.access c.mbx
    some { s with st := index s.st t c n }
  | .mbxSignal => some (runSignal s t c)
  | .semSignal error => some (runSemSignal s t c error)
  | .wakeup ql reason retval =>
    let s := s.access c.mbx
    match wakeupPoller s.st c.mbx ql reason with
    | some st => some { s with st }
    | none => some (finish s t c retval)
  | _ => none

/-! ## The deletion -/

/-- `rt_sem_delete`: whoever is in the queue, and not ready, is told. -/
def semDelete (s : Sys T M) (m : M) (side : Side) : Sys T M :=
  { s with
    semMagic := Function.update s.semMagic m (Function.update (s.semMagic m) side false)
    told := fun t =>
      match s.st.pc t, s.door t with
      | .call c .semWait, .queued =>
        s.told t || (c.mbx = m && c.side = side)
      | _, _ => s.told t }

/-- `mbx_delete_signal` -/
def deleteSignal (s : Sys T M) (m : M) (u : T) : Sys T M :=
  let s := s.setTold u true
  let x := { s.st.mbx m with waitingTask := none }
  { s with st := (s.st.setMbx m x).goto u (s.st.pc u).readyMbx }

/-- A deletion goes on. -/
def Sys.setDeletion (s : Sys T M) (m : M) (d : DelPc) : Sys T M :=
  { s with deletion := Function.update s.deletion m d }

/-- The next section of a deletion. -/
def goDelete (s : Sys T M) (m : M) : Option (Sys T M) :=
  match s.deletion m with
  | .none => none
  | .pollers side =>
    match wakeupPoller s.st m side .objrem with
    | some st => some { s with st }
    | none =>
      some (s.setDeletion m (match side with | .recv => .pollers .send | .send => .sem .send))
  | .sem side =>
    some ((semDelete s m side).setDeletion m
      (match side with | .send => .sem .recv | .recv => .waiter))
  | .waiter =>
    match (s.st.mbx m).waitingTask with
    | none => some (s.setDeletion m .freeBuf)
    | some u => some (deleteSignal s m u)
  | .freeBuf =>
    let s := { s with bufFreed := Function.update s.bufFreed m true }
    some (s.setDeletion m (if s.named m then .freeMbx else .done))
  | .freeMbx =>
    let s := { s with mbxFreed := Function.update s.mbxFreed m true }
    some (s.setDeletion m .done)
  | .done => none

/-! ## Steps -/

/-- One section; none after a wild access. -/
def deletionStep (s : Sys T M) (a : DelAction T M) : Option (Sys T M × Unit) :=
  if s.touched || s.st.wild then none
  else
    (match a with
      | .call t r =>
        match s.st.pc t, s.begun t, mailbox r with
        | .idle, none, some m =>
          let s := s.access m
          if s.magic m then
            some { s with
              begun := Function.update s.begun t (some r)
              told := Function.update s.told t false
              late := Function.update s.late t false }
          else
            some { s with
              returns :=
                ⟨!s.magic m, false, false, msgSize r, .objinv⟩ :: s.returns }
        | _, _, _ => none
      | .run t =>
        match s.begun t, s.st.pc t with
        | some r, _ =>
          match mailbox r with
          | none => none
          | some m =>
            let s := if throughSem r then s else s.access m
            some (runBegun s t r)
        | none, .call c stage => runSection s t c stage
        | none, _ => none
      | .giveUp t unblocked =>
        match s.st.pc t, s.door t with
        | .call _ .semWait, .queued =>
          if s.told t then none else some (s.enterDoor t (.ended unblocked))
        | _, _ => none
      | .grant t =>
        match s.st.pc t with
        | .call c .semWait => grant s t c
        | _ => none
      | .expire t =>
        if (s.st.pc t).sleeps = some true
            ∧ s.st.resumeTime t ≤ s.st.timeH then
          some { s with st := s.st.goto t (s.st.pc t).readyMbx }
        else none
      | .unblock t =>
        if (s.st.pc t).sleeps ≠ none then
          some { s with
            st := (s.st.block t .unblkd).goto t (s.st.pc t).readyMbx }
        else none
      | .tick time timeH => some { s with st := { s.st with time, timeH } }
      | .delete m named =>
        if s.deletion m = DelPc.none then
          some ({ s with
            magic := Function.update s.magic m false
            named := Function.update s.named m named }.setDeletion m (.pollers .recv))
        else none
      | .goDelete m => goDelete s m).map (·, ())

/-- Every mailbox is new and no task is in a call. -/
def start (buffer : M → List UInt8) (priority : T → Int) : Sys T M where
  st := boot buffer priority
  begun := fun _ => none
  door := fun _ => .calling
  told := fun _ => false
  magic := fun _ => true
  semMagic := fun _ _ => true
  deletion := fun _ => .none
  named := fun _ => false
  bufFreed := fun _ => false
  mbxFreed := fun _ => false
  touched := false
  late := fun _ => false
  returns := []

/-! ## What is promised -/

/-- No byte has been copied from or to a freed buffer, and a call that has been
    told that the mailbox is removed returns an error, or the number of bytes
    that it has not moved. -/
structure Return.Heard (x : Return T) : Prop where
  late : x.late = false
  told : x.told = true → x.value = .objrem ∨ x.value = .val x.left

/-- A call on a deleted mailbox returns an error, and what is no error is the
    number of bytes that have not been moved: no byte is lost unsaid. -/
structure Return.Accounted (x : Return T) : Prop where
  refused : x.refused = true → x.value = .objinv
  left : ∀ n, x.value = .val n → n = x.left ∨ n = 0 ∧ x.left ≤ 0

/-- What every return must be, before, during and after the deletion. -/
structure Return.Sound (x : Return T) : Prop extends x.Heard, x.Accounted

/-- The task waits for what nobody is going to give it. -/
def Stuck (s : Sys T M) (m : M) (t : T) : Prop :=
  match s.st.pc t with
  | .call c (.asleep _) => c.mbx = m
  | .call c .semWait =>
    c.mbx = m ∧ s.told t = false ∧
      match s.door t with
      | .queued => True
      | _ => False
  | _ => False

/-- Deleting a mailbox is safe for its users. -/
structure Safe (s : Sys T M) : Prop where
  untouched : s.touched = false
  sound : ∀ x ∈ s.returns, x.Sound
  released : ∀ m t, s.bufFreed m = true → ¬ Stuck s m t

/-! ## Where the tasks may stand -/

/-- The call has `n` bytes to move and no more. -/
def Rest (c : Call M) (n : Int) : Prop :=
  if waits c.mode then c.msgSize = n else c.msgSize ≤ n

/-- The call is going to move no more bytes, and waits for nothing. -/
def Past (s : Sys T M) (m : M) (t : T) (c : Call M) : Stage T → Prop
  | .semWait =>
    match s.door t with
    | .calling => True
    | .checked => False
    | .queued => s.told t = true
    | .ended _ => True
    | .granted => False
  | .loop => c.msgSize = 0
  | .asleep _ => False
  | .woken => (s.told t = true ∨ s.st.blockedOn t ≠ .null) ∧ (s.st.mbx m).waitingTask ≠ some t
  | .copy => Rest c 0
  | .counters n _ => Rest c n
  | .index _ => Rest c 0
  | .mbxSignal => waits c.mode = true → c.msgSize = 0
  | .semSignal _ => True
  | .wakeup _ _ _ => True
  | _ => False

/-- The buffer may be freed as far as this task is concerned. -/
def Finished (s : Sys T M) (m : M) (t : T) : Prop :=
  (∀ r ∈ s.begun t, mailbox r = some m → throughSem r = true) ∧
  match s.st.pc t with
  | .call c stage => c.mbx = m → Past s m t c stage
  | _ => True

/-- The mailbox may be freed as far as this task is concerned. -/
def Gone (s : Sys T M) (m : M) (t : T) : Prop :=
  (∀ r ∈ s.begun t, mailbox r ≠ some m) ∧
  match s.st.pc t with
  | .call c .semWait => c.mbx = m → s.told t = true ∧
      match s.door t with
      | .queued => True
      | _ => False
  | .call c _ => c.mbx ≠ m
  | _ => True

/-- The buffer is freed when no call has bytes to move, and the mailbox when no
    call is left but those that a semaphore has told; no call begins after
    that. -/
def Heeds (s : Sys T M) : DelAction T M → Prop
  | .call _ r => ∀ m, mailbox r = some m → s.mbxFreed m = false
  | .goDelete m =>
    match s.deletion m with
    | .freeBuf => ∀ t, Finished s m t
    | .freeMbx => ∀ t, Gone s m t
    | _ => True
  | _ => True

end Model

end RtaiMailboxDelete
