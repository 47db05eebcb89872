import Rtai.MbxCopies

/-! # The calls that wait for a mailbox

    `_rt_mbx_send`, `_rt_mbx_receive` and their `until` variants of `mbx.c`,
    with `CONFIG_RTAI_USE_NEWERR` and on a mailbox that `CHK_MBX_MAGIC` lets
    pass, and `mbx_send`, `mbx_receive` and their timed variants of `fifos.c`.
    What the other tasks do to the mailbox between the steps of a call, and how
    its sleeps end, is given. -/

namespace RtaiMbxCalls

open RtaiMailbox RtaiMbxCopies RtaiWhileLoops

variable {T : Type}

/-! ## Markers and error values -/

/-- The marks in `blocked_on`. -/
def RTP_UNBLKD : Nat := 2
def RTP_OBJREM : Nat := 4
def RTP_HIGERR : Nat := 11

/-- The error values. -/
def RTE_BASE : Int := 0x3FFFFF00
def RTE_TMROVRN : Int := RTE_BASE + 1
def RTE_UNBLKD : Int := RTE_BASE + 2
def RTE_TIMOUT : Int := RTE_BASE + 3
def RTE_OBJREM : Int := RTE_BASE + 4
def RTE_LOWERR : Int := RTE_TMROVRN

/-- `rt_is_reterr`. -/
def rtIsReterr (i : Int) : Bool := i ≥ RTE_LOWERR

/-- What an interrupted wait returns. -/
def ERESTARTSYS : Int := 512

/-- Why a sleep ends without what the task waits for. -/
inductive Reason where
  | timeout
  /-- `rt_task_masked_unblock`; for a Linux task, a signal. -/
  | unblocked
  | removed
  deriving DecidableEq

/-- How a wait ends. -/
inductive Wake where
  | told
  | failed (why : Reason)
  deriving DecidableEq

/-- Why it has failed. -/
def Wake.reason : Wake → Option Reason
  | .told => none
  | .failed why => some why

/-- `blocked_on` after a sleep on what is at `addr`. -/
def blockedOn (addr : Nat) : Wake → Nat
  | .told => 0
  | .failed .timeout => addr
  | .failed .unblocked => RTP_UNBLKD
  | .failed .removed => RTP_OBJREM

/-! ## The waits -/

/-- `rt_sem_wait` and `rt_sem_wait_until`, with the count if they get the
    semaphore. -/
def rtSemWait (addr : Nat) (count : Int) (wake : Wake) : Int :=
  let retp := blockedOn addr wake
  if retp = 0 then count
  else if retp ≠ RTP_OBJREM then RTE_UNBLKD
  else RTE_OBJREM

/-- The value of `rt_sem_wait_until`. -/
def rtSemWaitUntil (addr : Nat) (count : Int) (wake : Wake) : Int :=
  let retp := blockedOn addr wake
  if retp = 0 then count
  else if retp ≠ RTP_OBJREM then
    if retp > RTP_HIGERR then RTE_TIMOUT else RTE_UNBLKD
  else RTE_OBJREM

/-- `mbx_wait` -/
def mbxWait (addr : Nat) (wake : Wake) : Int :=
  let retval := blockedOn addr wake
  if retval ≠ 0 then retval else 0

/-- `mbx_wait_until` -/
def mbxWaitUntil (addr : Nat) (wake : Wake) : Int :=
  let retp := blockedOn addr wake
  if retp ≠ 0 then
    if retp > RTP_HIGERR then RTE_TIMOUT
    else if retp = RTP_UNBLKD then RTE_UNBLKD
    else RTE_OBJREM
  else 0

/-- The waits of `fifos.c`. -/
def fifoWait : Wake → Int
  | .told => 0
  | .failed .unblocked => -ERESTARTSYS
  | .failed _ => -1

/-! ## The calls -/

/-- In what the calls differ. -/
structure Form where
  side : Side
  /-- The wait for `sndsem` or `rcvsem`, when it has failed, and what is
      returned then. -/
  semWait : Nat → Int → Wake → Int
  semFails : Int → Bool
  semRet : (msgSize retval : Int) → Int
  /-- The wait for space or data, and what is returned if it fails. -/
  wait : Nat → Wake → Int
  waitRet : (msgSize retval : Int) → Int

/-- `MBX_RET` -/
def MBX_RET (_msgSize retval : Int) : Int := retval

/-- `rt_mbx_send`. -/
def rtMbxSend : Form :=
  { side := .send, semWait := rtSemWait, semFails := fun retval => retval > 1,
    semRet := MBX_RET, wait := mbxWait, waitRet := MBX_RET }

/-- The first failure returns the size. -/
def rtMbxReceive : Form :=
  { side := .recv, semWait := rtSemWait, semFails := fun retval => retval > 1,
    semRet := fun msgSize _ => msgSize, wait := mbxWait, waitRet := MBX_RET }

/-- `rt_mbx_send_until`. -/
def rtMbxSendUntil : Form :=
  { side := .send, semWait := rtSemWaitUntil,
    semFails := fun retval => retval > 1, semRet := MBX_RET,
    wait := mbxWaitUntil, waitRet := MBX_RET }

/-- `rt_mbx_receive_until`. -/
def rtMbxReceiveUntil : Form :=
  { side := .recv, semWait := rtSemWaitUntil,
    semFails := fun retval => retval > 1, semRet := MBX_RET,
    wait := mbxWaitUntil, waitRet := MBX_RET }

/-- A call of `fifos.c` returns what is left, and waits in the same way with a
    delay and without one. -/
def fifoCall (side : Side) : Form :=
  { side := side, semWait := fun _ _ => fifoWait,
    semFails := fun retval => retval ≠ 0, semRet := fun msgSize _ => msgSize,
    wait := fun _ => fifoWait, waitRet := fun msgSize _ => msgSize }

/-- `mbx_send`. -/
def mbxSend : Form := fifoCall .send
/-- `mbx_receive`. -/
def mbxReceive : Form := fifoCall .recv
/-- `mbx_send_timed`. -/
def mbxSendTimed : Form := fifoCall .send
/-- `mbx_receive_timed`. -/
def mbxReceiveTimed : Form := fifoCall .recv

/-- What the others do during a call. -/
structure Others (T : Type) where
  /-- Where the mailbox is: no pointer is an error marker. -/
  addr : Nat
  high : RTP_HIGERR < addr
  sem : Wake
  count : Int
  /-- Before the wait of a pass, and during its sleep. -/
  before : Nat → Mbx T → Mbx T
  asleep : Nat → Mbx T → Wake × Mbx T
  /-- Before each test of the copy of a pass. -/
  during : Nat → Nat → Mbx T → Mbx T

/-- A mailbox, `msg_size`, and `*msg`: what is sent from there, and what has
    been stored there. -/
structure Transfer (T : Type) where
  mbx : Mbx T
  msgSize : Int
  msg : Nat → UInt8
  stored : List UInt8

namespace Transfer

variable (t : Transfer T)

/-- The test and the body of the loops of `mbxput` and `mbxget`. -/
def goesOn (side : Side) : Bool := t.msgSize > 0 ∧ t.mbx.fravbs side ≠ 0

/-- One pass of the copying loop. -/
def pass : Side → Option (Transfer T)
  | .send => (Sending.mk t.mbx t.msg t.msgSize).putPass.map fun s =>
    { t with mbx := s.mbx, msg := s.msg, msgSize := s.msgSize }
  | .recv => (Receiving.mk t.mbx t.msgSize t.stored).getPass.map fun s =>
    { t with mbx := s.mbx, msgSize := s.msgSize, stored := s.stored }

/-- `mbxput` or `mbxget`, with the others. -/
def copy (side : Side) (others : Nat → Mbx T → Mbx T) (fuel : Nat) : Option (Transfer T) :=
  (whileLoop (fun s : Nat × Transfer T => s.2.goesOn side)
    (fun s => (s.2.pass side).map fun t =>
      (s.1 + 1, { t with mbx := others (s.1 + 1) t.mbx }))
    fuel (0, { t with mbx := others 0 t.mbx })).map Prod.snd

end Transfer

/-- A call in its loop. -/
structure Calling (T : Type) where
  round : Nat
  transfer : Transfer T
  retval : Int
  /-- How the last wait has ended. -/
  wake : Wake

namespace Calling

variable (f : Form) (e : Others T) (c : Calling T)

/-- Whether the wait of a pass sleeps. -/
def blocks : Bool := (e.before c.round c.transfer.mbx).fravbs f.side = 0

/-- How the wait ends, and the mailbox then. -/
def waits : Wake × Mbx T :=
  let x := e.before c.round c.transfer.mbx
  if x.fravbs f.side = 0 then e.asleep c.round x else (.told, x)

/-- `while (msg_size)`, unless a wait has failed. -/
def goesOn : Bool := c.retval = 0 ∧ c.transfer.msgSize ≠ 0

/-- One pass of the loop of a call. -/
def pass (fuel : Nat) : Option (Calling T) :=
  let w := c.waits f e
  let retval := f.wait e.addr w.1
  let t := { c.transfer with mbx := w.2 }
  if retval ≠ 0 then some { c with transfer := t, retval := retval, wake := w.1 }
  else (t.copy f.side (e.during c.round) fuel).map fun t =>
    { round := c.round + 1, transfer := t, retval := 0, wake := w.1 }

end Calling

/-- Where a call has failed. -/
inductive Stage where
  | sem
  | inside
  deriving DecidableEq

/-- What is returned, where and why the call has failed, and what it leaves. -/
structure Result (T : Type) where
  value : Int
  failed : Option (Stage × Reason)
  transfer : Transfer T

/-- A call that has got its semaphore. -/
def Calling.start (x : Mbx T) (msg : Nat → UInt8) (msgSize : Int) : Calling T :=
  ⟨0, ⟨x, msgSize, msg, []⟩, 0, .told⟩

/-- What the call returns. -/
def Calling.result (f : Form) (c : Calling T) : Result T :=
  if c.retval ≠ 0 then
    ⟨f.waitRet c.transfer.msgSize c.retval,
      c.wake.reason.map fun why => (.inside, why), c.transfer⟩
  else ⟨0, none, c.transfer⟩

/-- **A CALL** of the form. -/
def call (f : Form) (e : Others T) (fuel : Nat) (x : Mbx T) (msg : Nat → UInt8)
    (msgSize : Int) : Option (Result T) :=
  let retval := f.semWait e.addr e.count e.sem
  if f.semFails retval then
    some ⟨f.semRet msgSize retval, e.sem.reason.map fun why => (.sem, why),
      ⟨x, msgSize, msg, []⟩⟩
  else
    (whileLoop Calling.goesOn (Calling.pass f e · fuel) fuel
      (Calling.start x msg msgSize)).map (Calling.result f)

/-- The four calls of each file. -/
inductive Op where
  | send
  | receive
  | sendUntil
  | receiveUntil
  deriving DecidableEq

/-- The call on a mailbox. -/
def Op.mbx : Op → Form
  | .send => rtMbxSend
  | .receive => rtMbxReceive
  | .sendUntil => rtMbxSendUntil
  | .receiveUntil => rtMbxReceiveUntil

/-- The same call on a fifo. -/
def Op.fifo : Op → Form
  | .send => mbxSend
  | .receive => mbxReceive
  | .sendUntil => mbxSendTimed
  | .receiveUntil => mbxReceiveTimed

/-- Whether the sleeps of a call have an end. -/
def Op.timed : Op → Bool
  | .send | .receive => false
  | .sendUntil | .receiveUntil => true

/-! ## What a failed call returns -/

/-- The error value of a reason. -/
def errorValue : Reason → Int
  | .timeout => RTE_TIMOUT
  | .unblocked => RTE_UNBLKD
  | .removed => RTE_OBJREM

/-- How a call that has failed in its loop has failed. -/
theorem failed_inside {f : Form} {e : Others T} {fuel : Nat} {c₀ c : Calling T}
    (hstart : c₀.retval = 0)
    (hrun : whileLoop Calling.goesOn (Calling.pass f e · fuel) fuel c₀ = some c)
    (hne : c.retval ≠ 0) : c.retval = f.wait e.addr c.wake := by
  have hinv := whileLoop_inv
    (I := fun c : Calling T => c.retval ≠ 0 → c.retval = f.wait e.addr c.wake)
    (by
      intro s s' _ _ hpass hne'
      unfold Calling.pass at hpass
      dsimp only at hpass
      split at hpass
      · obtain rfl := Option.some.inj hpass
        rfl
      · obtain ⟨t, -, rfl⟩ := Option.map_eq_some_iff.mp hpass
        exact absurd rfl hne')
    (fun h => absurd hstart h) hrun
  exact hinv.1 hne

section Values

variable {e : Others T} {why : Reason}

theorem isReterr_errorValue : rtIsReterr (errorValue why) = true := by
  cases why <;> rfl

/-- After a timeout `blocked_on` is still the address. -/
theorem timeout_marker (e : Others T) : blockedOn e.addr (.failed .timeout) ≠ 0 ∧
      blockedOn e.addr (.failed .timeout) ≠ RTP_OBJREM ∧
      blockedOn e.addr (.failed .timeout) > RTP_HIGERR := by
  have hhigh : 11 < e.addr := e.high
  refine ⟨?_, ?_, e.high⟩
  · show e.addr ≠ 0
    omega
  · show e.addr ≠ 4
    omega

theorem rtSemWait_failed (h : why ≠ .timeout) (addr : Nat) (count : Int) :
    rtSemWait addr count (.failed why) = errorValue why := by
  cases why with
  | timeout => exact absurd rfl h
  | unblocked => rfl
  | removed => rfl

theorem rtSemWaitUntil_failed (count : Int) :
    rtSemWaitUntil e.addr count (.failed why) = errorValue why := by
  cases why with
  | timeout =>
    obtain ⟨hnull, hrem, hhigh⟩ := timeout_marker e
    unfold rtSemWaitUntil
    dsimp only
    rw [if_neg hnull, if_pos hrem, if_pos hhigh]
    rfl
  | unblocked => rfl
  | removed => rfl

theorem mbxWaitUntil_failed : mbxWaitUntil e.addr (.failed why) = errorValue why := by
  cases why with
  | timeout =>
    obtain ⟨hnull, -, hhigh⟩ := timeout_marker e
    unfold mbxWaitUntil
    dsimp only
    rw [if_pos hnull, if_pos hhigh]
    rfl
  | unblocked => rfl
  | removed => rfl

/-- `mbx_wait` returns the marker, which is not the error value. -/
theorem mbxWait_failed (h : why ≠ .timeout) (addr : Nat) :
    mbxWait addr (.failed why) ≠ errorValue why := by
  cases why with
  | timeout => exact absurd rfl h
  | unblocked =>
    show (2 : Int) ≠ RTE_UNBLKD
    decide
  | removed =>
    show (4 : Int) ≠ RTE_OBJREM
    decide

theorem isReterr_of_eq {i : Int} :
    (i = errorValue why ∧ rtIsReterr i = true) ↔ i = errorValue why := by
  constructor
  · exact And.left
  · rintro rfl
    exact ⟨rfl, isReterr_errorValue⟩

/-- A call that does not get its semaphore. -/
theorem semRet_iff {op : Op} (h : why = .timeout → op.timed = true) (count msgSize : Int) :
    op.mbx.semRet msgSize (op.mbx.semWait e.addr count (.failed why)) = errorValue why ↔
      op.timed = true ∨ op = .send ∨ msgSize = errorValue why := by
  cases op with
  | send =>
    have hne : why ≠ .timeout := fun heq => nomatch h heq
    exact iff_of_true (rtSemWait_failed hne e.addr count) (.inr (.inl rfl))
  | receive =>
    constructor
    · intro heq
      exact .inr (.inr heq)
    · rintro (hfalse | hfalse | heq)
      · exact nomatch hfalse
      · exact nomatch hfalse
      · exact heq
  | sendUntil => exact iff_of_true (rtSemWaitUntil_failed count) (.inl rfl)
  | receiveUntil => exact iff_of_true (rtSemWaitUntil_failed count) (.inl rfl)

/-- A call that waits in vain for space or for data. -/
theorem waitRet_iff {op : Op} (h : why = .timeout → op.timed = true) (msgSize : Int) :
    op.mbx.waitRet msgSize (op.mbx.wait e.addr (.failed why)) = errorValue why ↔
      op.timed = true := by
  cases op with
  | send =>
    have hne : why ≠ .timeout := fun heq => nomatch h heq
    exact iff_of_false (mbxWait_failed hne e.addr) (nomatch ·)
  | receive =>
    have hne : why ≠ .timeout := fun heq => nomatch h heq
    exact iff_of_false (mbxWait_failed hne e.addr) (nomatch ·)
  | sendUntil => exact iff_of_true mbxWaitUntil_failed rfl
  | receiveUntil => exact iff_of_true mbxWaitUntil_failed rfl

end Values

theorem Wake.reason_eq_some {wake : Wake} {why : Reason}
    (h : wake.reason = some why) : wake = .failed why := by
  cases wake with
  | told => exact nomatch h
  | failed why' => exact congrArg Wake.failed (Option.some.inj h)

/-- **THE ERROR VALUES**: a call that fails returns the error value of its
    reason if and only if it has a time limit, or is a send that fails at its
    semaphore, or is a receive that fails there and whose size happens to be
    that value. -/
theorem error_value_iff (op : Op) (e : Others T) (fuel : Nat) (x : Mbx T)
    (msg : Nat → UInt8) (msgSize : Int) (r : Result T) (stage : Stage)
    (why : Reason) (hcall : call op.mbx e fuel x msg msgSize = some r)
    (hfailed : r.failed = some (stage, why))
    (hlimit : why = .timeout → op.timed = true) :
    (r.value = errorValue why ∧ rtIsReterr r.value = true) ↔ op.timed = true ∨
        stage = .sem ∧ (op = .send ∨ msgSize = errorValue why) := by
  rw [isReterr_of_eq]
  unfold call at hcall
  dsimp only at hcall
  split at hcall
  · obtain rfl := Option.some.inj hcall
    obtain ⟨why', hwhy, heq⟩ := Option.map_eq_some_iff.mp hfailed
    obtain ⟨rfl, rfl⟩ := Prod.mk.inj heq
    dsimp only
    rw [Wake.reason_eq_some hwhy, semRet_iff hlimit]
    simp only [true_and]
  · obtain ⟨c, hrun, rfl⟩ := Option.map_eq_some_iff.mp hcall
    unfold Calling.result at hfailed ⊢
    split at hfailed
    · next hne =>
        obtain ⟨why', hwhy, heq⟩ := Option.map_eq_some_iff.mp hfailed
        obtain ⟨rfl, rfl⟩ := Prod.mk.inj heq
        rw [if_pos hne]
        dsimp only
        rw [failed_inside rfl hrun hne, Wake.reason_eq_some hwhy, waitRet_iff hlimit]
        simp only [reduceCtorEq, false_and, or_false]
    · exact nomatch hfailed

/-- A mailbox of one byte, and nobody else who does anything to it. -/
def full : Mbx Unit :=
  { size := 1, bufadr := [0], frbs := 0, avbs := 1, fbyte := 0, lbyte := 0,
    sem := fun _ => none, waitingTask := none, pollq := fun _ => [] }

/-- The first page is above the error values. -/
theorem page_high : RTP_HIGERR < 4096 := by decide

/-- A full buffer, and waits that end so. -/
def sleeps (sem wake : Wake) : Others Unit :=
  { addr := 4096, high := page_high, sem := sem, count := 1,
    before := fun _ x => x, asleep := fun _ x => (wake, x),
    during := fun _ _ x => x }

/-- A send with a time limit to a mailbox that is full. -/
theorem error_value_iff_timeout :
    ∃ r, call rtMbxSendUntil (sleeps .told (.failed .timeout)) 2 full (fun _ => 7) 5 =
        some r ∧ r.value = RTE_TIMOUT ∧ rtIsReterr r.value = true :=
  ⟨_, rfl, (error_value_iff .sendUntil (sleeps .told (.failed .timeout)) 2 full
    (fun _ => 7) 5 _ .inside .timeout rfl rfl (fun _ => rfl)).mpr (.inl rfl)⟩

/-- A send whose mailbox is deleted while it waits for space returns the
    marker, and a receive that is unblocked at its semaphore the size. -/
theorem markers_returned : rtIsReterr 4 = false ∧ rtIsReterr 5 = false ∧ ∀ fuel,
      (call rtMbxSend (sleeps .told (.failed .removed)) (fuel + 2) full (fun _ => 7)
          5).map (fun r => (r.value, r.failed)) = some (4, some (.inside, .removed)) ∧
        (call rtMbxReceive (sleeps (.failed .unblocked) .told) (fuel + 2) full
          (fun _ => 7) 5).map (fun r => (r.value, r.failed)) =
            some (5, some (.sem, .unblocked)) :=
  ⟨rfl, rfl, fun _ => ⟨rfl, rfl⟩⟩

end RtaiMbxCalls
