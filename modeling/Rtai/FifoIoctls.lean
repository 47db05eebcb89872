import Rtai.Fifo
import Rtai.MbxCopies

/-! # The ioctls of a fifo and the functions of the kernel

    `EAVESDROP`, `READ_IF`, `WRITE_IF` and `OVRWRITE` of `rtf_ioctl`, and
    `rtf_evdrp`, `rtf_get_if`, `rtf_put_if` and `rtf_ovrwr_put`, each executed by a
    caller that is alone with the fifo.  There is one memory, in which the stack of
    `rtf_ioctl` is; nothing that a copy from user space reads is checked
    (`__copy_from_user_inatomic`). -/

namespace RtaiFifoIoctls

open RtaiFifo (Fifos mbxSignal mbxSemSignal pendsPoll)
open RtaiMailbox (Mbx memcpyTo)
open RtaiMbxCopies RtaiWhileLoops RtaiByteStream

/-- The number of fifos. -/
def MAX_FIFOS : Nat := 64

instance : NeZero MAX_FIFOS := ⟨by decide⟩

/-- The errors. -/
def ENODEV : Int := 19

def EINVAL : Int := 22

def EAGAIN : Int := 11

/-- The fields of `F_MBX` that are not in `Fifos`. -/
structure Ring where
  size : Int
  bufadr : List UInt8
  fbyte : Int
  lbyte : Int

/-- `fifo[MAX_FIFOS]` -/
structure Device (T S : Type) where
  fifos : Fifos T S (Fin MAX_FIFOS)
  ring : Fin MAX_FIFOS → Ring
  sndsem : Fin MAX_FIFOS → S
  rcvsem : Fin MAX_FIFOS → S
  opncnt : Fin MAX_FIFOS → Int

/-- `'r'` and `'w'` -/
inductive Rw where
  | r
  | w
  deriving DecidableEq

/-- The device when a call returns, or calls the handler; what has been stored at
    the buffer; and the value that is returned, unless the handler fails. -/
structure Outcome (T S : Type) where
  dev : Device T S
  stored : List UInt8
  handler : Option Rw
  ret : Int

section Model

variable {T S : Type} [decT : DecidableEq T] [decS : DecidableEq S]

namespace Device

variable (d : Device T S) (b : Fin MAX_FIFOS)

/-- The mailbox of a fifo, as its copies see it. -/
def mbx : Mbx T where
  size := (d.ring b).size
  bufadr := (d.ring b).bufadr
  frbs := d.fifos.frbs b
  avbs := d.fifos.avbs b
  fbyte := (d.ring b).fbyte
  lbyte := (d.ring b).lbyte
  sem := fun _ => none
  waitingTask := d.fifos.waitingTask b
  pollq := fun _ => []

/-- What a copy leaves. -/
def setMbx (x : Mbx T) : Device T S :=
  { d with
    fifos := { d.fifos with
      frbs := Function.update d.fifos.frbs b x.frbs
      avbs := Function.update d.fifos.avbs b x.avbs }
    ring := Function.update d.ring b ⟨x.size, x.bufadr, x.fbyte, x.lbyte⟩ }

/-- `mbx_signal(mbx); mbx_sem_signal(sem, (FIFO *)mbx)` -/
def signals (sem : S) : Device T S :=
  { d with fifos := mbxSemSignal (mbxSignal d.fifos b) sem (some b) }

/-- `sem->free = 0` -/
def take (sem : S) : Device T S :=
  { d with fifos := { d.fifos with free := Function.update d.fifos.free sem 0 } }

end Device

/-! ## The transfers -/

/-- `mbx_put` -/
def mbxPut (fuel : Nat) (msg : Nat → UInt8) (msgSize : Int) (x : Mbx T) :
    Option (Mbx T × List UInt8 × Int) :=
  (mbxput fuel x msg msgSize).map fun r => (r.1, [], r.2)

/-- `mbx_ovrwr_put` -/
def mbxOvrwrPut (fuel : Nat) (msg : Nat → UInt8) (msgSize : Int) (x : Mbx T) :
    Option (Mbx T × List UInt8 × Int) :=
  (RtaiMbxCopies.mbxOvrwrPut fuel x msg msgSize).map fun r => (r.1, [], r.2)

/-- `mbx_get` -/
def mbxGet (fuel : Nat) (msgSize : Int) (x : Mbx T) :
    Option (Mbx T × List UInt8 × Int) := mbxget fuel x msgSize

/-- `mbx_evdrp`, whose copies all start at its own `fbyte`. -/
def mbxEvdrp (fuel : Nat) (d : Device T S) (b : Fin MAX_FIFOS) (msgSize : Int) :
    Option (Device T S × List UInt8 × Int) :=
  (rtMbxEvdrp fuel (d.mbx b) msgSize true).map fun r => (d, r.2)

/-- A transfer that does not wait: if the semaphore is free and the test succeeds,
    the copy and the signals. -/
def transfer (d : Device T S) (b : Fin MAX_FIFOS) (sem : S) (test : Bool)
    (copy : Mbx T → Option (Mbx T × List UInt8 × Int)) (msgSize : Int) :
    Option (Device T S × List UInt8 × Int) :=
  if d.fifos.free sem ≠ 0 ∧ test then
    (copy (d.mbx b)).map fun r =>
      ((((d.take sem).setMbx b r.1).signals b sem), r.2)
  else some (d, [], msgSize)

/-- `mbx_send_wp`: what there is room for. -/
def mbxSendWp (fuel : Nat) (d : Device T S) (b : Fin MAX_FIFOS)
    (msg : Nat → UInt8) (msgSize : Int) : Option (Device T S × List UInt8 × Int) :=
  transfer d b (d.sndsem b) (d.fifos.frbs b ≠ 0) (mbxPut fuel msg msgSize) msgSize

/-- `mbx_send_if`: all of it or nothing. -/
def mbxSendIf (fuel : Nat) (d : Device T S) (b : Fin MAX_FIFOS)
    (msg : Nat → UInt8) (msgSize : Int) : Option (Device T S × List UInt8 × Int) :=
  transfer d b (d.sndsem b) (d.fifos.frbs b ≥ msgSize) (mbxPut fuel msg msgSize) msgSize

/-- `mbx_ovrwr_send`: the newest bytes stay. -/
def mbxOvrwrSend (fuel : Nat) (d : Device T S) (b : Fin MAX_FIFOS)
    (msg : Nat → UInt8) (msgSize : Int) : Option (Device T S × List UInt8 × Int) :=
  transfer d b (d.sndsem b) true (mbxOvrwrPut fuel msg msgSize) msgSize

/-- `mbx_receive_if`: all of it or nothing. -/
def mbxReceiveIf (fuel : Nat) (d : Device T S) (b : Fin MAX_FIFOS)
    (msgSize : Int) : Option (Device T S × List UInt8 × Int) :=
  transfer d b (d.rcvsem b) (d.fifos.avbs b ≥ msgSize) (mbxGet fuel msgSize) msgSize

/-! ## The functions of the kernel -/

/-- `VALID_FIFO` -/
def validFifo (d : Device T S) (minor : Nat)
    (call : Fin MAX_FIFOS → Option (Outcome T S)) : Option (Outcome T S) :=
  if h : minor < MAX_FIFOS then
    if d.opncnt ⟨minor, h⟩ = 0 then some ⟨d, [], none, -EINVAL⟩
    else call ⟨minor, h⟩
  else some ⟨d, [], none, -ENODEV⟩

/-- `*p` and what follows it. -/
def bytesAt (mem : Nat → UInt8) (p : Nat) : Nat → UInt8 := fun i => mem (p + i)

/-- `rtf_ovrwr_put`. -/
def rtfOvrwrPut (fuel : Nat) (d : Device T S) (minor : Nat) (mem : Nat → UInt8)
    (buf : Nat) (count : Int) : Option (Outcome T S) :=
  validFifo d minor fun b =>
    (mbxOvrwrSend fuel d b (bytesAt mem buf) count).map fun r =>
      ⟨r.1, r.2.1, none, r.2.2⟩

/-- `rtf_put_if`. -/
def rtfPutIf (fuel : Nat) (d : Device T S) (minor : Nat) (mem : Nat → UInt8)
    (buf : Nat) (count : Int) : Option (Outcome T S) :=
  validFifo d minor fun b =>
    (mbxSendIf fuel d b (bytesAt mem buf) count).map fun r =>
      ⟨r.1, r.2.1, none, count - r.2.2⟩

/-- `rtf_evdrp`. -/
def rtfEvdrp (fuel : Nat) (d : Device T S) (minor : Nat) (msgSize : Int) :
    Option (Outcome T S) :=
  validFifo d minor fun b =>
    (mbxEvdrp fuel d b msgSize).map fun r => ⟨r.1, r.2.1, none, msgSize - r.2.2⟩

/-- `rtf_get_if`. -/
def rtfGetIf (fuel : Nat) (d : Device T S) (minor : Nat) (count : Int) :
    Option (Outcome T S) :=
  validFifo d minor fun b =>
    (mbxReceiveIf fuel d b count).map fun r => ⟨r.1, r.2.1, none, count - r.2.2⟩

/-! ## The ioctls -/

/-- The commands that copy bytes. -/
inductive Cmd where
  | eavesdrop
  | readIf
  | writeIf
  | ovrwrite
  deriving DecidableEq

/-- A number of `n` bytes, the lowest first. -/
def number (mem : Nat → UInt8) (p : Nat) : Nat → Nat
  | 0 => 0
  | n + 1 => (mem p).toNat + 256 * number mem (p + 1) n

/-- `args`: a pointer, an `int`, and 4 bytes that are not used. -/
structure Args where
  buf : Nat
  count : Int

/-- The bytes of the arguments. -/
def sizeofArgs : Nat := 16

/-- The arguments at an address. -/
def argsAt (mem : Nat → UInt8) (p : Nat) : Args where
  buf := number mem p 8
  count := (BitVec.ofNat 32 (number mem (p + 8) 4)).toInt

/-- `rt_copy_from_user(&args, (void *)arg, sizeof(args))`, the address of `args`
    being `sp`. -/
def copyArgs (mem : Nat → UInt8) (sp arg : Nat) : Nat → UInt8 := fun p =>
  if sp ≤ p ∧ p < sp + sizeofArgs then mem (arg + (p - sp)) else mem p

/-- `rtf_ioctl`: copy the arguments, then the command. -/
def rtfIoctl (fuel : Nat) (d : Device T S) (b : Fin MAX_FIFOS) (cmd : Cmd)
    (mem : Nat → UInt8) (sp arg : Nat) : Option (Outcome T S) :=
  let mem := copyArgs mem sp arg
  let args := argsAt mem sp
  match cmd with
  | .eavesdrop =>
    (mbxEvdrp fuel d b args.count).map fun r =>
      ⟨r.1, r.2.1, none, args.count - r.2.2⟩
  | .readIf =>
    (mbxReceiveIf fuel d b args.count).map fun r =>
      let count := args.count - r.2.2
      ⟨r.1, r.2.1, if count ≠ 0 then some .r else none, count⟩
  | .writeIf =>
    if args.count ≠ 0 then
      (mbxSendWp fuel d b (bytesAt mem args.buf) args.count).map fun r =>
        let count := args.count - r.2.2
        if count = 0 then ⟨r.1, r.2.1, none, -EAGAIN⟩
        else ⟨r.1, r.2.1, some .w, count⟩
    else some ⟨d, [], some .w, args.count⟩
  | .ovrwrite =>
    -- the message is `&args.buf`
    (mbxOvrwrSend fuel d b (bytesAt mem sp) args.count).map fun r =>
      ⟨r.1, r.2.1, none, r.2.2⟩

/-- What a task of the kernel calls with its own buffer. -/
def Cmd.kernel (fuel : Nat) (d : Device T S) (minor : Nat) (mem : Nat → UInt8)
    (buf : Nat) (count : Int) : Cmd → Option (Outcome T S)
  | .eavesdrop => rtfEvdrp fuel d minor count
  | .readIf => rtfGetIf fuel d minor count
  | .writeIf => rtfPutIf fuel d minor mem buf count
  | .ovrwrite => rtfOvrwrPut fuel d minor mem buf count

/-! ## What a copy reads -/

/-- A message with nothing behind its end. -/
def clean (s : Sending T) : Sending T :=
  { s with msg := fun i => if (i : Int) < s.msgSize then s.msg i else 0 }

section Copies

omit [DecidableEq T]

variable {s s' : Sending T} {x : Mbx T} {msg msg' : Nat → UInt8} {m : Int}

theorem clean_eq (hmbx : s.mbx = s'.mbx) (hsize : s.msgSize = s'.msgSize)
    (hmsg : ∀ i : Nat, (i : Int) < s.msgSize → s.msg i = s'.msg i) :
    clean s = clean s' := by
  cases s with
  | mk x f m =>
    cases s' with
    | mk x' f' m' =>
      obtain rfl : x = x' := hmbx
      obtain rfl : m = m' := hsize
      have hfun : (fun i : Nat => if (i : Int) < m then f i else 0) =
          fun i : Nat => if (i : Int) < m then f' i else 0 := by
        funext i
        split
        · next hi => exact hmsg i hi
        · rfl
      show Sending.mk x _ m = Sending.mk x _ m
      rw [hfun]

/-- A pass reads only the message. -/
theorem clean_putPass (s : Sending T) : (clean s).putPass = s.putPass.map clean := by
  have hle : s.mbx.tocpy .send s.msgSize ≤ s.msgSize := by
    unfold Mbx.tocpy
    dsimp only
    split_ifs <;> omega
  unfold Sending.putPass
  dsimp only [clean]
  generalize s.mbx.tocpy .send s.msgSize = n at hle
  unfold memcpyTo
  by_cases hin : 0 ≤ s.mbx.lbyte ∧ 0 ≤ n ∧ s.mbx.lbyte + n ≤ s.mbx.bufadr.length
  · have hbytes : (List.range n.toNat).map (fun i : Nat =>
        if (i : Int) < s.msgSize then s.msg i else 0) =
        (List.range n.toNat).map s.msg := by
      refine List.map_congr_left fun i hi => if_pos ?_
      have hlt := List.mem_range.mp hi
      omega
    rw [if_pos hin, if_pos hin, hbytes]
    dsimp only [Option.map_some, Sending.skip, clean]
    congr 2
    funext i
    have hiff : ((n.toNat + i : Nat) : Int) < s.msgSize ↔ (i : Int) < s.msgSize - n := by omega
    exact if_congr hiff rfl rfl
  · rw [if_neg hin, if_neg hin]
    rfl

theorem clean_ovrwrPass (fuel : Nat) (s : Sending T) :
    (clean s).ovrwrPass fuel = (s.ovrwrPass fuel).map clean := by
  have hloop : ∀ t : Sending T, whileLoop Sending.drops Sending.dropPass fuel (clean t) =
        (whileLoop Sending.drops Sending.dropPass fuel t).map clean := fun t =>
    @whileLoop_map _ _ Sending.drops Sending.dropPass Sending.drops Sending.dropPass
      clean (fun _ => True) (fun _ _ => rfl) (fun _ _ => rfl)
      (fun _ _ _ _ => trivial) fuel t trivial
  have hfirst : (if s.mbx.frbs ≠ 0 then (clean s).putPass else some (clean s)) =
      (if s.mbx.frbs ≠ 0 then s.putPass else some s).map clean := by
    split
    · exact clean_putPass s
    · rfl
  unfold Sending.ovrwrPass
  rw [show (clean s).mbx = s.mbx from rfl, hfirst]
  cases if s.mbx.frbs ≠ 0 then s.putPass else some s with
  | none => rfl
  | some t =>
    show (if t.msgSize ≠ 0 then _ else _) = _
    dsimp only
    rw [apply_ite (Option.map clean), hloop]
    rfl

/-- Two messages that are the same are sent in the same way. -/
theorem sent_same {test : Sending T → Bool} {pass : Sending T → Option (Sending T)}
    (htest : ∀ s, test (clean s) = test s)
    (hpass : ∀ s, pass (clean s) = (pass s).map clean)
    (h : clean s = clean s') (fuel : Nat) :
    (whileLoop test pass fuel s).map (fun s => (s.mbx, s.msgSize)) =
      (whileLoop test pass fuel s').map fun s => (s.mbx, s.msgSize) := by
  have hclean : ∀ s : Sending T, (whileLoop test pass fuel s).map
      (fun s => (s.mbx, s.msgSize)) =
        (whileLoop test pass fuel (clean s)).map fun s => (s.mbx, s.msgSize) := by
    intro s
    rw [@whileLoop_map _ _ test pass test pass clean (fun _ => True)
      (fun s _ => htest s) (fun s _ => hpass s) (fun _ _ _ _ => trivial) fuel s
      trivial, Option.map_map]
    rfl
  rw [hclean s, hclean s', h]

theorem mbxput_same (h : ∀ i : Nat, (i : Int) < m → msg i = msg' i) (fuel : Nat) :
    mbxput fuel x msg m = mbxput fuel x msg' m :=
  @sent_same T ⟨x, msg, m⟩ ⟨x, msg', m⟩ Sending.puts Sending.putPass (fun _ => rfl)
    clean_putPass (clean_eq rfl rfl h) fuel

/-- Of a long message only the end is read. -/
theorem overwrite_same
    (h : ∀ i : Nat, m - x.size ≤ i → (i : Int) < m → msg i = msg' i) (fuel : Nat) :
    overwrite fuel x msg m = overwrite fuel x msg' m := by
  have hclip : clean (Sending.mk x msg m).clip = clean (Sending.mk x msg' m).clip := by
    unfold Sending.clip
    dsimp only
    split
    · next hlong =>
        refine clean_eq rfl rfl fun i hi => h _ ?_ ?_
        · omega
        · have hi' : (i : Int) < m - (m - x.size) := hi
          omega
    · next hshort => exact clean_eq rfl rfl fun i hi => h i (by omega) hi
  have hsame := @sent_same T _ _ (fun s => decide (s.msgSize > 0))
    (Sending.ovrwrPass · fuel) (fun _ => rfl) (clean_ovrwrPass fuel) hclip fuel
  have hfst := congrArg (Option.map fun r : Mbx T × Int => (r.1, (0 : Int))) hsame
  rw [Option.map_map, Option.map_map] at hfst
  exact hfst

/-! ## What a copy leaves -/

/-- A send that is alone with the ring ends; the bytes it has sent are in. -/
theorem mbxput_total (h : RingOk x) (msg : Nat → UInt8) (m : Int) :
    ∃ x' left, (∀ fuel > m.toNat, mbxput fuel x msg m = some (x', left)) ∧
      x'.avbs + left = x.avbs + m ∧ (0 < m → x.frbs ≠ 0 → left < m) ∧
      (m ≤ 0 ∨ x.frbs = 0 → x' = x ∧ left = m) := by
  have hstep : ∀ s : Sending T, (RingOk s.mbx ∧
      s.mbx.avbs + s.msgSize = x.avbs + m ∧ (s = ⟨x, msg, m⟩ ∨ s.msgSize < m)) →
      s.puts = true → ∃ s', s.putPass = some s' ∧ (RingOk s'.mbx ∧
        s'.mbx.avbs + s'.msgSize = x.avbs + m ∧ (s' = ⟨x, msg, m⟩ ∨ s'.msgSize < m)) ∧
        s'.msgSize.toNat < s.msgSize.toNat := by
    rintro s ⟨hs, hsum, hdone⟩ htest
    obtain ⟨hm, hne⟩ := of_decide_eq_true htest
    obtain ⟨r, R⟩ := hs.represents
    obtain ⟨hpos, -, -, -⟩ := @tocpy_bounds _ s.mbx .send s.msgSize hm hs.frbs hne hs.lbyte.2
    obtain ⟨buf, r₁, hcopy, R₁, -⟩ := R.putCopy hm hne s.msg
    obtain ⟨r₂, R₂, -⟩ := R₁.putCounters
    have hle : s.msgSize ≤ m := by
      rcases hdone with rfl | hlt
      · exact le_rfl
      · exact hlt.le
    unfold Sending.putPass
    dsimp only
    rw [hcopy]
    refine ⟨_, rfl, ⟨ringOk_of_represents R₂.putIndex, ?_, .inr ?_⟩, ?_⟩
    · show s.mbx.avbs + _ + (s.msgSize - _) = x.avbs + m
      omega
    · show s.msgSize - _ < m
      omega
    · show (s.msgSize - _).toNat < _
      omega
  obtain ⟨s, hrun, ⟨-, hsum, hdone⟩, hend⟩ := @whileLoop_total _ _ _ _
    (fun s : Sending T => s.msgSize.toNat) hstep ⟨x, msg, m⟩ ⟨h, rfl, .inl rfl⟩
    (m.toNat + 1) (Nat.lt_succ_self _)
  refine ⟨s.mbx, s.msgSize, fun fuel hfuel => ?_, hsum, fun hm hne => ?_, fun hidle => ?_⟩
  · have hmore := whileLoop_mono (fun _ _ hb => hb) hfuel hrun
    unfold mbxput
    rw [hmore]
    rfl
  · rcases hdone with rfl | hlt
    · exact absurd (decide_eq_true ⟨hm, hne⟩) (Bool.eq_false_iff.mp hend)
    · exact hlt
  · have hstop : Sending.puts (⟨x, msg, m⟩ : Sending T) = false := by
      refine decide_eq_false fun hgo => ?_
      rcases hidle with hm | hz
      · exact absurd hgo.1 (not_lt.mpr hm)
      · exact hgo.2 hz
    rw [whileLoop_of_false hstop] at hrun
    obtain rfl := Option.some.inj hrun
    exact ⟨rfl, rfl⟩

/-- Nothing is overwritten by a message that is not there. -/
theorem overwrite_negative (h : RingOk x) (msg : Nat → UInt8) (hm : m ≤ 0) (fuel : Nat) :
    overwrite (fuel + 1) x msg m = some (x, 0) := by
  have hsize := h.size
  have hclip : (Sending.mk x msg m).clip = ⟨x, msg, m⟩ := by
    unfold Sending.clip
    exact if_neg (show ¬m - x.size > 0 by omega)
  have hstop := @whileLoop_of_false _ (fun s : Sending T => decide (s.msgSize > 0))
    (Sending.ovrwrPass · (fuel + 1)) ⟨x, msg, m⟩ (decide_eq_false (not_lt.mpr hm)) fuel
  unfold overwrite
  rw [hclip, hstop]
  rfl

theorem overwrite_total (h : RingOk x) (msg : Nat → UInt8) (m : Int) :
    ∃ x' enough, ∀ fuel ≥ enough, overwrite fuel x msg m = some (x', 0) := by
  rcases lt_or_ge m 0 with hneg | hm
  · refine ⟨x, 1, fun fuel hfuel => ?_⟩
    obtain ⟨more, rfl⟩ := Nat.exists_eq_add_of_le' hfuel
    exact overwrite_negative h msg hneg.le more
  · obtain ⟨enough, x', hrun, -⟩ := overwriting_keeps_newest h msg m hm
    exact ⟨x', enough, fun fuel hfuel => (hrun fuel hfuel).1⟩

/-- What is left is the newest bytes. -/
theorem overwrite_content (h : RingOk x) (hm : 0 ≤ m) {x' : Mbx T} {enough : Nat}
    (hrun : ∀ fuel ≥ enough, overwrite fuel x msg m = some (x', 0)) :
    content x' = newest (min x.size (x.avbs + m)).toNat (content x ++ message msg m) := by
  obtain ⟨enough', x₁, hrun₁, -, -, hc⟩ := overwriting_keeps_newest h msg m hm
  have h₁ : overwrite (max enough enough') x msg m = some (x₁, 0) :=
    (hrun₁ _ (le_max_right ..)).1
  rw [hrun _ (le_max_left ..)] at h₁
  rw [(Prod.mk.inj (Option.some.inj h₁)).1]
  exact hc

/-- **THE BYTES THAT STAY ARE THOSE OF THE MESSAGE**: two messages that leave the
    same are the same from where they are read. -/
theorem overwrite_inj (h : RingOk x) (hm : 0 ≤ m) {x₁ x₂ : Mbx T} {e₁ e₂ : Nat}
    (h₁ : ∀ fuel ≥ e₁, overwrite fuel x msg m = some (x₁, 0))
    (h₂ : ∀ fuel ≥ e₂, overwrite fuel x msg' m = some (x₂, 0))
    (hsame : content x₁ = content x₂)
    {i : Nat} (hlo : m - x.size ≤ i) (hhi : (i : Int) < m) : msg i = msg' i := by
  have havbs := h.avbs
  have hsize := h.size
  have hnew := (overwrite_content h hm h₁).symm.trans (hsame.trans (overwrite_content h hm h₂))
  unfold newest at hnew
  rw [List.length_append, List.length_append, length_content, length_message,
    length_message] at hnew
  generalize hk : x.avbs.toNat + m.toNat - (min x.size (x.avbs + m)).toNat = k at hnew
  -- the place of the byte in what stays
  have hat := congrArg (fun l : List UInt8 => l[x.avbs.toNat + i - k]?) hnew
  have hplace : k + (x.avbs.toNat + i - k) = x.avbs.toNat + i := by omega
  rw [List.getElem?_drop, List.getElem?_drop, hplace,
    List.getElem?_append_right (by rw [length_content]; omega),
    List.getElem?_append_right (by rw [length_content]; omega), length_content,
    Nat.add_sub_cancel_left] at hat
  unfold message at hat
  have hi : i < m.toNat := by omega
  rw [List.getElem?_map, List.getElem?_map, List.getElem?_range hi] at hat
  exact Option.some.inj hat

end Copies

/-! ## The signals -/

/-- The signals that end a send find nobody to wake up, and the semaphore is as they
    leave it. -/
def Quiet (d : Device T S) (b : Fin MAX_FIFOS) : Prop :=
  d.fifos.waitingTask b = none ∧ d.fifos.queue (d.sndsem b) = [] ∧
    d.fifos.free (d.sndsem b) = 1 ∧ pendsPoll d.fifos (some b) = false

section Signals

variable {d : Device T S} {b : Fin MAX_FIFOS} {st : Fifos T S (Fin MAX_FIFOS)} {sem : S}

omit decT decS in
theorem mbxSignal_waitingTask : (mbxSignal st b).waitingTask b = none ∧
      (mbxSignal st b).avbs = st.avbs ∧ (mbxSignal st b).frbs = st.frbs := by
  unfold mbxSignal
  split
  · exact ⟨Function.update_self .., rfl, rfl⟩
  · next hnone => exact ⟨hnone, rfl, rfl⟩

theorem mbxSemSignal_frame {fifop : Option (Fin MAX_FIFOS)} :
    (mbxSemSignal st sem fifop).waitingTask = st.waitingTask ∧
      (mbxSemSignal st sem fifop).avbs = st.avbs ∧
      (mbxSemSignal st sem fifop).frbs = st.frbs := by
  unfold mbxSemSignal
  split
  · exact ⟨rfl, rfl, rfl⟩
  · dsimp only
    split
    · split <;> exact ⟨rfl, rfl, rfl⟩
    · exact ⟨rfl, rfl, rfl⟩

/-- The semaphore is taken and given back, and nobody has waited for it. -/
theorem mbxSemSignal_idle (hq : d.fifos.queue sem = []) :
    mbxSemSignal (d.take sem).fifos sem (some b) =
      if pendsPoll d.fifos (some b) then
        { d.fifos with
          free := Function.update d.fifos.free sem 1
          polAsynPended := Function.update d.fifos.polAsynPended b true
          polAsynQ := d.fifos.polAsynQ.post b }
      else { d.fifos with free := Function.update d.fifos.free sem 1 } := by
  have hback : Function.update (Function.update d.fifos.free sem 0) sem 1 =
      Function.update d.fifos.free sem 1 := Function.update_idem ..
  unfold mbxSemSignal
  rw [show (d.take sem).fifos.queue sem = [] from hq, ← hback]
  rfl

/-- What the signals leave of the bytes. -/
theorem signals_bytes (x : Mbx T) :
    content (((d.take sem).setMbx b x).signals b sem |>.mbx b) = content x ∧
      ((((d.take sem).setMbx b x).signals b sem).fifos.avbs b) = x.avbs := by
  have havbs : (((d.take sem).setMbx b x).signals b sem).fifos.avbs b = x.avbs := by
    show (mbxSemSignal (mbxSignal _ b) sem (some b)).avbs b = _
    rw [mbxSemSignal_frame.2.1, mbxSignal_waitingTask.2.1]
    exact Function.update_self ..
  have hring : (((d.take sem).setMbx b x).signals b sem).ring b =
      ⟨x.size, x.bufadr, x.fbyte, x.lbyte⟩ := Function.update_self ..
  refine ⟨?_, havbs⟩
  unfold content Device.mbx
  dsimp only
  rw [hring, havbs]

/-- The signals alone change nothing if and only if it is quiet. -/
theorem signals_eq : (((d.take (d.sndsem b)).setMbx b (d.mbx b)).signals b (d.sndsem b)) = d ↔
      Quiet d b := by
  have hset : (d.take (d.sndsem b)).setMbx b (d.mbx b) = d.take (d.sndsem b) := by
    unfold Device.setMbx Device.mbx Device.take
    dsimp only
    rw [Function.update_eq_self, Function.update_eq_self, Function.update_eq_self]
  rw [hset]
  constructor
  · intro h
    have hfifos : mbxSemSignal (mbxSignal (d.take (d.sndsem b)).fifos b) (d.sndsem b)
        (some b) = d.fifos := congrArg Device.fifos h
    have hwait : d.fifos.waitingTask b = none := by
      rw [← hfifos, mbxSemSignal_frame.1, mbxSignal_waitingTask.1]
    have hsignal : mbxSignal (d.take (d.sndsem b)).fifos b = (d.take (d.sndsem b)).fifos := by
      unfold mbxSignal
      rw [show (d.take (d.sndsem b)).fifos.waitingTask b = none from hwait]
    rw [hsignal] at hfifos
    cases hq : d.fifos.queue (d.sndsem b) with
    | cons t rest =>
      unfold mbxSemSignal at hfifos
      rw [show (d.take (d.sndsem b)).fifos.queue (d.sndsem b) = t :: rest from hq] at hfifos
      have hqueue := congrFun (congrArg Fifos.queue hfifos) (d.sndsem b)
      have herase : (RtaiFifo.postTask (RtaiFifo.dequeueBlocked
          (d.take (d.sndsem b)).fifos (d.sndsem b) t) t).queue (d.sndsem b) =
          (d.fifos.queue (d.sndsem b)).erase t := Function.update_self ..
      dsimp only at hqueue
      rw [herase, hq, List.erase_cons_head] at hqueue
      exact absurd (congrArg List.length hqueue) (by
        rw [List.length_cons]
        omega)
    | nil =>
      have hpend : pendsPoll d.fifos (some b) = false := by
        refine Bool.eq_false_iff.mpr fun hpend => ?_
        rw [mbxSemSignal_idle hq, if_pos hpend] at hfifos
        have hnew : Function.update d.fifos.polAsynPended b true b = true :=
          Function.update_self ..
        have hold : d.fifos.polAsynPended b = true :=
          (congrFun (congrArg Fifos.polAsynPended hfifos) b).symm.trans hnew
        unfold pendsPoll at hpend
        dsimp only at hpend
        rw [hold] at hpend
        exact nomatch hpend
      refine ⟨hwait, hq, ?_, hpend⟩
      rw [mbxSemSignal_idle hq, if_neg (Bool.eq_false_iff.mp hpend)] at hfifos
      exact (congrFun (congrArg Fifos.free hfifos) (d.sndsem b)).symm.trans
        (Function.update_self ..)
  · rintro ⟨hwait, hq, hone, hpend⟩
    have hsignal : mbxSignal (d.take (d.sndsem b)).fifos b = (d.take (d.sndsem b)).fifos := by
      unfold mbxSignal
      rw [show (d.take (d.sndsem b)).fifos.waitingTask b = none from hwait]
    have hback : Function.update d.fifos.free (d.sndsem b) 1 = d.fifos.free := by
      rw [← hone, Function.update_eq_self]
    have hfifos : mbxSemSignal (d.take (d.sndsem b)).fifos (d.sndsem b) (some b) =
        d.fifos := by
      rw [mbxSemSignal_idle hq, if_neg (Bool.eq_false_iff.mp hpend), hback]
    unfold Device.signals
    rw [hsignal, hfifos]
    rfl

end Signals

/-! ## The two ways -/

/-- A fifo that is open, with its ring. -/
structure Device.Open (d : Device T S) (b : Fin MAX_FIFOS) : Prop where
  ring : RingOk (d.mbx b)
  opncnt : d.opncnt b ≠ 0

/-- With enough passes of its loops a call leaves this device and these bytes. -/
def Gives (call : Nat → Option (Outcome T S)) (d : Device T S) (stored : List UInt8) :
    Prop :=
  ∃ enough, ∀ fuel ≥ enough, ∃ r, call fuel = some r ∧ r.dev = d ∧ r.stored = stored

/-- Two calls do the same to the fifo and transfer the same bytes. -/
def Same (call call' : Nat → Option (Outcome T S)) : Prop :=
  ∃ d stored, Gives call d stored ∧ Gives call' d stored

/-- **WHEN THE IOCTL DOES WHAT THE FUNCTION DOES**.  `WRITE_IF` goes in if there is
    any space; a call that it does not make, or makes to no purpose, would at least
    send the signals.  `OVRWRITE` sends `args` and what is behind it on the stack. -/
def Agrees (d : Device T S) (b : Fin MAX_FIFOS) (mem : Nat → UInt8) (sp : Nat)
    (args : Args) : Cmd → Prop
  | .eavesdrop | .readIf => True
  | .writeIf =>
    d.fifos.free (d.sndsem b) = 0 ∨
      (args.count ≤ d.fifos.frbs b ↔ args.count ≠ 0 ∧ d.fifos.frbs b ≠ 0) ∨
      (args.count ≤ 0 ∧ Quiet d b)
  | .ovrwrite =>
    d.fifos.free (d.sndsem b) = 0 ∨
      ∀ i : Nat, args.count - (d.ring b).size ≤ i → (i : Int) < args.count →
        mem (sp + i) = mem (args.buf + i)

section Calls

variable {d : Device T S} {b : Fin MAX_FIFOS} {mem kmem : Nat → UInt8} {sp arg kbuf : Nat}

omit decT decS in
theorem same_iff {call call' : Nat → Option (Outcome T S)} {d d' : Device T S}
    {l l' : List UInt8} (h : Gives call d l) (h' : Gives call' d' l') :
    Same call call' ↔ d = d' ∧ l = l' := by
  have hone : ∀ {call : Nat → Option (Outcome T S)} {d d' : Device T S}
      {l l' : List UInt8}, Gives call d l → Gives call d' l' → d = d' ∧ l = l' := by
    rintro call d d' l l' ⟨e, hrun⟩ ⟨e', hrun'⟩
    obtain ⟨r, hr, rfl, rfl⟩ := hrun (max e e') (le_max_left ..)
    obtain ⟨r', hr', rfl, rfl⟩ := hrun' (max e e') (le_max_right ..)
    rw [Option.some.inj (hr.symm.trans hr')]
    exact ⟨rfl, rfl⟩
  constructor
  · rintro ⟨d₀, l₀, h₀, h₀'⟩
    obtain ⟨rfl, rfl⟩ := hone h h₀
    obtain ⟨rfl, rfl⟩ := hone h' h₀'
    exact ⟨rfl, rfl⟩
  · rintro ⟨rfl, rfl⟩
    exact ⟨d, l, h, h'⟩

omit decT decS in
theorem ite_eq_ite_iff {α : Type} {p q : Prop} [Decidable p] [Decidable q] {a c : α} :
    ((if p then a else c) = if q then a else c) ↔ (p ↔ q) ∨ a = c := by
  by_cases hp : p <;> by_cases hq : q
  · simp [hp, hq]
  · simp [hp, hq]
  · simp [hp, hq, eq_comm]
  · simp [hp, hq]

omit decT decS in
theorem validFifo_open (h : d.Open b) (call : Fin MAX_FIFOS → Option (Outcome T S)) :
    validFifo d b call = call b := by
  unfold validFifo
  rw [dif_pos b.isLt, if_neg h.opncnt]

/-- A call made of a transfer whose copy ends. -/
theorem gives_transfer (sem : S) (test : Bool) (msgSize : Int)
    {call : Nat → Option (Outcome T S)}
    {copy : Nat → Mbx T → Option (Mbx T × List UInt8 × Int)}
    {x' : Mbx T} {l : List UInt8} {left : Int} {enough : Nat}
    (hcall : ∀ fuel r, transfer d b sem test (copy fuel) msgSize = some r →
      ∃ o, call fuel = some o ∧ o.dev = r.1 ∧ o.stored = r.2.1)
    (hcopy : ∀ fuel ≥ enough, copy fuel (d.mbx b) = some (x', l, left)) :
    Gives call (if d.fifos.free sem ≠ 0 ∧ test then ((d.take sem).setMbx b x').signals b sem
        else d)
      (if d.fifos.free sem ≠ 0 ∧ test then l else []) := by
  refine ⟨enough, fun fuel hfuel => ?_⟩
  unfold transfer at hcall
  by_cases hin : d.fifos.free sem ≠ 0 ∧ test
  · rw [if_pos hin, if_pos hin]
    refine hcall fuel (_, l, left) ?_
    rw [if_pos hin, hcopy fuel hfuel]
    rfl
  · rw [if_neg hin, if_neg hin]
    exact hcall fuel (d, [], msgSize) (if_neg hin)

/-- A send stores nothing at the buffer. -/
theorem gives_send (sem : S) (test : Bool) (msgSize : Int) {call : Nat → Option (Outcome T S)}
    {copy : Nat → Mbx T → Option (Mbx T × List UInt8 × Int)}
    {x' : Mbx T} {left : Int} {enough : Nat}
    (hcall : ∀ fuel r, transfer d b sem test (copy fuel) msgSize = some r →
      ∃ o, call fuel = some o ∧ o.dev = r.1 ∧ o.stored = r.2.1)
    (hcopy : ∀ fuel ≥ enough, copy fuel (d.mbx b) = some (x', [], left)) :
    Gives call (if d.fifos.free sem ≠ 0 ∧ test then ((d.take sem).setMbx b x').signals b sem
        else d) [] := by
  have hgives := gives_transfer sem test msgSize hcall hcopy
  rw [ite_self] at hgives
  exact hgives

/-- `EAVESDROP` and `READ_IF` are the functions of the kernel. -/
theorem reads_same (h : d.Open b) {cmd : Cmd} (hcmd : cmd = .eavesdrop ∨ cmd = .readIf) :
    Same (rtfIoctl · d b cmd mem sp arg)
      (cmd.kernel · d b kmem kbuf (argsAt (copyArgs mem sp arg) sp).count) := by
  obtain ⟨x', l, left, hget⟩ := mbxget_total h.ring (argsAt (copyArgs mem sp arg) sp).count
  generalize hn : (argsAt (copyArgs mem sp arg) sp).count = n at hget
  rcases hcmd with rfl | rfl
  · have hview : ∀ fuel > n.toNat, mbxEvdrp fuel d b n = some (d, l, left) := by
      intro fuel hfuel
      unfold mbxEvdrp
      rw [rtMbxEvdrp_kernel, hget fuel hfuel]
      rfl
    refine ⟨d, l, ⟨n.toNat + 1, fun fuel hfuel => ?_⟩, ⟨n.toNat + 1, fun fuel hfuel => ?_⟩⟩
    · refine ⟨⟨d, l, none, n - left⟩, ?_, rfl, rfl⟩
      unfold rtfIoctl
      dsimp only
      rw [hn, hview fuel hfuel]
      rfl
    · refine ⟨⟨d, l, none, n - left⟩, ?_, rfl, rfl⟩
      unfold Cmd.kernel rtfEvdrp
      dsimp only
      rw [validFifo_open h, hview fuel hfuel]
      rfl
  · have hcopy : ∀ fuel ≥ n.toNat + 1, mbxGet fuel n (d.mbx b) = some (x', l, left) :=
      fun fuel hfuel => hget fuel hfuel
    refine ⟨_, _, gives_transfer (d.rcvsem b) (d.fifos.avbs b ≥ n) n ?_ hcopy,
      gives_transfer (d.rcvsem b) (d.fifos.avbs b ≥ n) n ?_ hcopy⟩
    · intro fuel r hr
      unfold rtfIoctl mbxReceiveIf
      dsimp only
      rw [hn, hr]
      exact ⟨_, rfl, rfl, rfl⟩
    · intro fuel r hr
      unfold Cmd.kernel rtfGetIf
      dsimp only
      rw [validFifo_open h]
      unfold mbxReceiveIf
      rw [hr]
      exact ⟨_, rfl, rfl, rfl⟩

/-- `WRITE_IF` goes in if there is any space. -/
theorem writeIf_same_iff (h : d.Open b)
    (hk : ∀ i : Nat, (i : Int) < (argsAt (copyArgs mem sp arg) sp).count →
      kmem (kbuf + i) = copyArgs mem sp arg ((argsAt (copyArgs mem sp arg) sp).buf + i)) :
    Same (rtfIoctl · d b .writeIf mem sp arg)
      (Cmd.kernel · d b kmem kbuf (argsAt (copyArgs mem sp arg) sp).count .writeIf) ↔
      Agrees d b (copyArgs mem sp arg) sp (argsAt (copyArgs mem sp arg) sp)
        .writeIf := by
  generalize hm : copyArgs mem sp arg = m at hk ⊢
  generalize ha : argsAt m sp = args at hk ⊢
  obtain ⟨x', left, hput, hsum, hmore, hidle⟩ := mbxput_total h.ring
    (bytesAt m args.buf) args.count
  have hcopy : ∀ fuel ≥ args.count.toNat + 1,
      mbxPut fuel (bytesAt m args.buf) args.count (d.mbx b) = some (x', [], left) := by
    intro fuel hfuel
    unfold mbxPut
    rw [hput fuel hfuel]
    rfl
  have hkcopy : ∀ fuel ≥ args.count.toNat + 1,
      mbxPut fuel (bytesAt kmem kbuf) args.count (d.mbx b) = some (x', [], left) := by
    intro fuel hfuel
    have hsame : mbxput fuel (d.mbx b) (bytesAt kmem kbuf) args.count =
        mbxput fuel (d.mbx b) (bytesAt m args.buf) args.count := mbxput_same hk fuel
    unfold mbxPut
    rw [hsame]
    exact hcopy fuel hfuel
  -- what a call leaves that goes in
  have hD : ((d.take (d.sndsem b)).setMbx b x').signals b (d.sndsem b) = d ↔
      (args.count ≤ 0 ∨ d.fifos.frbs b = 0) ∧ Quiet d b := by
    by_cases hnone : args.count ≤ 0 ∨ d.fifos.frbs b = 0
    · rw [(hidle hnone).1, signals_eq]
      exact ⟨fun hq => ⟨hnone, hq⟩, fun hq => hq.2⟩
    · refine iff_of_false (fun heq => ?_) fun hq => hnone hq.1
      obtain ⟨hpos, hroom⟩ := not_or.mp hnone
      have havbs := @signals_bytes _ _ _ _ d b (d.sndsem b) x'
      rw [heq] at havbs
      have hsame : d.fifos.avbs b = x'.avbs := havbs.2
      have hold : (d.mbx b).avbs = d.fifos.avbs b := rfl
      have hlt := hmore (not_le.mp hpos) hroom
      omega
  have hkernel : Gives (Cmd.kernel · d b kmem kbuf args.count .writeIf)
      (if d.fifos.free (d.sndsem b) ≠ 0 ∧ decide (d.fifos.frbs b ≥ args.count) = true then
        ((d.take (d.sndsem b)).setMbx b x').signals b (d.sndsem b) else d) [] := by
    refine gives_send (d.sndsem b) (d.fifos.frbs b ≥ args.count) args.count ?_ hkcopy
    intro fuel r hr
    unfold Cmd.kernel rtfPutIf
    dsimp only
    rw [validFifo_open h]
    unfold mbxSendIf
    rw [hr]
    exact ⟨_, rfl, rfl, rfl⟩
  have hioctl : Gives (rtfIoctl · d b .writeIf mem sp arg)
      (if args.count ≠ 0 ∧ d.fifos.free (d.sndsem b) ≠ 0 ∧
          decide (d.fifos.frbs b ≠ 0) = true then
        ((d.take (d.sndsem b)).setMbx b x').signals b (d.sndsem b) else d) [] := by
    by_cases hzero : args.count = 0
    · rw [if_neg (fun hall => hall.1 hzero)]
      refine ⟨0, fun fuel _ => ⟨⟨d, [], some .w, args.count⟩, ?_, rfl, rfl⟩⟩
      unfold rtfIoctl
      dsimp only
      rw [hm, ha, if_neg (not_not.mpr hzero)]
    · rw [if_congr (and_iff_right hzero) rfl rfl]
      refine gives_send (d.sndsem b) (d.fifos.frbs b ≠ 0) args.count ?_ hcopy
      intro fuel r hr
      unfold rtfIoctl
      dsimp only
      rw [hm, ha, if_pos hzero]
      unfold mbxSendWp
      rw [hr, Option.map_some]
      refine ⟨_, rfl, ?_⟩
      split <;> exact ⟨rfl, rfl⟩
  have hfrbs : 0 ≤ d.fifos.frbs b := h.ring.frbs
  rw [same_iff hioctl hkernel, and_iff_left rfl, ite_eq_ite_iff, hD]
  unfold Agrees
  dsimp only
  rw [decide_eq_true_eq, decide_eq_true_eq]
  by_cases hfree : d.fifos.free (d.sndsem b) = 0
  · exact iff_of_true (.inl ⟨fun hp => absurd hfree hp.2.1, fun hq => absurd hfree hq.1⟩)
      (.inl hfree)
  · have htests : (args.count ≠ 0 ∧ d.fifos.free (d.sndsem b) ≠ 0 ∧
        d.fifos.frbs b ≠ 0 ↔ d.fifos.free (d.sndsem b) ≠ 0 ∧ d.fifos.frbs b ≥ args.count) ↔
        (args.count ≤ d.fifos.frbs b ↔ args.count ≠ 0 ∧ d.fifos.frbs b ≠ 0) := by
      constructor
      · intro hiff
        exact ⟨fun hle => ⟨(hiff.mpr ⟨hfree, hle⟩).1, (hiff.mpr ⟨hfree, hle⟩).2.2⟩,
          fun hgo => (hiff.mp ⟨hgo.1, hfree, hgo.2⟩).2⟩
      · intro hiff
        exact ⟨fun hgo => ⟨hfree, hiff.mpr ⟨hgo.1, hgo.2.2⟩⟩,
          fun hgo => ⟨(hiff.mp hgo.2).1, hfree, (hiff.mp hgo.2).2⟩⟩
    rw [htests, or_iff_right hfree]
    constructor
    · rintro (hiff | ⟨hle | hzero, hquiet⟩)
      · exact .inl hiff
      · exact .inr ⟨hle, hquiet⟩
      · rcases le_or_gt args.count 0 with hle | hpos
        · exact .inr ⟨hle, hquiet⟩
        · refine .inl ⟨fun hle => ?_, fun hgo => absurd hzero hgo.2⟩
          omega
    · rintro (hiff | ⟨hle, hquiet⟩)
      · exact .inl hiff
      · exact .inr ⟨.inl hle, hquiet⟩

/-- `OVRWRITE` sends what is at `&args.buf`. -/
theorem ovrwrite_same_iff (h : d.Open b)
    (hk : ∀ i : Nat, (i : Int) < (argsAt (copyArgs mem sp arg) sp).count →
      kmem (kbuf + i) = copyArgs mem sp arg ((argsAt (copyArgs mem sp arg) sp).buf + i)) :
    Same (rtfIoctl · d b .ovrwrite mem sp arg)
      (Cmd.kernel · d b kmem kbuf (argsAt (copyArgs mem sp arg) sp).count .ovrwrite) ↔
      Agrees d b (copyArgs mem sp arg) sp (argsAt (copyArgs mem sp arg) sp)
        .ovrwrite := by
  generalize hm : copyArgs mem sp arg = m at hk ⊢
  generalize ha : argsAt m sp = args at hk ⊢
  have hcopy : ∀ {msg : Nat → UInt8} {x' : Mbx T} {e : Nat},
      (∀ fuel ≥ e, overwrite fuel (d.mbx b) msg args.count = some (x', 0)) →
      ∀ fuel ≥ e, mbxOvrwrPut fuel msg args.count (d.mbx b) = some (x', [], 0) := by
    intro msg x' e hrun fuel hfuel
    unfold mbxOvrwrPut RtaiMbxCopies.mbxOvrwrPut
    rw [hrun fuel hfuel]
    rfl
  obtain ⟨x₁, e₁, hrun₁⟩ := overwrite_total h.ring (bytesAt m sp) args.count
  obtain ⟨x₂, e₂, hrun₂⟩ := overwrite_total h.ring (bytesAt kmem kbuf) args.count
  have hioctl : Gives (rtfIoctl · d b .ovrwrite mem sp arg)
      (if d.fifos.free (d.sndsem b) ≠ 0 ∧ true = true then
        ((d.take (d.sndsem b)).setMbx b x₁).signals b (d.sndsem b) else d) [] := by
    refine gives_send (d.sndsem b) true args.count ?_ (hcopy hrun₁)
    intro fuel r hr
    unfold rtfIoctl
    dsimp only
    rw [hm, ha]
    unfold mbxOvrwrSend
    rw [hr]
    exact ⟨_, rfl, rfl, rfl⟩
  have hkernel : Gives (Cmd.kernel · d b kmem kbuf args.count .ovrwrite)
      (if d.fifos.free (d.sndsem b) ≠ 0 ∧ true = true then
        ((d.take (d.sndsem b)).setMbx b x₂).signals b (d.sndsem b) else d) [] := by
    refine gives_send (d.sndsem b) true args.count ?_ (hcopy hrun₂)
    intro fuel r hr
    unfold Cmd.kernel rtfOvrwrPut
    dsimp only
    rw [validFifo_open h]
    unfold mbxOvrwrSend
    rw [hr]
    exact ⟨_, rfl, rfl, rfl⟩
  rw [same_iff hioctl hkernel, and_iff_left rfl]
  unfold Agrees
  dsimp only
  by_cases hfree : d.fifos.free (d.sndsem b) = 0
  · rw [if_neg (fun hin => hin.1 hfree), if_neg (fun hin => hin.1 hfree)]
    exact iff_of_true rfl (.inl hfree)
  rw [if_pos ⟨hfree, rfl⟩, if_pos ⟨hfree, rfl⟩, or_iff_right hfree]
  constructor
  · intro heq i hlo hhi
    have hcontent := (@signals_bytes _ _ _ _ d b (d.sndsem b) x₁).1
    rw [heq, (@signals_bytes _ _ _ _ d b (d.sndsem b) x₂).1] at hcontent
    have hbyte : bytesAt m sp i = bytesAt kmem kbuf i :=
      overwrite_inj h.ring (by omega) hrun₁ hrun₂ hcontent.symm hlo hhi
    exact hbyte.trans (hk i hhi)
  · intro hbytes
    have hsame : overwrite (max e₁ e₂) (d.mbx b) (bytesAt m sp) args.count =
        overwrite (max e₁ e₂) (d.mbx b) (bytesAt kmem kbuf) args.count :=
      overwrite_same (fun i hlo hhi => (hbytes i hlo hhi).trans (hk i hhi).symm) _
    rw [hrun₁ _ (le_max_left ..), hrun₂ _ (le_max_right ..)] at hsame
    rw [(Prod.mk.inj (Option.some.inj hsame)).1]

/-- **AN IOCTL DOES WHAT THE FUNCTION OF THE KERNEL DOES** with a buffer of the same
    content, if and only if `Agrees`: `EAVESDROP` and `READ_IF` in every state. -/
theorem ioctl_same_iff (h : d.Open b) (cmd : Cmd)
    (hk : ∀ i : Nat, (i : Int) < (argsAt (copyArgs mem sp arg) sp).count →
      kmem (kbuf + i) = copyArgs mem sp arg ((argsAt (copyArgs mem sp arg) sp).buf + i)) :
    Same (rtfIoctl · d b cmd mem sp arg)
      (cmd.kernel · d b kmem kbuf (argsAt (copyArgs mem sp arg) sp).count) ↔
      Agrees d b (copyArgs mem sp arg) sp (argsAt (copyArgs mem sp arg) sp) cmd := by
  cases cmd with
  | eavesdrop => exact iff_of_true (reads_same h (.inl rfl)) trivial
  | readIf => exact iff_of_true (reads_same h (.inr rfl)) trivial
  | writeIf => exact writeIf_same_iff h hk
  | ovrwrite => exact ovrwrite_same_iff h hk

end Calls

end Model

/-- Every fifo holds three bytes in a buffer of four, and nobody waits. -/
def threeBytes : Device Unit Bool where
  fifos :=
    { free := fun _ => 1
      qtype := fun _ => 0
      queue := fun _ => []
      blocked := fun _ => false
      priority := fun _ => 0
      interruptible := fun _ => false
      waitingTask := fun _ => none
      avbs := fun _ => 3
      frbs := fun _ => 1
      polAsynPended := fun _ => false
      polled := fun _ => false
      taskq := RtaiCounterRing.Traced.empty (fun _ => none) 0 RtaiFifo.MAXREQS_pos
      polAsynQ := RtaiCounterRing.Traced.empty (fun _ => none) 0 RtaiFifo.MAXREQS_pos }
  ring := fun _ => ⟨4, [1, 2, 3, 4], 2, 1⟩
  sndsem := fun _ => true
  rcvsem := fun _ => false
  opncnt := fun _ => 1

theorem threeBytes_open : threeBytes.Open 0 := ⟨wrapped_ok, by decide⟩

/-- `args` at 100, for a buffer at 200; the stack of the ioctl is at 1000. -/
def userMemory (count : UInt8) : Nat → UInt8 := fun p =>
  if p = 100 then 200 else if p = 108 then count else 0

/-- A write that fits. -/
theorem ioctl_same_iff_fits : Same (rtfIoctl · threeBytes 0 .writeIf (userMemory 1) 1000 100)
      (Cmd.kernel · threeBytes 0 (copyArgs (userMemory 1) 1000 100) 200 1 .writeIf) :=
  (ioctl_same_iff threeBytes_open .writeIf fun _ _ => rfl).mpr (.inr (.inl (by decide)))

/-- Of two bytes for a fifo with space for one, `WRITE_IF` writes the first; and
    `OVRWRITE` of two bytes writes the pointer to them. -/
theorem ioctls_differ : threeBytes.Open 0 ∧
      (∀ i : Nat, (i : Int) < (argsAt (copyArgs (userMemory 2) 1000 100) 1000).count →
        copyArgs (userMemory 2) 1000 100 (200 + i) = copyArgs (userMemory 2) 1000 100
            ((argsAt (copyArgs (userMemory 2) 1000 100) 1000).buf + i)) ∧
      ¬Same (rtfIoctl · threeBytes 0 .writeIf (userMemory 2) 1000 100)
        (Cmd.kernel · threeBytes 0 (copyArgs (userMemory 2) 1000 100) 200 2 .writeIf) ∧
      ¬Same (rtfIoctl · threeBytes 0 .ovrwrite (userMemory 2) 1000 100)
        (Cmd.kernel · threeBytes 0 (copyArgs (userMemory 2) 1000 100) 200 2 .ovrwrite) := by
  refine ⟨threeBytes_open, fun _ _ => rfl, fun h => ?_, fun h => ?_⟩
  · rcases (writeIf_same_iff threeBytes_open fun _ _ => rfl).mp h with
      hfree | htests | ⟨hle, -⟩
    · exact absurd hfree (by decide)
    · exact absurd htests (by decide)
    · exact absurd hle (by decide)
  · rcases (ovrwrite_same_iff threeBytes_open fun _ _ => rfl).mp h with hfree | hbytes
    · exact absurd hfree (by decide)
    · exact absurd (hbytes 0 (by decide) (by decide)) (by decide)

end RtaiFifoIoctls
