import Rtai.ByteStream
import Rtai.WhileLoops

/-! # The copies in and out of a mailbox

    `mbxput`, `mbxovrwrput`, `mbxget` and `mbxevdrp` of `mbx.c`, executed by a
    task that is alone with the mailbox, and `mbx_ovrwr_put` of `fifos.c`.  The
    loops are counted; `none` is a copy outside the buffer, or not enough
    passes. -/

namespace RtaiMbxCopies

open RtaiCircular RtaiMailbox RtaiByteStream RtaiWhileLoops

variable {T : Type}

/-! ## The ring -/

/-- **THE RING INVARIANT**. -/
structure RingOk (x : Mbx T) : Prop where
  size : 1 ≤ x.size
  bufadr : x.bufadr.length = x.size
  sum : x.avbs + x.frbs = x.size
  avbs : 0 ≤ x.avbs
  frbs : 0 ≤ x.frbs
  fbyte : 0 ≤ x.fbyte ∧ x.fbyte < x.size
  lbyte : 0 ≤ x.lbyte ∧ x.lbyte < x.size
  last : x.lbyte = (x.fbyte + x.avbs) % x.size

/-- The bytes that can be read. -/
def content (x : Mbx T) : List UInt8 :=
  (List.range x.avbs.toNat).map fun k : Nat =>
    x.bufadr.getD ((x.fbyte + k) % x.size).toNat 0

/-- A message of `msgSize` bytes. -/
def message (msg : Nat → UInt8) (msgSize : Int) : List UInt8 :=
  (List.range msgSize.toNat).map msg

/-- The last `n` elements. -/
def newest (n : Nat) (l : List UInt8) : List UInt8 := l.drop (l.length - n)

/-! ## Sending -/

/-- A mailbox, `*msg` and `msg_size`. -/
structure Sending (T : Type) where
  mbx : Mbx T
  msg : Nat → UInt8
  msgSize : Int

namespace Sending

variable (s : Sending T)

/-- `*msg += n; msg_size -= n` -/
def skip (n : Int) : Sending T :=
  { s with msg := fun i => s.msg (n.toNat + i), msgSize := s.msgSize - n }

/-- One pass of the loop of `mbxput`. -/
def putPass : Option (Sending T) :=
  let x := s.mbx
  let n := x.tocpy .send s.msgSize
  match memcpyTo x.bufadr x.lbyte n s.msg with
  | none => none
  | some buf =>
    some (skip { s with
      mbx := (Mbx.fill { x with bufadr := buf } n).advance .send n } n)

/-- `msg_size > 0 && mbx->frbs` -/
def puts : Bool := s.msgSize > 0 ∧ s.mbx.frbs ≠ 0

/-- `(n = msg_size - mbx->frbs) > 0` -/
def drops : Bool := s.msgSize - s.mbx.frbs > 0

/-- One pass of the inner loop of `mbxovrwrput`. -/
def dropPass : Option (Sending T) :=
  let n := s.mbx.tocpy .recv (s.msgSize - s.mbx.frbs)
  some { s with mbx := (s.mbx.drain n).advance .recv n }

/-- One pass of the outer loop of `mbxovrwrput`. -/
def ovrwrPass (fuel : Nat) : Option (Sending T) :=
  match if s.mbx.frbs ≠ 0 then s.putPass else some s with
  | none => none
  | some s =>
    if s.msgSize ≠ 0 then whileLoop Sending.drops Sending.dropPass fuel s
    else some s

/-- `n = msg_size - mbx->size`, and only the last bytes are sent. -/
def clip : Sending T :=
  let n := s.msgSize - s.mbx.size
  if n > 0 then s.skip n else s

end Sending

/-- What the two functions that overwrite do, and the value they return. -/
def overwrite (fuel : Nat) (x : Mbx T) (msg : Nat → UInt8) (msgSize : Int) :
    Option (Mbx T × Int) :=
  (whileLoop (fun s => s.msgSize > 0) (Sending.ovrwrPass · fuel) fuel
    (Sending.mk x msg msgSize).clip).map fun s => (s.mbx, 0)

/-- `mbxput` -/
def mbxput (fuel : Nat) (x : Mbx T) (msg : Nat → UInt8) (msgSize : Int) :
    Option (Mbx T × Int) :=
  (whileLoop Sending.puts Sending.putPass fuel ⟨x, msg, msgSize⟩).map fun s =>
    (s.mbx, s.msgSize)

/-- `mbxovrwrput` -/
def mbxovrwrput (fuel : Nat) (x : Mbx T) (msg : Nat → UInt8) (msgSize : Int) :
    Option (Mbx T × Int) := overwrite fuel x msg msgSize

/-- `mbx_ovrwr_put` of `fifos.c`, whose `F_MBX` has the same fields. -/
def mbxOvrwrPut (fuel : Nat) (x : Mbx T) (msg : Nat → UInt8) (msgSize : Int) :
    Option (Mbx T × Int) := overwrite fuel x msg msgSize

/-! ## Receiving -/

/-- A mailbox, `msg_size`, and what has been stored at `*msg`. -/
structure Receiving (T : Type) where
  mbx : Mbx T
  msgSize : Int
  stored : List UInt8

/-- `msg_size > 0 && mbx->avbs` -/
def Receiving.gets (s : Receiving T) : Bool := s.msgSize > 0 ∧ s.mbx.avbs ≠ 0

/-- One pass of the loop of `mbxget`. -/
def Receiving.getPass (s : Receiving T) : Option (Receiving T) :=
  let x := s.mbx
  let n := x.tocpy .recv s.msgSize
  match memcpyFrom x.bufadr x.fbyte n with
  | none => none
  | some bytes =>
    some { mbx := (x.drain n).advance .recv n, msgSize := s.msgSize - n,
           stored := s.stored ++ bytes }

/-- `mbxget`: the mailbox, what is stored, and the value that is returned. -/
def mbxget (fuel : Nat) (x : Mbx T) (msgSize : Int) : Option (Mbx T × List UInt8 × Int) :=
  (whileLoop Receiving.gets Receiving.getPass fuel ⟨x, msgSize, []⟩).map fun s =>
    (s.mbx, s.stored, s.msgSize)

/-- The locals of `mbxevdrp`, and what has been stored at `*msg`. -/
structure Previewing where
  fbyte : Int
  avbs : Int
  msgSize : Int
  stored : List UInt8

/-- `msg_size > 0 && avbs` -/
def Previewing.gets (s : Previewing) : Bool := s.msgSize > 0 ∧ s.avbs ≠ 0

/-- One pass of the loop of `mbxevdrp`.  The copy to user space starts at the
    `fbyte` of the mailbox. -/
def Previewing.pass (x : Mbx T) (space : Bool) (s : Previewing) :
    Option Previewing :=
  let n := if x.size - s.fbyte > s.msgSize then s.msgSize else x.size - s.fbyte
  let n := if n > s.avbs then s.avbs else n
  match memcpyFrom x.bufadr (if space then s.fbyte else x.fbyte) n with
  | none => none
  | some bytes =>
    some { fbyte := x.modSize (s.fbyte + n), avbs := s.avbs - n,
           msgSize := s.msgSize - n, stored := s.stored ++ bytes }

/-- `_rt_mbx_evdrp`, for a destination in kernel space or in user space. -/
def rtMbxEvdrp (fuel : Nat) (x : Mbx T) (msgSize : Int) (space : Bool) :
    Option (Mbx T × List UInt8 × Int) :=
  (whileLoop Previewing.gets (Previewing.pass x space) fuel
    ⟨x.fbyte, x.avbs, msgSize, []⟩).map fun s => (x, s.stored, s.msgSize)

/-! ## Lists of bytes -/

section Lists

variable {l l' : List UInt8} {n k : Nat} {msg : Nat → UInt8} {m : Int}

theorem newest_of_length_le (h : l.length ≤ n) : newest n l = l := by
  unfold newest
  rw [Nat.sub_eq_zero_of_le h, List.drop_zero]

theorem newest_drop (h : k + n ≤ l.length) : newest n (l.drop k) = newest n l := by
  unfold newest
  rw [List.drop_drop, List.length_drop]
  congr 1
  omega

theorem newest_append (h : n ≤ l'.length) : newest n (l ++ l') = newest n l' := by
  unfold newest
  rw [List.length_append, show l.length + l'.length - n = l.length + (l'.length - n) by
    omega, List.drop_length_add_append]

theorem newest_min : newest (min n l.length) l = newest n l := by
  unfold newest
  congr 1
  omega

theorem length_message : (message msg m).length = m.toNat := by
  unfold message
  rw [List.length_map, List.length_range]

/-- A message is its first bytes and the rest. -/
theorem message_split (hk : (k : Int) ≤ m) : message msg m =
      (List.range k).map msg ++ message (fun i => msg (k + i)) (m - k) := by
  unfold message
  have hsum : m.toNat = k + (m - k).toNat := by omega
  rw [hsum, List.range_add, List.map_append, List.map_map]
  rfl

theorem message_drop (hk : (k : Int) ≤ m) :
    message (fun i => msg (k + i)) (m - k) = (message msg m).drop k := by
  have hlen : ((List.range k).map msg).length = k := by
    rw [List.length_map, List.length_range]
  rw [message_split hk, List.drop_append_of_le_length hlen.ge,
    List.drop_eq_nil_of_le hlen.le, List.nil_append]

end Lists

/-! ## The ring and what it holds -/

section Ring

variable {x : Mbx T} {r : RingBuffer UInt8}

theorem RingOk.represents (h : RingOk x) : ∃ r, Represents x .none .none r := by
  have hsize := h.size
  have hbuf := h.bufadr
  have hsum := h.sum
  have ha := h.avbs
  have hf := h.frbs
  have hfb := h.fbyte
  refine ⟨⟨x.bufadr, x.fbyte.toNat, x.avbs.toNat, by omega, by omega⟩, hbuf.symm,
    rfl, ?_, ?_, ?_, ?_⟩
  · exact (Int.toNat_of_nonneg ha).symm
  · show x.frbs = (x.bufadr.length : Int) - x.avbs.toNat
    omega
  · show x.lbyte = (wrap x.bufadr.length (x.fbyte.toNat + x.avbs.toNat) : Nat)
    have hlast := h.last
    unfold wrap
    split
    · rw [Int.emod_eq_of_lt (by omega) (by omega)] at hlast
      omega
    · rw [← Int.sub_emod_right, Int.emod_eq_of_lt (by omega) (by omega)] at hlast
      omega
  · exact (Int.toNat_of_nonneg hfb.1).symm

theorem ringOk_of_represents (R : Represents x .none .none r) : RingOk x := by
  have hs := R.size
  have ha := R.avbs
  have hf := R.frbs
  have hput : x.lbyte = r.last := R.put
  have hget : x.fbyte = r.first := R.get
  have h1 := r.first_lt
  have h2 := r.used_le
  have h3 := r.last_lt
  refine ⟨by omega, ?_, by omega, by omega, by omega, by omega, by omega, ?_⟩
  · rw [R.bufadr]
    exact hs.symm
  · have hlast : r.last = wrap r.buf.length (r.first + r.used) := rfl
    unfold wrap at hlast
    split at hlast
    · rw [Int.emod_eq_of_lt (by omega) (by omega)]
      omega
    · rw [← Int.sub_emod_right, Int.emod_eq_of_lt (by omega) (by omega)]
      omega

theorem contents_represented (R : Represents x .none .none r) : r.contents = content x := by
  have hs := R.size
  have ha := R.avbs
  have hget : x.fbyte = r.first := R.get
  have h1 := r.first_lt
  have h2 := r.used_le
  refine List.ext_getElem ?_ ?_
  · unfold content
    rw [r.length_contents, List.length_map, List.length_range, ha, Int.toNat_natCast]
  · intro k hk hk'
    rw [r.length_contents] at hk
    have hplace : ((x.fbyte + k) % x.size).toNat = (k + r.first) % r.buf.length := by
      rw [hget, hs, Int.add_comm]
      exact congrArg Int.toNat (Int.natCast_emod (k + r.first) r.buf.length).symm
    have hlt : (k + r.first) % r.buf.length < r.buf.length :=
      Nat.mod_lt _ (by omega)
    simp only [content, RingBuffer.contents, List.getElem_take, List.getElem_rotate,
      List.getElem_map, List.getElem_range]
    rw [hplace, R.bufadr, List.getD_eq_getElem _ _ hlt]

@[simp] theorem length_content : (content x).length = x.avbs.toNat := by
  unfold content
  rw [List.length_map, List.length_range]

end Ring

/-! ## The overwriting send -/

/-- **WHAT EVERY PASS KEEPS**: the ring, and the newest bytes of all that was
    there and is sent. -/
structure Sending.Ok (n : Int) (kept : List UInt8) (s : Sending T) : Prop where
  ring : RingOk s.mbx
  size : s.mbx.size = n
  nonneg : 0 ≤ s.msgSize
  le : s.msgSize ≤ n
  keeps : newest n.toNat (content s.mbx ++ message s.msg s.msgSize) = kept

section Passes

variable {s : Sending T} {n : Int} {kept : List UInt8}

/-- A pass that puts bytes. -/
theorem Sending.Ok.putPass (h : s.Ok n kept) (hm : 0 < s.msgSize) (hne : s.mbx.frbs ≠ 0) :
    ∃ s', s.putPass = some s' ∧ s'.Ok n kept ∧ s'.msgSize < s.msgSize := by
  obtain ⟨r, R⟩ := h.ring.represents
  have hfb := h.ring.lbyte
  obtain ⟨hpos, hle, -, -⟩ := tocpy_bounds (x := s.mbx) (d := .send) hm h.ring.frbs hne hfb.2
  obtain ⟨buf, r₁, hcopy, R₁, hr₁⟩ := R.putCopy hm hne s.msg
  obtain ⟨r₂, R₂, hr₂⟩ := R₁.putCounters
  have R₃ := R₂.putIndex
  unfold Sending.putPass
  dsimp only
  rw [hcopy]
  refine ⟨_, rfl, ⟨ringOk_of_represents R₃, h.size, ?_, ?_, ?_⟩, ?_⟩
  · show 0 ≤ s.msgSize - _
    omega
  · have hbound := h.le
    show s.msgSize - _ ≤ n
    omega
  · have hk := Int.toNat_of_nonneg hpos.le
    have hsplit := @message_split _ s.msg s.msgSize (hk.trans_le hle)
    rw [hk] at hsplit
    have hnew := h.keeps
    rw [← contents_represented R, hsplit, ← List.append_assoc, ← hr₁, ← hr₂,
      contents_represented R₃] at hnew
    exact hnew
  · show s.msgSize - _ < s.msgSize
    omega

/-- A pass that drops the oldest bytes. -/
theorem Sending.Ok.dropPass (h : s.Ok n kept) (hm : 0 < s.msgSize - s.mbx.frbs) :
    ∃ s', s.dropPass = some s' ∧ s'.Ok n kept ∧ s'.msgSize = s.msgSize ∧
      s.mbx.frbs < s'.mbx.frbs := by
  obtain ⟨r, R⟩ := h.ring.represents
  have hsum := h.ring.sum
  have hsize := h.size
  have hle := h.le
  have hne : s.mbx.avbs ≠ 0 := by omega
  obtain ⟨hpos, hfit, -, -⟩ := tocpy_bounds (x := s.mbx) (d := .recv) hm
    h.ring.avbs hne h.ring.fbyte.2
  obtain ⟨bytes, -, R₁⟩ := R.getCopy hm hne
  obtain ⟨-, hlen, -⟩ := R₁.get
  obtain ⟨r₂, R₂, hr₂⟩ := R₁.getCounters
  have R₃ := R₂.getIndex
  refine ⟨_, rfl, ⟨ringOk_of_represents R₃, h.size, h.nonneg, h.le, ?_⟩, rfl, ?_⟩
  · have hnew := h.keeps
    have hdrop : content ((s.mbx.drain (s.mbx.tocpy .recv
        (s.msgSize - s.mbx.frbs))).advance .recv (s.mbx.tocpy .recv
        (s.msgSize - s.mbx.frbs))) ++ message s.msg s.msgSize =
        (content s.mbx ++ message s.msg s.msgSize).drop bytes.length := by
      rw [← contents_represented R, hr₂, contents_represented R₃,
        List.append_assoc, List.drop_left]
    show newest _ (content _ ++ message _ _) = _
    rw [hdrop, newest_drop, hnew]
    rw [List.length_append, length_content, length_message]
    omega
  · show s.mbx.frbs < s.mbx.frbs + _
    omega

/-- The inner loop makes room for the rest of the message. -/
theorem Sending.Ok.dropLoop (h : s.Ok n kept) {fuel : Nat} (hfuel : n.toNat < fuel) :
    ∃ s', whileLoop Sending.drops Sending.dropPass fuel s = some s' ∧
      s'.Ok n kept ∧ s'.msgSize = s.msgSize ∧ s'.msgSize ≤ s'.mbx.frbs := by
  have hfrbs := h.ring.frbs
  have hle := h.le
  have hstep : ∀ t : Sending T, t.Ok n kept ∧ t.msgSize = s.msgSize →
      t.drops = true → ∃ t', t.dropPass = some t' ∧ (t'.Ok n kept ∧ t'.msgSize = s.msgSize) ∧
        (t'.msgSize - t'.mbx.frbs).toNat < (t.msgSize - t.mbx.frbs).toNat := by
    rintro t ⟨ht, hsame⟩ htest
    have hpos : 0 < t.msgSize - t.mbx.frbs := of_decide_eq_true htest
    obtain ⟨t', hb, ht', hsize, hlt⟩ := ht.dropPass hpos
    exact ⟨t', hb, ⟨ht', hsize.trans hsame⟩, by omega⟩
  obtain ⟨s', hrun, ⟨hok, hsame⟩, hend⟩ :=
    @whileLoop_total _ _ _ _ (fun t => (t.msgSize - t.mbx.frbs).toNat) hstep s
      ⟨h, rfl⟩ fuel (by omega)
  have hnot := of_decide_eq_false hend
  exact ⟨s', hrun, hok, hsame, by omega⟩

/-- What is left to send, and whether there is no room for it yet. -/
def Sending.left (s : Sending T) : Nat :=
  2 * s.msgSize.toNat + if s.mbx.frbs = 0 then 1 else 0

/-- **A PASS OF THE OUTER LOOP** sends, or makes room. -/
theorem Sending.Ok.ovrwrPass (h : s.Ok n kept) (hm : 0 < s.msgSize)
    {fuel : Nat} (hfuel : n.toNat < fuel) :
    ∃ s', s.ovrwrPass fuel = some s' ∧ s'.Ok n kept ∧ s'.left < s.left := by
  unfold Sending.ovrwrPass
  by_cases hf : s.mbx.frbs = 0
  · rw [if_neg (not_not.mpr hf)]
    dsimp only
    rw [if_pos hm.ne']
    obtain ⟨s', hrun, hok, hsame, hroom⟩ := h.dropLoop hfuel
    refine ⟨s', hrun, hok, ?_⟩
    unfold Sending.left
    rw [if_pos hf, if_neg (by omega), hsame]
    omega
  · rw [if_pos hf]
    obtain ⟨s₁, hput, hok₁, hlt⟩ := h.putPass hm hf
    have hnonneg := hok₁.nonneg
    rw [hput]
    dsimp only
    have hleft : ∀ t : Sending T, t.msgSize = s₁.msgSize → t.left < s.left := by
      intro t ht
      unfold Sending.left
      rw [if_neg hf, ht]
      split <;> omega
    split
    · obtain ⟨s', hrun, hok, hsame, -⟩ := hok₁.dropLoop hfuel
      exact ⟨s', hrun, hok, hleft s' hsame⟩
    · exact ⟨s₁, rfl, hok₁, hleft s₁ rfl⟩

end Passes

/-- Of a message longer than the buffer only the end matters. -/
theorem Sending.Ok.clip {x : Mbx T} {msg : Nat → UInt8} {m : Int} (h : RingOk x) (hm : 0 ≤ m) :
    (Sending.mk x msg m).clip.Ok x.size
      (newest x.size.toNat (content x ++ message msg m)) := by
  have hpos := h.size
  unfold Sending.clip
  dsimp only
  split
  · next hlong =>
      have hn : ((m - x.size).toNat : Int) = m - x.size := by omega
      have hle : ((m - x.size).toNat : Int) ≤ m := by omega
      refine ⟨h, rfl, ?_, ?_, ?_⟩
      · show 0 ≤ m - (m - x.size)
        omega
      · show m - (m - x.size) ≤ x.size
        omega
      · show newest _ (content x ++ message (fun i => msg ((m - x.size).toNat + i))
          (m - (m - x.size))) = _
        have hdrop := @message_drop _ msg m hle
        rw [hn] at hdrop
        have hlen := @length_message msg m
        rw [hdrop, newest_append, newest_drop, newest_append]
        · omega
        · omega
        · rw [List.length_drop]
          omega
  · next hshort =>
      have hle : m ≤ x.size := by omega
      exact ⟨h, rfl, hm, hle, rfl⟩

theorem ovrwrPass_mono {fuel more : Nat} (hle : fuel ≤ more) (s s' : Sending T)
    (h : s.ovrwrPass fuel = some s') : s.ovrwrPass more = some s' := by
  unfold Sending.ovrwrPass at h ⊢
  cases hput : (if s.mbx.frbs ≠ 0 then s.putPass else some s) with
  | none =>
    rw [hput] at h
    exact nomatch h
  | some t =>
    rw [hput] at h
    dsimp only at h ⊢
    split at h
    · next hne =>
        rw [if_pos hne]
        exact whileLoop_mono (fun _ _ hb => hb) hle h
    · next hz =>
        rw [if_neg hz]
        exact h

/-- **THE NEWEST BYTES STAY**: from any state of the ring, and for any message,
    the two functions end, and the mailbox then holds the last bytes of what it
    held and of the message. -/
theorem overwriting_keeps_newest {x : Mbx T} (h : RingOk x) (msg : Nat → UInt8)
    (msgSize : Int) (h0 : 0 ≤ msgSize) :
    ∃ enough x', (∀ fuel ≥ enough, mbxovrwrput fuel x msg msgSize = some (x', 0) ∧
        mbxOvrwrPut fuel x msg msgSize = some (x', 0)) ∧
      RingOk x' ∧ x'.size = x.size ∧
      content x' = newest (min x.size (x.avbs + msgSize)).toNat
        (content x ++ message msg msgSize) := by
  have hclip := @Sending.Ok.clip T x msg msgSize h h0
  have havbs := h.avbs
  have hsize := h.size
  generalize hs : (Sending.mk x msg msgSize).clip = s at hclip
  obtain ⟨s', hrun, hok, hend⟩ := @whileLoop_total _ (fun s : Sending T => s.msgSize > 0)
    (Sending.ovrwrPass · (s.left + x.size.toNat + 1)) _ Sending.left
    (fun t ht htest => ht.ovrwrPass (of_decide_eq_true htest) (by omega)) s hclip
    (s.left + x.size.toNat + 1) (by omega)
  refine ⟨s.left + x.size.toNat + 1, s'.mbx, ?_, hok.ring, hok.size, ?_⟩
  · intro fuel hfuel
    have hmore := whileLoop_mono (ovrwrPass_mono hfuel) hfuel hrun
    have hover : overwrite fuel x msg msgSize = some (s'.mbx, 0) := by
      unfold overwrite
      rw [hs, hmore]
      rfl
    exact ⟨hover, hover⟩
  · have hdone : s'.msgSize = 0 := by
      have := of_decide_eq_false hend
      have := hok.nonneg
      omega
    have hnil : message s'.msg s'.msgSize = [] := by
      rw [hdone]
      rfl
    have hkeeps := hok.keeps
    have hsum := hok.ring.sum
    have hfrbs := hok.ring.frbs
    have hsame := hok.size
    rw [hnil, List.append_nil, newest_of_length_le (by rw [length_content]; omega)] at hkeeps
    have hlen : (content x ++ message msg msgSize).length = (x.avbs + msgSize).toNat := by
      rw [List.length_append, length_content, length_message]
      omega
    rw [hkeeps, ← newest_min, hlen]
    congr 1
    omega

/-- Three bytes in a buffer of four, the last of them at its beginning. -/
def wrapped : Mbx Unit :=
  { size := 4, bufadr := [1, 2, 3, 4], frbs := 1, avbs := 3, fbyte := 2, lbyte := 1,
    sem := fun _ => none, waitingTask := none, pollq := fun _ => [] }

theorem wrapped_ok : RingOk wrapped := by
  refine ⟨?_, rfl, rfl, ?_, ?_, ?_, ?_, rfl⟩ <;> decide

theorem overwriting_keeps_newest_wrapped : ∃ enough x', (∀ fuel ≥ enough,
        mbxovrwrput fuel wrapped (7 + UInt8.ofNat ·) 3 = some (x', 0) ∧
        mbxOvrwrPut fuel wrapped (7 + UInt8.ofNat ·) 3 = some (x', 0)) ∧
      RingOk x' ∧ x'.size = 4 ∧ content x' = [1, 7, 8, 9] := by
  have hnewest : newest (min wrapped.size (wrapped.avbs + 3)).toNat
      (content wrapped ++ message (7 + UInt8.ofNat ·) 3) = [1, 7, 8, 9] := by
    decide
  have h := overwriting_keeps_newest wrapped_ok (7 + UInt8.ofNat ·) 3 (by decide)
  rw [hnewest] at h
  exact h

/-! ## The preview -/

/-- The locals of `mbxevdrp` where those of `mbxget` are. -/
def Receiving.preview (s : Receiving T) : Previewing :=
  ⟨s.mbx.fbyte, s.mbx.avbs, s.msgSize, s.stored⟩

/-- **A PREVIEW FOR THE KERNEL** is a receive that leaves the mailbox alone, in
    every state. -/
theorem rtMbxEvdrp_kernel (fuel : Nat) (x : Mbx T) (msgSize : Int) :
    rtMbxEvdrp fuel x msgSize true =
      (mbxget fuel x msgSize).map fun r => (x, r.2.1, r.2.2) := by
  have hloop := @whileLoop_map (Receiving T) Previewing Receiving.gets
    Receiving.getPass Previewing.gets (Previewing.pass x true) Receiving.preview
    (fun s => s.mbx.size = x.size ∧ s.mbx.bufadr = x.bufadr)
    (fun _ _ => rfl)
    (by
      rintro s ⟨hsize, hbuf⟩
      have htocpy : s.mbx.tocpy .recv s.msgSize =
          let n := if x.size - s.mbx.fbyte > s.msgSize then s.msgSize
            else x.size - s.mbx.fbyte
          if n > s.mbx.avbs then s.mbx.avbs else n := by
        rw [← hsize]
        rfl
      have hmod : ∀ i, s.mbx.modSize i = x.modSize i := by
        intro i
        unfold Mbx.modSize
        rw [hsize]
      have hpass : Previewing.pass x true s.preview =
          match memcpyFrom s.mbx.bufadr s.mbx.fbyte (s.mbx.tocpy .recv s.msgSize) with
          | none => none
          | some bytes =>
            some ⟨x.modSize (s.mbx.fbyte + s.mbx.tocpy .recv s.msgSize),
              s.mbx.avbs - s.mbx.tocpy .recv s.msgSize,
              s.msgSize - s.mbx.tocpy .recv s.msgSize, s.stored ++ bytes⟩ := by
        rw [htocpy, hbuf]
        rfl
      rw [hpass]
      unfold Receiving.getPass
      dsimp only
      cases memcpyFrom s.mbx.bufadr s.mbx.fbyte (s.mbx.tocpy .recv s.msgSize) with
      | none => rfl
      | some bytes =>
        rw [← hmod]
        rfl)
    (by
      rintro s s' ⟨hsize, hbuf⟩ hpass
      unfold Receiving.getPass at hpass
      dsimp only at hpass
      split at hpass
      · exact nomatch hpass
      · obtain rfl := Option.some.inj hpass
        exact ⟨hsize, hbuf⟩)
    fuel ⟨x, msgSize, []⟩ ⟨rfl, rfl⟩
  unfold rtMbxEvdrp mbxget
  rw [show Previewing.mk x.fbyte x.avbs msgSize [] =
    (Receiving.mk x msgSize []).preview from rfl, hloop, Option.map_map,
    Option.map_map]
  rfl

/-- A receive that is alone with the mailbox ends. -/
theorem mbxget_total {x : Mbx T} (h : RingOk x) (msgSize : Int) :
    ∃ x' stored missing, ∀ fuel > msgSize.toNat,
      mbxget fuel x msgSize = some (x', stored, missing) := by
  have hstep : ∀ s : Receiving T, RingOk s.mbx → s.gets = true →
      ∃ s', s.getPass = some s' ∧ RingOk s'.mbx ∧ s'.msgSize.toNat < s.msgSize.toNat := by
    intro s hs htest
    obtain ⟨hm, hne⟩ := of_decide_eq_true htest
    obtain ⟨r, R⟩ := hs.represents
    obtain ⟨hpos, -, -, -⟩ := tocpy_bounds (x := s.mbx) (d := .recv) hm hs.avbs hne hs.fbyte.2
    obtain ⟨bytes, hcopy, R₁⟩ := R.getCopy hm hne
    obtain ⟨r₂, R₂, -⟩ := R₁.getCounters
    unfold Receiving.getPass
    dsimp only
    rw [hcopy]
    refine ⟨_, rfl, ringOk_of_represents R₂.getIndex, ?_⟩
    show (s.msgSize - _).toNat < _
    omega
  obtain ⟨s, hrun, -, -⟩ := @whileLoop_total _ _ _ _
    (fun s : Receiving T => s.msgSize.toNat) hstep ⟨x, msgSize, []⟩ h
    (msgSize.toNat + 1) (by exact Nat.lt_succ_self _)
  refine ⟨s.mbx, s.stored, s.msgSize, fun fuel hfuel => ?_⟩
  have hmore := whileLoop_mono (fun _ _ hb => hb) hfuel hrun
  unfold mbxget
  rw [hmore]
  rfl

/-- How many bytes are previewed behind the end of the buffer. -/
def around (x : Mbx T) (msgSize : Int) : Int :=
  min msgSize x.avbs - (x.size - x.fbyte)

/-- What is copied a second time is what is at the beginning of the buffer. -/
def Twin (x : Mbx T) (msgSize : Int) : Prop :=
  x.fbyte + around x msgSize ≤ x.size ∧ ∀ k : Nat, (k : Int) < around x msgSize →
      x.bufadr.getD (x.fbyte.toNat + k) 0 = x.bufadr.getD k 0

section Preview

variable {x : Mbx T} {m : Int} {space : Bool}

/-- A preview that does not go round is the same for both destinations. -/
theorem rtMbxEvdrp_straight (h : RingOk x) (hle : around x m ≤ 0) (fuel : Nat) :
    rtMbxEvdrp (fuel + 2) x m space = rtMbxEvdrp (fuel + 2) x m true := by
  have hf := h.fbyte
  have ha := h.avbs
  unfold around at hle
  have hloop : whileLoop Previewing.gets (Previewing.pass x space) (fuel + 2)
        ⟨x.fbyte, x.avbs, m, []⟩ =
      whileLoop Previewing.gets (Previewing.pass x true) (fuel + 2)
        ⟨x.fbyte, x.avbs, m, []⟩ := by
    have hsame : Previewing.pass x space ⟨x.fbyte, x.avbs, m, []⟩ =
        Previewing.pass x true ⟨x.fbyte, x.avbs, m, []⟩ := by
      cases space <;> rfl
    cases ht : Previewing.gets ⟨x.fbyte, x.avbs, m, []⟩ with
    | false => rw [whileLoop_of_false ht, whileLoop_of_false ht]
    | true =>
      obtain ⟨hm, hne⟩ := of_decide_eq_true ht
      cases hb : Previewing.pass x true ⟨x.fbyte, x.avbs, m, []⟩ with
      | none =>
        rw [whileLoop, whileLoop, ht, if_pos rfl, if_pos rfl, hsame, hb]
      | some s =>
        have hend : s.gets = false := by
          unfold Previewing.pass at hb
          dsimp only at hb hm hne
          split at hb
          · cases hb
          · obtain rfl := Option.some.inj hb
            refine decide_eq_false ?_
            dsimp only
            split_ifs <;> omega
        rw [whileLoop_of_true ht (hsame.trans hb), whileLoop_of_true ht hb,
          whileLoop_of_false hend, whileLoop_of_false hend]
  unfold rtMbxEvdrp
  rw [hloop]

/-- A preview that goes round. -/
theorem rtMbxEvdrp_around (h : RingOk x) (hlt : 0 < around x m) (fuel : Nat) :
    rtMbxEvdrp (fuel + 3) x m space =
      (memcpyFrom x.bufadr (if space then 0 else x.fbyte) (around x m)).map
        fun bytes => (x, segment x.bufadr x.fbyte.toNat (x.size - x.fbyte).toNat ++
          bytes, m - min m x.avbs) := by
  have hf := h.fbyte
  have hsum := h.sum
  have hfr := h.frbs
  have hbuf := h.bufadr
  unfold around at hlt ⊢
  have htest : Previewing.gets ⟨x.fbyte, x.avbs, m, []⟩ = true := by
    refine decide_eq_true ?_
    dsimp only
    omega
  have hfirst : Previewing.pass x space ⟨x.fbyte, x.avbs, m, []⟩ =
      some ⟨0, x.avbs - (x.size - x.fbyte), m - (x.size - x.fbyte),
        segment x.bufadr x.fbyte.toNat (x.size - x.fbyte).toNat⟩ := by
    have hsrc : (if space then x.fbyte else x.fbyte) = x.fbyte := ite_self _
    unfold Previewing.pass
    dsimp only
    rw [hsrc, if_neg (c := x.size - x.fbyte > m) (by omega),
      if_neg (c := x.size - x.fbyte > x.avbs) (by omega)]
    unfold memcpyFrom
    rw [if_pos (by omega)]
    have hmod : x.modSize (x.fbyte + (x.size - x.fbyte)) = 0 := by
      unfold Mbx.modSize
      rw [if_neg (by omega)]
      omega
    rw [hmod]
    rfl
  have htest' : Previewing.gets ⟨0, x.avbs - (x.size - x.fbyte), m - (x.size - x.fbyte),
      segment x.bufadr x.fbyte.toNat (x.size - x.fbyte).toNat⟩ = true := by
    refine decide_eq_true ?_
    dsimp only
    omega
  have hcount : (let n := if x.size - 0 > m - (x.size - x.fbyte) then
        m - (x.size - x.fbyte) else x.size - 0
      if n > x.avbs - (x.size - x.fbyte) then x.avbs - (x.size - x.fbyte) else n) =
      min m x.avbs - (x.size - x.fbyte) := by
    dsimp only
    split_ifs <;> omega
  unfold rtMbxEvdrp
  rw [whileLoop_of_true htest hfirst]
  unfold whileLoop
  rw [htest', if_pos rfl]
  unfold Previewing.pass
  dsimp only at hcount ⊢
  rw [hcount]
  cases memcpyFrom x.bufadr (if space then 0 else x.fbyte)
      (min m x.avbs - (x.size - x.fbyte)) with
  | none => rfl
  | some bytes =>
    dsimp only
    rw [whileLoop_of_false]
    · simp only [Option.map_some]
      rw [show m - (x.size - x.fbyte) - (min m x.avbs - (x.size - x.fbyte)) =
        m - min m x.avbs by omega]
    · refine decide_eq_false ?_
      dsimp only
      omega

/-- The second copy is right. -/
theorem twin_iff (h : RingOk x) (hlt : 0 < around x m) :
    memcpyFrom x.bufadr x.fbyte (around x m) = memcpyFrom x.bufadr 0 (around x m) ↔
      Twin x m := by
  have hf := h.fbyte
  have hsum := h.sum
  have hfr := h.frbs
  have hbuf := h.bufadr
  have hfits : around x m ≤ x.size := by
    unfold around
    omega
  unfold Twin memcpyFrom
  generalize around x m = n at hlt hfits ⊢
  rw [if_pos (c := 0 ≤ (0 : Int) ∧ _) (by omega)]
  by_cases hin : x.fbyte + n ≤ x.size
  · rw [if_pos (by omega)]
    have hl1 : (segment x.bufadr x.fbyte.toNat n.toNat).length = n.toNat :=
      length_segment (by omega)
    have hl2 : (segment x.bufadr (0 : Int).toNat n.toNat).length = n.toNat :=
      length_segment (by omega)
    constructor
    · intro heq
      refine ⟨hin, fun k hk => ?_⟩
      have hk' := congrArg (fun l : List UInt8 => l.getD k 0) (Option.some.inj heq)
      rw [List.getD_eq_getElem _ _ (by omega), List.getD_eq_getElem _ _ (by omega)] at hk'
      simp only [RtaiCircular.segment, List.getElem_take, List.getElem_drop] at hk'
      rw [List.getD_eq_getElem _ _ (by omega), List.getD_eq_getElem _ _ (by omega), hk']
      simp
    · rintro ⟨-, htwin⟩
      refine congrArg some (List.ext_getElem (hl1.trans hl2.symm) ?_)
      intro k hk1 hk2
      rw [hl1] at hk1
      have hk := htwin k (by omega)
      rw [List.getD_eq_getElem _ _ (by omega), List.getD_eq_getElem _ _ (by omega)] at hk
      simp only [RtaiCircular.segment, List.getElem_take, List.getElem_drop]
      rw [hk]
      simp
  · rw [if_neg (by omega)]
    constructor
    · intro heq
      cases heq
    · rintro ⟨hle, -⟩
      exact absurd hle hin

/-- **A PREVIEW SHOWS THE NEXT RECEIVE** if and only if it is for the kernel,
    or does not go round, or the bytes it takes the second time are the right
    ones by chance. -/
theorem preview_iff (h : RingOk x) (msgSize : Int) (space : Bool) :
    (∃ enough, ∀ fuel ≥ enough, ∃ x' stored missing,
      mbxget fuel x msgSize = some (x', stored, missing) ∧
        rtMbxEvdrp fuel x msgSize space = some (x, stored, missing)) ↔
      space = true ∨ around x msgSize ≤ 0 ∨ Twin x msgSize := by
  constructor
  · rintro ⟨enough, hall⟩
    obtain ⟨x', stored, missing, hget, hview⟩ := hall (enough + 3) (by omega)
    by_cases hspace : space = true
    · exact .inl hspace
    by_cases hle : around x msgSize ≤ 0
    · exact .inr (.inl hle)
    have hlt : 0 < around x msgSize := by omega
    have hkernel := rtMbxEvdrp_kernel (enough + 3) x msgSize
    rw [hget, rtMbxEvdrp_around h hlt, if_pos rfl] at hkernel
    rw [rtMbxEvdrp_around h hlt, if_neg hspace] at hview
    refine .inr (.inr ((twin_iff h hlt).mp ?_))
    cases hto : memcpyFrom x.bufadr x.fbyte (around x msgSize) with
    | none =>
      rw [hto] at hview
      exact nomatch hview
    | some bytes =>
      cases hfrom : memcpyFrom x.bufadr 0 (around x msgSize) with
      | none =>
        rw [hfrom] at hkernel
        exact nomatch hkernel
      | some right =>
        rw [hto] at hview
        rw [hfrom] at hkernel
        have hsame := (Option.some.inj hview).trans (Option.some.inj hkernel).symm
        rw [List.append_cancel_left (Prod.mk.inj (Prod.mk.inj hsame).2).1]
  · intro hcond
    obtain ⟨x', stored, missing, hget⟩ := mbxget_total h msgSize
    refine ⟨msgSize.toNat + 3, fun fuel hfuel => ?_⟩
    obtain ⟨more, rfl⟩ := Nat.exists_eq_add_of_le' (show 3 ≤ fuel by omega)
    have hrun := hget (more + 3) (by omega)
    have hkernel := rtMbxEvdrp_kernel (more + 3) x msgSize
    rw [hrun] at hkernel
    have hsame : rtMbxEvdrp (more + 3) x msgSize space =
        rtMbxEvdrp (more + 3) x msgSize true := by
      by_cases hle : around x msgSize ≤ 0
      · exact rtMbxEvdrp_straight h hle (more + 1)
      · have hlt : 0 < around x msgSize := by omega
        rw [rtMbxEvdrp_around h hlt, rtMbxEvdrp_around h hlt, if_pos rfl]
        rcases hcond with rfl | hle' | htwin
        · rfl
        · exact absurd hle' hle
        · cases space with
          | true => rfl
          | false => rw [if_neg Bool.false_ne_true, (twin_iff h hlt).mpr htwin]
    exact ⟨x', stored, missing, hrun, hsame.trans hkernel⟩

end Preview

/-- A receive that does not go round is previewed for user space. -/
theorem preview_iff_wrapped : ∃ enough, ∀ fuel ≥ enough, ∃ x' stored missing,
      mbxget fuel wrapped 2 = some (x', stored, missing) ∧
        rtMbxEvdrp fuel wrapped 2 false = some (wrapped, stored, missing) :=
  (preview_iff wrapped_ok 2 false).mpr (.inr (.inl (by decide)))

/-- The user is shown the third byte twice, and never the first one. -/
theorem preview_for_user_wrong : RingOk wrapped ∧ ∀ fuel,
      (mbxget (fuel + 3) wrapped 3).map (·.2) = some ([3, 4, 1], 0) ∧
        (rtMbxEvdrp (fuel + 3) wrapped 3 false).map (·.2) = some ([3, 4, 3], 0) :=
  ⟨wrapped_ok, fun _ => ⟨rfl, rfl⟩⟩

end RtaiMbxCopies
