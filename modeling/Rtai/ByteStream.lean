import Rtai.Mailbox
import Rtai.Runs

/-! # The byte stream of a mailbox

    Seen through its counters and indexes, a mailbox is a circular buffer that
    one sender fills and one receiver drains, each by passes of three sections.
    Between the sections of a pass an index is behind the counters, so the
    buffer is read off the mailbox together with what the two calls inside its
    semaphores are doing. -/

namespace RtaiByteStream

open RtaiCircular RtaiMailbox RtaiRuns
open RtaiKernel (Ret)

/-- What is left to do of the pass a call is in. -/
inductive Transfer where
  | none
  /-- Bytes have been copied. -/
  | counters (tocpy : Int) (bytes : List UInt8)
  /-- They have been counted. -/
  | index (tocpy : Int)

/-! ## One mailbox -/

section Buffer

variable {T : Type} {x : Mbx T} {put get : Transfer} {r : RingBuffer UInt8}

/-- `lbyte` and the pass of the sender. -/
def Putting (lbyte : Int) (r : RingBuffer UInt8) : Transfer → Prop
  | .none => lbyte = r.last
  | .counters n bytes =>
    lbyte = r.last ∧ n = bytes.length ∧ r.last + bytes.length ≤ r.buf.length ∧
      r.used + bytes.length ≤ r.buf.length ∧
      segment r.buf r.last bytes.length = bytes
  | .index n => ∃ i k : Nat, lbyte = i ∧ n = k ∧ i + k ≤ r.buf.length ∧
      r.last = wrap r.buf.length (i + k)

/-- `fbyte` and the pass of the receiver. -/
def Getting (fbyte : Int) (r : RingBuffer UInt8) : Transfer → Prop
  | .none => fbyte = r.first
  | .counters n bytes =>
    fbyte = r.first ∧ n = bytes.length ∧
      r.first + bytes.length ≤ r.buf.length ∧ bytes.length ≤ r.used ∧
      bytes = r.contents.take bytes.length
  | .index n => ∃ i k : Nat, fbyte = i ∧ n = k ∧ i + k ≤ r.buf.length ∧
      r.first = wrap r.buf.length (i + k)

/-- **THE MAILBOX IS A CIRCULAR BUFFER**: its counters are those of the ring,
    and its indexes too, but for the passes under way. -/
structure Represents (x : Mbx T) (put get : Transfer) (r : RingBuffer UInt8) :
    Prop where
  size : x.size = r.buf.length
  bufadr : x.bufadr = r.buf
  avbs : x.avbs = r.used
  frbs : x.frbs = r.buf.length - r.used
  put : Putting x.lbyte r put
  get : Getting x.fbyte r get

/-- What a pass copies fits before the end of the buffer and in the room. -/
theorem tocpy_bounds {d : Side} {msgSize : Int} (hm : 0 < msgSize)
    (hroom : 0 ≤ x.fravbs d) (hne : x.fravbs d ≠ 0)
    (hb : x.byte d < x.size) :
    0 < x.tocpy d msgSize ∧ x.tocpy d msgSize ≤ msgSize ∧
      x.byte d + x.tocpy d msgSize ≤ x.size ∧
      x.tocpy d msgSize ≤ x.fravbs d := by
  simp only [Mbx.tocpy]
  split <;> split <;> omega

/-- **THE COPY OF A SEND** stays inside the buffer and touches no byte that is
    in the mailbox. -/
theorem Represents.putCopy (R : Represents x .none get r) {msgSize : Int}
    (hm : 0 < msgSize) (hne : x.frbs ≠ 0) (msg : Nat → UInt8) :
    ∃ buf r', memcpyTo x.bufadr x.lbyte (x.tocpy .send msgSize) msg = some buf ∧
      Represents { x with bufadr := buf } (.counters (x.tocpy .send msgSize)
          ((List.range (x.tocpy .send msgSize).toNat).map msg)) get r' ∧
      r'.contents = r.contents := by
  have hl : x.lbyte = r.last := R.put
  have hlt := r.last_lt
  have hle := r.used_le
  have hs := R.size
  have hf := R.frbs
  obtain ⟨hpos, -, hend, hfree⟩ := tocpy_bounds (x := x) (d := .send) hm
    (show (0 : Int) ≤ x.frbs by omega) hne (show x.lbyte < x.size by omega)
  generalize x.tocpy .send msgSize = n at hpos hend hfree ⊢
  obtain ⟨k, rfl⟩ := Int.eq_ofNat_of_zero_le hpos.le
  have hend' : x.lbyte + k ≤ x.size := hend
  have hfree' : (k : Int) ≤ x.frbs := hfree
  have hlen : ((List.range k).map msg).length = k := by simp
  have hfit : r.last + ((List.range k).map msg).length ≤ r.buf.length := by
    omega
  refine ⟨store r.buf r.last ((List.range k).map msg), r.write _ hfit, ?_,
    ⟨?_, rfl, R.avbs, ?_, ⟨?_, ?_, ?_, ?_, ?_⟩, ?_⟩,
    r.contents_write hfit (by omega)⟩
  · simp only [memcpyTo, Int.toNat_natCast]
    rw [if_pos ⟨by omega, by omega, by rw [R.bufadr]; omega⟩, R.bufadr, hl, Int.toNat_natCast]
  · rw [hs]
    exact congrArg Nat.cast (length_store hfit).symm
  · rw [hf]
    exact congrArg (fun l : Nat => (l : Int) - r.used) (length_store hfit).symm
  · rw [r.last_write hfit]
    exact hl
  · simp
  · show (r.write _ hfit).last + _ ≤ (store _ _ _).length
    rw [r.last_write hfit, length_store hfit, Int.toNat_natCast]
    exact hfit
  · show r.used + _ ≤ (store _ _ _).length
    rw [length_store hfit, Int.toNat_natCast]
    omega
  · rw [r.last_write hfit, Int.toNat_natCast]
    exact segment_store hfit
  · -- the receiver sees the same ring but for the free cells
    have hg := R.get
    have hc := r.contents_write hfit (by omega)
    cases get with
    | none => exact hg
    | counters n bytes =>
      show _ ∧ _ ∧ _ + _ ≤ (store _ _ _).length ∧ _ ∧ _
      rw [length_store hfit, hc]
      exact hg
    | index n =>
      show ∃ i k : Nat, _ ∧ _ ∧ _ ≤ (store _ _ _).length ∧
        _ = wrap (store _ _ _).length _
      rw [length_store hfit]
      exact hg

/-- **THE COUNTERS OF A SEND** append the bytes that were copied. -/
theorem Represents.putCounters {n : Int} {bytes : List UInt8}
    (R : Represents x (.counters n bytes) get r) :
    ∃ r', Represents (x.fill n) (.index n) get r' ∧ r'.contents = r.contents ++ bytes := by
  obtain ⟨hl, rfl, hfit, hfree, hseg⟩ := R.put
  refine ⟨r.push _ hfree, ⟨R.size, R.bufadr, ?_, ?_, ?_, ?_⟩, ?_⟩
  · show x.avbs + _ = ((r.used + _ : Nat) : Int)
    rw [R.avbs]
    omega
  · show x.frbs - _ = (r.buf.length : Int) - ((r.used + _ : Nat) : Int)
    rw [R.frbs]
    omega
  · exact ⟨r.last, _, hl, rfl, hfit, r.last_push hfit hfree⟩
  · have hg := R.get
    have hc := r.contents_push hfit hfree
    cases get with
    | none => exact hg
    | counters n b =>
      obtain ⟨h1, h2, h3, h4, h5⟩ := hg
      refine ⟨h1, h2, h3, Nat.le_add_right_of_le h4, ?_⟩
      rw [hc, List.take_append_of_le_length (by rw [r.length_contents]; exact h4)]
      exact h5
    | index n => exact hg
  · rw [r.contents_push hfit hfree, hseg]

theorem modSize_eq (R : Represents x put get r) (i k : Nat) :
    x.modSize ((i : Int) + k) = (wrap r.buf.length (i + k) : Nat) ∨ r.buf.length < i + k := by
  have hs := R.size
  simp only [Mbx.modSize, wrap]
  split_ifs <;> omega

/-- **THE INDEX OF A SEND** catches up. -/
theorem Represents.putIndex {n : Int} (R : Represents x (.index n) get r) :
    Represents (x.advance .send n) .none get r := by
  obtain ⟨i, k, hi, rfl, hle, hlast⟩ := R.put
  refine ⟨R.size, R.bufadr, R.avbs, R.frbs, ?_, R.get⟩
  show x.modSize (x.lbyte + k) = r.last
  rw [hi, hlast]
  exact (modSize_eq R i k).resolve_right (by omega)

/-- **THE COPY OF A RECEIVE** stays inside the buffer and takes the first bytes
    of the mailbox. -/
theorem Represents.getCopy (R : Represents x put .none r) {msgSize : Int}
    (hm : 0 < msgSize) (hne : x.avbs ≠ 0) :
    ∃ bytes, memcpyFrom x.bufadr x.fbyte (x.tocpy .recv msgSize) = some bytes ∧
      Represents x put (.counters (x.tocpy .recv msgSize) bytes) r := by
  have hl : x.fbyte = r.first := R.get
  have hlt := r.first_lt
  have hle := r.used_le
  have hs := R.size
  have ha := R.avbs
  obtain ⟨hpos, -, hend, hused⟩ := tocpy_bounds (x := x) (d := .recv) hm
    (show (0 : Int) ≤ x.avbs by omega) hne (show x.fbyte < x.size by omega)
  generalize x.tocpy .recv msgSize = n at hpos hend hused ⊢
  obtain ⟨k, rfl⟩ := Int.eq_ofNat_of_zero_le hpos.le
  have hend' : x.fbyte + k ≤ x.size := hend
  have hused' : (k : Int) ≤ x.avbs := hused
  have hlen : (segment r.buf r.first k).length = k :=
    length_segment (by omega)
  refine ⟨segment r.buf r.first k, ?_, R.size, R.bufadr, R.avbs, R.frbs, R.put,
    hl, ?_, ?_, ?_, ?_⟩
  · simp only [memcpyFrom]
    rw [if_pos ⟨by omega, by omega, by rw [R.bufadr]; omega⟩, R.bufadr, hl,
      Int.toNat_natCast, Int.toNat_natCast]
  · rw [hlen]
  · omega
  · omega
  · rw [hlen]
    exact (r.take_contents (by omega) (by omega)).symm

/-- **THE COUNTERS OF A RECEIVE** remove the bytes that were copied. -/
theorem Represents.getCounters {n : Int} {bytes : List UInt8}
    (R : Represents x put (.counters n bytes) r) :
    ∃ r', Represents (x.drain n) put (.index n) r' ∧ r.contents = bytes ++ r'.contents := by
  obtain ⟨hf, rfl, hfit, hused, htake⟩ := R.get
  have hle := r.used_le
  refine ⟨r.pop _ hused, ⟨R.size, R.bufadr, ?_, ?_, ?_, ?_⟩, ?_⟩
  · show x.avbs - _ = ((r.used - _ : Nat) : Int)
    rw [R.avbs]
    omega
  · show x.frbs + _ = (r.buf.length : Int) - ((r.used - _ : Nat) : Int)
    rw [R.frbs]
    omega
  · have hp := R.put
    have hlast := r.last_pop hused
    cases put with
    | none =>
      show x.lbyte = _
      rw [hlast]
      exact hp
    | counters n b =>
      obtain ⟨h1, h2, h3, h4, h5⟩ := hp
      show x.lbyte = _ ∧ _
      rw [hlast]
      refine ⟨h1, h2, h3, ?_, h5⟩
      show r.used - _ + _ ≤ _
      exact le_trans (by omega) h4
    | index n =>
      show ∃ i k : Nat, _
      rw [hlast]
      exact hp
  · exact ⟨r.first, _, hf, rfl, hfit, rfl⟩
  · rw [r.contents_pop hfit hused]
    conv_lhs => rw [← List.take_append_drop bytes.length r.contents]
    rw [← htake]

/-- **THE INDEX OF A RECEIVE** catches up. -/
theorem Represents.getIndex {n : Int} (R : Represents x put (.index n) r) :
    Represents (x.advance .recv n) put .none r := by
  obtain ⟨i, k, hi, rfl, hle, hfirst⟩ := R.get
  refine ⟨R.size, R.bufadr, R.avbs, R.frbs, R.put, ?_⟩
  show x.modSize (x.fbyte + k) = r.first
  rw [hi, hfirst]
  exact (modSize_eq R i k).resolve_right (by omega)

end Buffer

/-! ## What a system looks like to its byte streams -/

variable {T M : Type} [decT : DecidableEq T] [decM : DecidableEq M]

/-- What a call is doing inside a semaphore. -/
def progress : Pc T M → Transfer
  | .call _ (.counters n bytes) => .counters n bytes
  | .call _ (.index n) => .index n
  | _ => .none

/-- The semaphore a call is inside. -/
def role : Pc T M → Option (M × Side)
  | .call _ .semWait => none
  | .call _ (.wakeup _ _ _) => none
  | .call c _ => some (c.mbx, c.side)
  | _ => none

/-- A mailbox without its sleepers. -/
def bare (x : Mbx T) : Mbx T :=
  { x with waitingTask := none, pollq := fun _ => [] }

/-- The mailboxes, and who is doing what in them. -/
@[ext]
structure Shape (T M : Type) where
  mbx : M → Mbx T
  role : T → Option (M × Side)
  progress : T → Transfer
  wild : Bool

/-- A state without its queues. -/
def shape (s : St T M) : Shape T M where
  mbx := fun m => bare (s.mbx m)
  role := fun t => role (s.pc t)
  progress := fun t => progress (s.pc t)
  wild := s.wild

/-- What the task inside a semaphore is doing. -/
def Shape.transfer (g : Shape T M) (m : M) (side : Side) : Transfer :=
  match (g.mbx m).sem side with
  | none => .none
  | some t => g.progress t

/-- A task goes from one section of a pass to the next. -/
def Shape.pass (g : Shape T M) (t : T) (m : M) (x : Mbx T) (p : Transfer) :
    Shape T M :=
  { g with mbx := Function.update g.mbx m x
           progress := Function.update g.progress t p }

/-- **THE MOVES OF A SHAPE**: a task goes into or out of a semaphore, or does
    one section of a pass. -/
inductive Move (g : Shape T M) : Event T M → Shape T M → Prop where
  | stay : Move g .silent g
  | returned (t : T) (r : Ret T) : Move g (.returned t r) g
  | enter (t : T) (m : M) (side : Side) (hr : g.role t = none)
      (hs : (g.mbx m).sem side = none) (hp : g.progress t = .none) :
      Move g .silent
        { g with mbx := Function.update g.mbx m ((g.mbx m).setSem side (some t))
                 role := Function.update g.role t (some (m, side)) }
  | leave (t : T) (m : M) (side : Side) (e : Event T M)
      (he : e = .silent ∨ ∃ r, e = .returned t r)
      (hr : g.role t = some (m, side)) (hp : g.progress t = .none) :
      Move g e
        { g with mbx := Function.update g.mbx m ((g.mbx m).setSem side none)
                 role := Function.update g.role t none }
  | putCopy (t : T) (m : M) (msg : Nat → UInt8) (msgSize : Int) (n : Int)
      (buf : List UInt8) (hr : g.role t = some (m, .send))
      (hp : g.progress t = .none) (hm : 0 < msgSize) (hne : (g.mbx m).frbs ≠ 0)
      (hn : n = (g.mbx m).tocpy .send msgSize)
      (hc : memcpyTo (g.mbx m).bufadr (g.mbx m).lbyte n msg = some buf) :
      Move g .silent (g.pass t m { g.mbx m with bufadr := buf }
        (.counters n ((List.range n.toNat).map msg)))
  | putWild (t : T) (m : M) (msg : Nat → UInt8) (msgSize : Int)
      (hr : g.role t = some (m, .send)) (hp : g.progress t = .none)
      (hm : 0 < msgSize) (hne : (g.mbx m).frbs ≠ 0)
      (hc : memcpyTo (g.mbx m).bufadr (g.mbx m).lbyte
        ((g.mbx m).tocpy .send msgSize) msg = none) :
      Move g .silent { g with wild := true }
  | getCopy (t : T) (m : M) (msgSize : Int) (n : Int) (bytes : List UInt8)
      (hr : g.role t = some (m, .recv)) (hp : g.progress t = .none)
      (hm : 0 < msgSize) (hne : (g.mbx m).avbs ≠ 0)
      (hn : n = (g.mbx m).tocpy .recv msgSize)
      (hc : memcpyFrom (g.mbx m).bufadr (g.mbx m).fbyte n = some bytes) :
      Move g .silent (g.pass t m (g.mbx m) (.counters n bytes))
  | getWild (t : T) (m : M) (msgSize : Int)
      (hr : g.role t = some (m, .recv)) (hp : g.progress t = .none)
      (hm : 0 < msgSize) (hne : (g.mbx m).avbs ≠ 0)
      (hc : memcpyFrom (g.mbx m).bufadr (g.mbx m).fbyte
        ((g.mbx m).tocpy .recv msgSize) = none) :
      Move g .silent { g with wild := true }
  | putCounters (t : T) (m : M) (n : Int) (bytes : List UInt8)
      (hr : g.role t = some (m, .send)) (hp : g.progress t = .counters n bytes) :
      Move g (.accepted m bytes) (g.pass t m ((g.mbx m).fill n) (.index n))
  | getCounters (t : T) (m : M) (n : Int) (bytes : List UInt8)
      (hr : g.role t = some (m, .recv)) (hp : g.progress t = .counters n bytes) :
      Move g (.delivered m bytes) (g.pass t m ((g.mbx m).drain n) (.index n))
  | index (t : T) (m : M) (side : Side) (n : Int)
      (hr : g.role t = some (m, side)) (hp : g.progress t = .index n) :
      Move g .silent (g.pass t m ((g.mbx m).advance side n) .none)

/-! ## Every section is a move -/

section Moves

variable {s : St T M} {t : T} {c : Call M}

omit decM in
/-- Where a task goes. -/
theorem shape_moves (pc : Pc T M) : shape (s.goto t pc) =
      { shape s with
        role := Function.update (shape s).role t (role pc)
        progress := Function.update (shape s).progress t (progress pc) } := by
  ext1
  · rfl
  · exact Function.comp_update role s.pc t pc
  · exact Function.comp_update progress s.pc t pc
  · rfl

omit decT in
/-- What becomes of a mailbox. -/
theorem shape_becomes (m : M) (x : Mbx T) : shape (s.setMbx m x) =
      { shape s with mbx := Function.update (shape s).mbx m (bare x) } := by
  ext1
  · exact Function.comp_update bare s.mbx m x
  · rfl
  · rfl
  · rfl

omit decM in
theorem role_stays {pc₀ : Pc T M} (hpc : s.pc t = pc₀) :
    Function.update (shape s).role t (role pc₀) = (shape s).role :=
  Function.update_eq_self_iff.mpr (congrArg role hpc).symm

omit decM in
theorem progress_stays {pc₀ : Pc T M} (hpc : s.pc t = pc₀) :
    Function.update (shape s).progress t (progress pc₀) = (shape s).progress :=
  Function.update_eq_self_iff.mpr (congrArg progress hpc).symm

/-- A section that leaves a task inside the semaphore it was in, and outside
    any pass. -/
theorem shape_goto {s' : St T M} (hs : shape s' = shape s) {pc₀ : Pc T M}
    (hpc : s.pc t = pc₀) (pc : Pc T M) (hr : role pc = role pc₀)
    (hp : progress pc = progress pc₀) : shape (s'.goto t pc) = shape s := by
  rw [shape_moves, hs, hr, hp, role_stays hpc, progress_stays hpc]

theorem shape_same {m : M} {x : Mbx T} (hx : bare x = bare (s.mbx m)) :
    shape (s.setMbx m x) = shape s := by
  rw [shape_becomes, hx]
  ext1
  · exact Function.update_eq_self m (shape s).mbx
  · rfl
  · rfl
  · rfl

/-- Who sleeps or polls at a mailbox does not show. -/
theorem shape_waiting (s : St T M) (m : M) (w : Option T) :
    shape (s.setMbx m { s.mbx m with waitingTask := w }) = shape s :=
  shape_same (bare.eq_1 _)

theorem shape_pollq (s : St T M) (m : M) (side : Side) (l : List (T × Nat)) :
    shape (s.setMbx m ((s.mbx m).setPollq side l)) = shape s :=
  shape_same (bare.eq_1 _)

omit decM in
@[simp] theorem shape_block (b : Blocked) : shape (s.block t b) = shape s := rfl

omit decT decM in
@[simp] theorem role_ready (pc : Pc T M) : role pc.readyMbx = role pc := by
  cases pc with
  | call c st => cases st <;> rfl
  | _ => rfl

omit decT decM in
@[simp] theorem progress_ready (pc : Pc T M) : progress pc.readyMbx = progress pc := by
  cases pc with
  | call c st => cases st <;> rfl
  | _ => rfl

omit decT decM in
@[simp] theorem role_readyPoll (pc : Pc T M) : role pc.readyPoll = role pc := by
  cases pc with
  | poll p st => cases st <;> rfl
  | _ => rfl

omit decT decM in
@[simp] theorem progress_readyPoll (pc : Pc T M) : progress pc.readyPoll = progress pc := by
  cases pc with
  | poll p st => cases st <;> rfl
  | _ => rfl

/-- A section of a pass. -/
theorem shape_pass {m : M} {x : Mbx T} {pc₀ : Pc T M} (hpc : s.pc t = pc₀)
    (pc : Pc T M) (hr : role pc = role pc₀) :
    shape ((s.setMbx m x).goto t pc) = (shape s).pass t m (bare x) (progress pc) := by
  rw [shape_moves, shape_becomes, hr]
  ext1
  · rfl
  · exact role_stays hpc
  · rfl
  · rfl

/-- A section that takes a task into or out of a semaphore. -/
theorem shape_seat {m : M} {side : Side} {o : Option T} {pc₀ : Pc T M}
    (hpc : s.pc t = pc₀) (pc : Pc T M) (hp : progress pc = progress pc₀) :
    shape ((s.setMbx m ((s.mbx m).setSem side o)).goto t pc) =
      { shape s with
        mbx := Function.update (shape s).mbx m (((shape s).mbx m).setSem side o)
        role := Function.update (shape s).role t (role pc) } := by
  rw [shape_moves, shape_becomes, hp]
  ext1
  · rfl
  · rfl
  · exact progress_stays hpc
  · rfl

/-- A call that is not `_rt_mbx_ovrwr_send`. -/
def Plain : Pc T M → Prop
  | .call _ .drop => False
  | .call _ (.dropCounters _) => False
  | .call _ (.dropIndex _) => False
  | .call c _ => c.mode ≠ .ovrwr
  | _ => True

theorem enter_move {pc₀ : Pc T M} (hpc : s.pc t = pc₀) (hr : role pc₀ = none)
    (hp : progress pc₀ = .none) (hs : (s.mbx c.mbx).sem c.side = none)
    {st : Stage T} (hin : role (.call c st : Pc T M) = some (c.mbx, c.side))
    (hst : progress (.call c st : Pc T M) = .none) :
    Move (shape s) .silent (shape (enter s t c st)) := by
  show Move _ _ (shape ((s.setMbx _ _).goto t _))
  rw [shape_seat hpc _ (hst.trans hp.symm), hin]
  exact .enter t c.mbx c.side ((congrArg role hpc).trans hr) hs
    ((congrArg progress hpc).trans hp)

theorem tryCall_move (hpc : s.pc t = .idle) (able : Bool) :
    Move (shape s) (tryCall s t c able).2 (shape (tryCall s t c able).1) := by
  simp only [tryCall]
  split
  case isTrue h => exact enter_move hpc rfl rfl h.1 rfl rfl
  case isFalse => exact .returned t _

theorem waitCall_move (hpc : s.pc t = .idle) :
    Move (shape s) (waitCall s t c).2 (shape (waitCall s t c).1) := by
  show Move _ .silent (shape (s.goto t _))
  rw [shape_goto rfl hpc (.call c .semWait) rfl rfl]
  exact .stay

/-- `mbx_wait` keeps a call inside the semaphore. -/
theorem mbxWait_shape (hpc : s.pc t = .call c .loop) : shape (mbxWait s t c) = shape s := by
  simp only [mbxWait]
  split
  · split
    · split
      · exact shape_goto (shape_waiting { s with resumeTime := _ } _ _)
          hpc (.call c (.asleep true)) rfl rfl
      · exact shape_goto (shape_waiting { s with resumeTime := _ } _ _)
          hpc (.call c (.semSignal (some .timout))) rfl rfl
    · exact shape_goto (shape_waiting s _ _) hpc (.call c (.asleep false)) rfl rfl
  · exact shape_goto rfl hpc (.call c .copy) rfl rfl

theorem mbxWaitTail_shape (hpc : s.pc t = .call c .woken) :
    shape (mbxWaitTail s t c) = shape s := by
  simp only [mbxWaitTail]
  split
  case h_1 => exact shape_goto rfl hpc (.call c .copy) rfl rfl
  case h_2 r _ =>
    exact shape_goto (shape_waiting s _ _) hpc (.call c (.semSignal (some r))) rfl rfl

theorem mbxSignal_shape (m : M) : shape (mbxSignal s m) = shape s := by
  simp only [mbxSignal]
  split
  case h_1 => rfl
  case h_2 u _ =>
    exact shape_goto (shape_waiting s _ _) rfl (s.pc u).readyMbx
      (role_ready _) (progress_ready _)

theorem mbxputCopy_move (hpc : s.pc t = .call c .copy) (hside : c.side = .send)
    (hm : 0 < c.msgSize) (hne : (s.mbx c.mbx).frbs ≠ 0) :
    Move (shape s) .silent (shape (mbxputCopy s t c)) := by
  have hr : (shape s).role t = some (c.mbx, .send) :=
    (congrArg role hpc).trans (congrArg (fun x => some (c.mbx, x)) hside)
  have hp : (shape s).progress t = .none := congrArg progress hpc
  simp only [mbxputCopy]
  split
  case h_1 hc => exact .putWild t c.mbx c.msg c.msgSize hr hp hm hne hc
  case h_2 buf hc =>
    rw [shape_pass hpc (.call c (.counters _ _)) rfl]
    exact .putCopy t c.mbx c.msg c.msgSize _ buf hr hp hm hne rfl hc

theorem mbxgetCopy_move (hpc : s.pc t = .call c .copy) (hside : c.side = .recv)
    (hm : 0 < c.msgSize) (hne : (s.mbx c.mbx).avbs ≠ 0) :
    Move (shape s) .silent (shape (mbxgetCopy s t c)) := by
  have hr : (shape s).role t = some (c.mbx, .recv) :=
    (congrArg role hpc).trans (congrArg (fun x => some (c.mbx, x)) hside)
  have hp : (shape s).progress t = .none := congrArg progress hpc
  simp only [mbxgetCopy]
  split
  case h_1 hc => exact .getWild t c.mbx c.msgSize hr hp hm hne hc
  case h_2 bytes hc =>
    have hset : (s.setMbx c.mbx (s.mbx c.mbx)) = s := by
      simp [St.setMbx]
    rw [← hset, shape_pass hpc (.call c (.counters _ _)) rfl, hset]
    exact .getCopy t c.mbx c.msgSize _ bytes hr hp hm hne rfl hc

theorem copy_move (hpc : s.pc t = .call c .copy) (hplain : c.mode ≠ .ovrwr) :
    Move (shape s) .silent (shape (copy s t c)) := by
  have hstay : Move (shape s) .silent (shape (s.goto t (.call c .mbxSignal))) := by
    rw [shape_goto rfl hpc (.call c .mbxSignal) rfl rfl]
    exact .stay
  simp only [copy]
  split
  case h_1 h => exact absurd h hplain
  case h_2 hside _ =>
    split
    case isTrue h => exact mbxputCopy_move hpc hside h.1 h.2
    case isFalse => exact hstay
  case h_3 hside =>
    split
    case isTrue h => exact mbxgetCopy_move hpc hside h.1 h.2
    case isFalse => exact hstay

theorem counters_move {n : Int} {bytes : List UInt8}
    (hpc : s.pc t = .call c (.counters n bytes)) :
    Move (shape s) (counters s t c n bytes).2 (shape (counters s t c n bytes).1) := by
  have hr : (shape s).role t = some (c.mbx, c.side) := congrArg role hpc
  have hp : (shape s).progress t = .counters n bytes := congrArg progress hpc
  simp only [counters]
  split
  case h_1 hside =>
    rw [hside] at hr
    rw [shape_pass hpc (.call (c.advance n) (.index n)) rfl]
    exact .putCounters t c.mbx n bytes hr hp
  case h_2 hside =>
    rw [hside] at hr
    rw [shape_pass hpc (.call (c.advance n) (.index n)) rfl]
    exact .getCounters t c.mbx n bytes hr hp

omit decT in
theorem bare_advance (x : Mbx T) (side : Side) (n : Int) :
    bare (x.advance side n) = (bare x).advance side n := by
  cases side <;> rfl

theorem index_move {n : Int} (hpc : s.pc t = .call c (.index n)) (hplain : c.mode ≠ .ovrwr) :
    Move (shape s) .silent (shape (index s t c n)) := by
  simp only [index]
  rw [if_neg hplain, shape_pass hpc (.call c .copy) rfl, bare_advance]
  exact .index t c.mbx c.side n (congrArg role hpc) (congrArg progress hpc)

theorem semSignal_move {error : Option (Ret T)} (hpc : s.pc t = .call c (.semSignal error)) :
    Move (shape s) (semSignal s t c error).2 (shape (semSignal s t c error).1) := by
  have hr : (shape s).role t = some (c.mbx, c.side) := congrArg role hpc
  have hp : (shape s).progress t = .none := congrArg progress hpc
  have hafter : ∀ pc, afterRelease c error = .inl pc →
      role pc = none ∧ progress pc = .none := by
    intro pc h
    simp only [afterRelease] at h
    split at h
    · cases h
      exact ⟨rfl, rfl⟩
    · split at h
      · split at h
        · cases h
          exact ⟨rfl, rfl⟩
        · exact nomatch h
      · exact nomatch h
      · cases h
        exact ⟨rfl, rfl⟩
  simp only [semSignal]
  split
  case h_1 pc h =>
    rw [shape_seat hpc pc (hafter pc h).2, (hafter pc h).1]
    exact .leave t c.mbx c.side _ (Or.inl rfl) hr hp
  case h_2 r h =>
    rw [shape_seat hpc .idle rfl]
    exact .leave t c.mbx c.side _ (Or.inr ⟨r, rfl⟩) hr hp

theorem rtPollSignal_shape (u : T) : shape (rtPollSignal s u) = shape s := by
  simp only [rtPollSignal]
  split
  · exact shape_goto (s := s) rfl rfl (s.pc u).readyPoll (role_readyPoll _)
      (progress_readyPoll _)
  · rfl

theorem wakeupPoller_shape {m : M} {ql : Side} {reason : Ret T} {s' : St T M}
    (h : wakeupPoller s m ql reason = some s') : shape s' = shape s := by
  simp only [wakeupPoller] at h
  split at h
  · exact nomatch h
  · rw [← Option.some.inj h, rtPollSignal_shape]
    exact shape_pollq s m ql _

/-- **EVERY SECTION OF A CALL IS A MOVE**. -/
theorem runCall_move {st : Stage T} {s' : St T M} {e : Event T M}
    (hpc : s.pc t = .call c st) (hplain : Plain (s.pc t))
    (h : runCall s t c st = some (s', e)) : Move (shape s) e (shape s') := by
  rw [hpc] at hplain
  cases st with
  | semWait =>
    simp only [runCall] at h
    split at h
    case isTrue hs =>
      cases h
      exact enter_move hpc rfl rfl hs rfl rfl
    case isFalse => exact nomatch h
  | loop =>
    simp only [runCall] at h
    split at h
    · cases h
      rw [mbxWait_shape hpc]
      exact .stay
    · cases h
      rw [shape_goto rfl hpc (.call c (.semSignal none)) rfl rfl]
      exact .stay
  | asleep => exact nomatch h
  | woken =>
    cases h
    rw [mbxWaitTail_shape hpc]
    exact .stay
  | copy =>
    cases h
    exact copy_move hpc hplain
  | counters n bytes =>
    have hmove := counters_move hpc
    rw [Option.some.inj h] at hmove
    exact hmove
  | index n =>
    cases h
    exact index_move hpc hplain
  | drop => exact hplain.elim
  | dropCounters => exact hplain.elim
  | dropIndex => exact hplain.elim
  | mbxSignal =>
    cases h
    rw [shape_goto (mbxSignal_shape c.mbx) hpc (.call c c.mode.afterSignal)]
    · exact .stay
    · cases c.mode <;> rfl
    · cases c.mode <;> rfl
  | semSignal error =>
    have hmove := semSignal_move hpc
    rw [Option.some.inj h] at hmove
    exact hmove
  | wakeup ql reason retval =>
    simp only [runCall] at h
    split at h
    case h_1 s'' hw =>
      cases h
      rw [wakeupPoller_shape hw]
      exact .stay
    case h_2 =>
      cases h
      rw [shape_goto rfl hpc .idle rfl rfl]
      exact .returned t retval

/-- A poll is inside no semaphore. -/
theorem runPoll_move {p : Poll M} {st : PollStage T} {s' : St T M}
    {e : Event T M} (hpc : s.pc t = .poll p st)
    (h : runPoll s t p st = some (s', e)) : Move (shape s) e (shape s') := by
  have hgoto : ∀ {s'' : St T M} (st' : PollStage T), shape s'' = shape s →
      shape (s''.goto t (.poll p st')) = shape s := fun st' hs =>
    shape_goto hs hpc (.poll p st') rfl rfl
  have huntil : ∀ time, shape (rtPollWaitUntil s t p time) = shape s := by
    intro time
    simp only [rtPollWaitUntil]
    split
    · split <;> exact hgoto _ rfl
    · exact hgoto _ rfl
  cases st with
  | test i polled =>
    cases h
    suffices hs : shape (pollTest s t p i polled) = shape s by
      rw [hs]
      exact .stay
    simp only [pollTest]
    split
    · exact hgoto _ rfl
    · split <;> exact hgoto _ rfl
  | link i polled =>
    cases h
    suffices hs : shape (pollLink s t p i polled) = shape s by
      rw [hs]
      exact .stay
    simp only [pollLink]
    split
    · exact hgoto _ rfl
    · exact hgoto _ (shape_pollq (setNode s t i .sem) _ _ _)
  | await =>
    cases h
    suffices hs : shape (pollAwait s t p) = shape s by
      rw [hs]
      exact .stay
    simp only [pollAwait]
    split
    · exact huntil _
    · split
      · exact huntil _
      · split
        · simp only [rtPollWait]
          split <;> exact hgoto _ rfl
        · exact hgoto _ rfl
  | asleep => exact nomatch h
  | woken =>
    cases h
    rw [show shape (pollWaitTail s t p) = shape s from hgoto _ rfl]
    exact .stay
  | unlink i polled semret =>
    simp only [runPoll, pollUnlink] at h
    split at h
    · cases h
      rw [shape_goto rfl hpc .idle rfl rfl]
      exact .returned t _
    · split at h
      · cases h
        rw [hgoto _ (shape_pollq s _ _ _)]
        exact .stay
      · cases h
        rw [hgoto _ rfl]
        exact .stay

end Moves

/-! ## What has gone through -/

/-- The bytes that each mailbox has taken from senders and given to
    receivers. -/
structure Hist (M : Type) where
  accepted : M → List UInt8
  delivered : M → List UInt8

/-- What a section adds to the history. -/
def Hist.note (h : Hist M) : Event T M → Hist M
  | .accepted m bytes =>
    { h with accepted :=
              Function.update h.accepted m (h.accepted m ++ bytes) }
  | .delivered m bytes =>
    { h with delivered :=
              Function.update h.delivered m (h.delivered m ++ bytes) }
  | _ => h

/-- **WHAT HOLDS BETWEEN THE SECTIONS**: one task at most is inside each
    semaphore, and what has been accepted is what has been delivered and what
    the ring of the mailbox holds. -/
structure Flows (g : Shape T M) (h : Hist M) : Prop where
  tame : g.wild = false
  seats : ∀ t m side, g.role t = some (m, side) ↔ (g.mbx m).sem side = some t
  ring : ∀ m, ∃ r, Represents (g.mbx m) (g.transfer m .send) (g.transfer m .recv) r ∧
      h.accepted m = h.delivered m ++ r.contents

section Kept

variable {g g' : Shape T M} {h h' : Hist M} {t : T} {m : M} {side : Side}
  {x : Mbx T} {p : Transfer}

/-- Only the task inside a semaphore gets on with what is done there. -/
theorem transfer_pass (F : Flows g h) (hr : g.role t = some (m, side))
    (hx : x.sem = (g.mbx m).sem) (m' : M) (side' : Side) :
    (g.pass t m x p).transfer m' side' =
      if m' = m ∧ side' = side then p else g.transfer m' side' := by
  have hseat := (F.seats t m side).mp hr
  have hsem : ((g.pass t m x p).mbx m').sem = (g.mbx m').sem := by
    by_cases hm : m' = m
    · subst hm
      show (Function.update g.mbx m' x m').sem = _
      rw [Function.update_self, hx]
    · show (Function.update g.mbx m x m').sem = _
      rw [Function.update_of_ne hm]
  simp only [Shape.transfer, hsem]
  cases hu : (g.mbx m').sem side' with
  | none =>
    rw [if_neg]
    rintro ⟨rfl, rfl⟩
    rw [hseat] at hu
    exact nomatch hu
  | some u =>
    show Function.update g.progress t p u = _
    by_cases hut : u = t
    · subst hut
      have hat := ((F.seats u m' side').mpr hu).symm.trans hr
      cases Option.some.inj hat
      rw [Function.update_self, if_pos ⟨rfl, rfl⟩]
    · rw [Function.update_of_ne hut, if_neg]
      rintro ⟨rfl, rfl⟩
      exact hut (Option.some.inj (hu.symm.trans hseat))

/-- A section of a pass at one mailbox. -/
theorem Flows.pass (F : Flows g h) (hr : g.role t = some (m, side))
    (hx : x.sem = (g.mbx m).sem)
    (hother : ∀ m', m' ≠ m → h'.accepted m' = h.accepted m' ∧ h'.delivered m' = h.delivered m')
    (hring : ∃ r, Represents x (if side = .send then p else g.transfer m .send)
        (if side = .recv then p else g.transfer m .recv) r ∧
      h'.accepted m = h'.delivered m ++ r.contents) :
    Flows (g.pass t m x p) h' where
  tame := F.tame
  seats := by
    intro u m' side'
    rw [show (g.pass t m x p).role = g.role from rfl, F.seats]
    by_cases hm : m' = m
    · subst hm
      show _ ↔ (Function.update g.mbx m' x m').sem side' = _
      rw [Function.update_self, hx]
    · show _ ↔ (Function.update g.mbx m x m').sem side' = _
      rw [Function.update_of_ne hm]
  ring := by
    intro m'
    rw [transfer_pass F hr hx, transfer_pass F hr hx]
    by_cases hm : m' = m
    · subst hm
      show ∃ r, Represents (Function.update g.mbx m' x m') _ _ r ∧ _
      rw [Function.update_self]
      simp only [true_and]
      cases side <;> exact hring
    · show ∃ r, Represents (Function.update g.mbx m x m') _ _ r ∧ _
      rw [Function.update_of_ne hm, if_neg fun h => hm h.1,
        if_neg fun h => hm h.1, (hother m' hm).1, (hother m' hm).2]
      exact F.ring m'

omit decT in
/-- The semaphores after one of them has changed. -/
theorem sem_setSem (mbx : M → Mbx T) (m : M) (side : Side) (o : Option T)
    (m' : M) (side' : Side) :
    (Function.update mbx m ((mbx m).setSem side o) m').sem side' =
      if m' = m ∧ side' = side then o else (mbx m').sem side' := by
  by_cases hm : m' = m
  · subst hm
    rw [Function.update_self]
    show Function.update (mbx m').sem side o side' = _
    by_cases hside : side' = side
    · subst hside
      rw [Function.update_self, if_pos ⟨rfl, rfl⟩]
    · rw [Function.update_of_ne hside, if_neg fun h => hside h.2]
  · rw [Function.update_of_ne hm, if_neg fun h => hm h.1]

/-- A task goes into a semaphore or out of it between its passes. -/
theorem Flows.seat (F : Flows g h) {o : Option T} {ro : Option (M × Side)}
    (hseats : ∀ u m' side', Function.update g.role t ro u = some (m', side') ↔
      (Function.update g.mbx m ((g.mbx m).setSem side o) m').sem side' = some u)
    (htransfer : g.transfer m side = .none)
    (hquiet : ∀ u, o = some u → g.progress u = .none) :
    Flows { g with
      mbx := Function.update g.mbx m ((g.mbx m).setSem side o)
      role := Function.update g.role t ro } h where
  tame := F.tame
  seats := hseats
  ring := by
    intro m'
    obtain ⟨r, R, hh⟩ := F.ring m'
    refine ⟨r, ?_, hh⟩
    by_cases hm : m' = m
    · subst hm
      have hsame : ∀ side', Shape.transfer { g with
          mbx := Function.update g.mbx m' ((g.mbx m').setSem side o)
          role := Function.update g.role t ro } m' side' =
          g.transfer m' side' := by
        intro side'
        by_cases hside : side' = side
        · subst hside
          rw [htransfer]
          simp only [Shape.transfer, Function.update_self, Mbx.setSem]
          cases o with
          | none => rfl
          | some u => exact hquiet u rfl
        · simp only [Shape.transfer, Function.update_self, Mbx.setSem,
            Function.update_of_ne hside]
      rw [hsame, hsame]
      show Represents (Function.update g.mbx m' _ m') _ _ r
      rw [Function.update_self]
      exact ⟨R.size, R.bufadr, R.avbs, R.frbs, R.put, R.get⟩
    · have hmbx : Function.update g.mbx m ((g.mbx m).setSem side o) m' =
          g.mbx m' := Function.update_of_ne hm ..
      simp only [Shape.transfer, hmbx]
      exact R

omit decT decM in
theorem transfer_of_role (F : Flows g h) (hr : g.role t = some (m, side)) :
    g.transfer m side = g.progress t := by
  simp only [Shape.transfer, (F.seats t m side).mp hr]

/-- **EVERY MOVE KEEPS THE STREAMS**. -/
theorem Move.flows {e : Event T M} (hmove : Move g e g') (F : Flows g h) :
    Flows g' (h.note e) := by
  cases hmove with
  | stay => exact F
  | returned => exact F
  | enter t m side hr hs hp =>
    refine F.seat ?_ ?_ ?_
    · intro u m' side'
      rw [sem_setSem]
      by_cases hut : u = t
      · subst hut
        rw [Function.update_self]
        split
        case isTrue h =>
          obtain ⟨rfl, rfl⟩ := h
          exact iff_of_true rfl rfl
        case isFalse hne =>
          rw [← F.seats, hr]
          refine iff_of_false (fun h => ?_) nofun
          cases Option.some.inj h
          exact hne ⟨rfl, rfl⟩
      · rw [Function.update_of_ne hut, F.seats]
        split
        case isTrue h =>
          obtain ⟨rfl, rfl⟩ := h
          rw [hs]
          exact iff_of_false nofun fun h => hut (Option.some.inj h).symm
        case isFalse => exact Iff.rfl
    · simp only [Shape.transfer, hs]
    · intro u hu
      cases hu
      exact hp
  | leave t m side e he hr hp =>
    have hn : h.note e = h := by
      rcases he with rfl | ⟨r, rfl⟩ <;> rfl
    rw [hn]
    refine F.seat ?_ ?_ nofun
    · intro u m' side'
      rw [sem_setSem]
      by_cases hut : u = t
      · subst hut
        rw [Function.update_self]
        refine iff_of_false nofun ?_
        split
        case isTrue => exact nofun
        case isFalse hne =>
          rw [← F.seats, hr]
          intro h
          cases Option.some.inj h
          exact hne ⟨rfl, rfl⟩
      · rw [Function.update_of_ne hut, F.seats]
        split
        case isTrue h =>
          obtain ⟨rfl, rfl⟩ := h
          rw [(F.seats t m' side').mp hr]
          exact iff_of_false (fun h => hut (Option.some.inj h).symm) nofun
        case isFalse => exact Iff.rfl
    · rw [transfer_of_role F hr, hp]
  -- the bytes are there but not yet counted
  | putCopy t m msg msgSize n buf hr hp hm hne hn hc =>
    obtain ⟨r, R, hh⟩ := F.ring m
    rw [transfer_of_role F hr, hp] at R
    obtain ⟨buf', r', hc', R', hcont⟩ := R.putCopy hm hne msg
    subst hn
    rw [hc] at hc'
    cases hc'
    refine F.pass hr rfl (fun _ _ => ⟨rfl, rfl⟩) ⟨r', R', ?_⟩
    rw [hcont]
    exact hh
  -- a copy outside the buffer cannot happen
  | putWild t m msg msgSize hr hp hm hne hc =>
    obtain ⟨r, R, -⟩ := F.ring m
    rw [transfer_of_role F hr, hp] at R
    obtain ⟨buf', r', hc', -⟩ := R.putCopy hm hne msg
    rw [hc] at hc'
    exact nomatch hc'
  | getCopy t m msgSize n bytes hr hp hm hne hn hc =>
    obtain ⟨r, R, hh⟩ := F.ring m
    rw [transfer_of_role F hr, hp] at R
    obtain ⟨bytes', hc', R'⟩ := R.getCopy hm hne
    subst hn
    rw [hc] at hc'
    cases hc'
    exact F.pass hr rfl (fun _ _ => ⟨rfl, rfl⟩) ⟨r, R', hh⟩
  | getWild t m msgSize hr hp hm hne hc =>
    obtain ⟨r, R, -⟩ := F.ring m
    rw [transfer_of_role F hr, hp] at R
    obtain ⟨bytes', hc', -⟩ := R.getCopy hm hne
    rw [hc] at hc'
    exact nomatch hc'
  -- with the counters the bytes are accepted
  | putCounters t m n bytes hr hp =>
    obtain ⟨r, R, hh⟩ := F.ring m
    rw [transfer_of_role F hr, hp] at R
    obtain ⟨r', R', hcont⟩ := R.putCounters
    refine F.pass hr rfl (fun m' hm => ⟨Function.update_of_ne hm .., rfl⟩) ⟨r', R', ?_⟩
    show Function.update h.accepted m _ m = _
    rw [Function.update_self, hcont, hh, List.append_assoc]
    rfl
  | getCounters t m n bytes hr hp =>
    obtain ⟨r, R, hh⟩ := F.ring m
    rw [transfer_of_role F hr, hp] at R
    obtain ⟨r', R', hcont⟩ := R.getCounters
    refine F.pass hr rfl (fun m' hm => ⟨rfl, Function.update_of_ne hm ..⟩) ⟨r', R', ?_⟩
    show h.accepted m = Function.update h.delivered m _ m ++ _
    rw [Function.update_self, hh, hcont, List.append_assoc]
  | index t m side n hr hp =>
    obtain ⟨r, R, hh⟩ := F.ring m
    cases side with
    | send =>
      rw [transfer_of_role F hr, hp] at R
      exact F.pass hr rfl (fun _ _ => ⟨rfl, rfl⟩) ⟨r, R.putIndex, hh⟩
    | recv =>
      rw [transfer_of_role F hr, hp] at R
      exact F.pass hr rfl (fun _ _ => ⟨rfl, rfl⟩) ⟨r, R.getIndex, hh⟩

end Kept

/-! ## Every run -/

/-- The mailboxes with what has gone through them. -/
structure World (T M : Type) where
  st : St T M
  hist : Hist M

/-- A section, and the history it leaves. -/
def observed (x : World T M) (a : MbxAction T M) : Option (World T M × Event T M) :=
  (step x.st a).map fun r =>
    ({ st := r.1, hist := x.hist.note r.2 }, r.2)

/-- The beginning: nothing sent, nothing received. -/
def opening (buffer : M → List UInt8) (priority : T → Int) : World T M where
  st := boot buffer priority
  hist := { accepted := fun _ => [], delivered := fun _ => [] }

/-- Any step but a call of `_rt_mbx_ovrwr_send`. -/
def NoOvrwr : MbxAction T M → Prop
  | .call _ (.mbxOvrwrSend _ _ _) => False
  | _ => True

/-- Where the next byte for a receiver is: `fbyte`, unless the index of a pass
    is still to be updated. -/
def nextByte (s : St T M) (m : M) : Int :=
  match (shape s).transfer m .recv with
  | .index n => (s.mbx m).modSize ((s.mbx m).fbyte + n)
  | _ => (s.mbx m).fbyte

/-- The contents of the buffer: `avbs` bytes from the next one on. -/
def stored (s : St T M) (m : M) : List UInt8 :=
  ((s.mbx m).bufadr.rotate (nextByte s m).toNat).take (s.mbx m).avbs.toNat

/-- What a mailbox is for. -/
structure ByteStream (x : World T M) (m : M) : Prop where
  /-- Delivered in order. -/
  in_order : x.hist.delivered m <+: x.hist.accepted m
  /-- The bytes in between are in the buffer. -/
  in_between : x.hist.accepted m = x.hist.delivered m ++ stored x.st m
  balance : (x.st.mbx m).avbs + (x.st.mbx m).frbs = (x.st.mbx m).size
  avbs_nonneg : 0 ≤ (x.st.mbx m).avbs
  frbs_nonneg : 0 ≤ (x.st.mbx m).frbs

/-- Between the sections, with the calls that there are. -/
structure Streaming (x : World T M) : Prop where
  flows : Flows (shape x.st) x.hist
  plain : ∀ t, Plain (x.st.pc t)

omit decT decM in
theorem streaming_opening (buffer : M → List UInt8) (priority : T → Int)
    (hb : ∀ m, buffer m ≠ []) : Streaming (opening buffer priority) where
  flows :=
    { tame := rfl
      seats := fun _ _ _ => iff_of_false nofun nofun
      ring := by
        intro m
        have hpos := List.length_pos_of_ne_nil (hb m)
        have hz : wrap (buffer m).length 0 = 0 := if_pos hpos
        exact ⟨⟨buffer m, 0, 0, hpos, Nat.zero_le _⟩,
          ⟨rfl, rfl, rfl, (Int.sub_zero _).symm, congrArg Nat.cast hz.symm, rfl⟩,
          rfl⟩ }
  plain := fun _ => trivial

omit decT decM in
theorem Streaming.byteStream {x : World T M} (S : Streaming x) (m : M) :
    ByteStream x m := by
  obtain ⟨r, R, hh⟩ := S.flows.ring m
  have hnext : nextByte x.st m = r.first := by
    have hg := R.get
    simp only [nextByte]
    cases hp : (shape x.st).transfer m .recv with
    | none =>
      rw [hp] at hg
      exact hg
    | counters n bytes =>
      rw [hp] at hg
      exact hg.1
    | index n =>
      rw [hp] at hg R
      exact R.getIndex.get
  have hstored : stored x.st m = r.contents := by
    show ((x.st.mbx m).bufadr.rotate _).take (x.st.mbx m).avbs.toNat = _
    rw [hnext, show (x.st.mbx m).bufadr = r.buf from R.bufadr,
      show (x.st.mbx m).avbs = r.used from R.avbs]
    rfl
  have hle := r.used_le
  have hbytes : x.hist.accepted m = x.hist.delivered m ++ stored x.st m :=
    hstored ▸ hh
  have ha : (x.st.mbx m).avbs = r.used := R.avbs
  have hf : (x.st.mbx m).frbs = r.buf.length - r.used := R.frbs
  have hs : (x.st.mbx m).size = r.buf.length := R.size
  refine ⟨?_, hbytes, ?_, ?_, ?_⟩
  · rw [hbytes]
    exact List.prefix_append _ _
  · omega
  · omega
  · omega

omit decM in
/-- Where the tasks stand after one of them has moved. -/
theorem plain_goto {s s' : St T M} (hs : s'.pc = s.pc)
    (hall : ∀ u, Plain (s.pc u)) (t : T) {pc : Pc T M} (h : Plain pc) :
    ∀ u, Plain ((s'.goto t pc).pc u) := by
  intro u
  show Plain (Function.update s'.pc t pc u)
  rw [hs]
  by_cases hu : u = t
  · subst hu
    rw [Function.update_self]
    exact h
  · rw [Function.update_of_ne hu]
    exact hall u

omit decT decM in
theorem Plain.readyMbx {pc : Pc T M} (h : Plain pc) : Plain pc.readyMbx := by
  cases pc with
  | call c st => cases st <;> exact h
  | _ => exact h

omit decT decM in
theorem Plain.readyPoll {pc : Pc T M} (h : Plain pc) : Plain pc.readyPoll := by
  cases pc with
  | poll p st => cases st <;> exact h
  | _ => exact h

theorem rtPollSignal_plain (s : St T M) (hall : ∀ u, Plain (s.pc u)) (t : T) :
    ∀ u, Plain ((rtPollSignal s t).pc u) := by
  simp only [rtPollSignal]
  split
  · exact plain_goto rfl hall t (hall t).readyPoll
  · exact hall

theorem wakeupPoller_plain {s s' : St T M} (hall : ∀ u, Plain (s.pc u)) {m : M}
    {ql : Side} {reason : Ret T} (h : wakeupPoller s m ql reason = some s') :
    ∀ u, Plain (s'.pc u) := by
  simp only [wakeupPoller] at h
  split at h
  · exact nomatch h
  · rw [← Option.some.inj h]
    exact rtPollSignal_plain { s.setMbx m _ with node := _ } hall _

theorem mbxSignal_plain {s : St T M} (hall : ∀ u, Plain (s.pc u)) (m : M) :
    ∀ u, Plain ((mbxSignal s m).pc u) := by
  simp only [mbxSignal]
  split
  · exact hall
  · exact plain_goto rfl hall _ (hall _).readyMbx

theorem mbxWait_plain {s : St T M} (hall : ∀ u, Plain (s.pc u)) {t : T}
    {c : Call M} (hplain : c.mode ≠ .ovrwr) :
    ∀ u, Plain ((mbxWait s t c).pc u) := by
  simp only [mbxWait]
  split
  · split
    · split <;> exact plain_goto rfl hall t hplain
    · exact plain_goto rfl hall t hplain
  · exact plain_goto rfl hall t hplain

theorem copy_plain {s : St T M} (hall : ∀ u, Plain (s.pc u)) {t : T}
    {c : Call M} (hplain : c.mode ≠ .ovrwr) :
    ∀ u, Plain ((copy s t c).pc u) := by
  have hput : ∀ u, Plain ((mbxputCopy s t c).pc u) := by
    simp only [mbxputCopy]
    split
    · exact hall
    · exact plain_goto rfl hall t hplain
  have hget : ∀ u, Plain ((mbxgetCopy s t c).pc u) := by
    simp only [mbxgetCopy]
    split
    · exact hall
    · exact plain_goto rfl hall t hplain
  simp only [copy]
  split
  case h_1 h => exact absurd h hplain
  case h_2 =>
    split
    · exact hput
    · exact plain_goto rfl hall t hplain
  case h_3 =>
    split
    · exact hget
    · exact plain_goto rfl hall t hplain

theorem runCall_plain {s s' : St T M} (hall : ∀ u, Plain (s.pc u)) {t : T}
    {c : Call M} {st : Stage T} {e : Event T M} (hpc : s.pc t = .call c st)
    (h : runCall s t c st = some (s', e)) : ∀ u, Plain (s'.pc u) := by
  have hplain := hall t
  rw [hpc] at hplain
  cases st with
  | semWait =>
    simp only [runCall] at h
    split at h
    · cases h
      exact plain_goto rfl hall t hplain
    · exact nomatch h
  | loop =>
    simp only [runCall] at h
    split at h
    · cases h
      exact mbxWait_plain hall hplain
    · cases h
      exact plain_goto rfl hall t hplain
  | asleep => exact nomatch h
  | woken =>
    cases h
    simp only [mbxWaitTail]
    split
    · exact plain_goto rfl hall t hplain
    · exact plain_goto rfl hall t hplain
  | copy =>
    cases h
    exact copy_plain hall hplain
  | counters n bytes =>
    simp only [runCall, counters] at h
    split at h
    · cases h
      exact plain_goto rfl hall t hplain
    · cases h
      exact plain_goto rfl hall t hplain
  | index n =>
    cases h
    simp only [index]
    rw [if_neg hplain]
    exact plain_goto rfl hall t hplain
  | drop => exact hplain.elim
  | dropCounters => exact hplain.elim
  | dropIndex => exact hplain.elim
  | mbxSignal =>
    cases h
    refine plain_goto rfl (mbxSignal_plain hall c.mbx) t ?_
    cases hm : c.mode with
    | ovrwr => exact absurd hm hplain
    | _ => exact hplain
  | semSignal error =>
    simp only [runCall, semSignal] at h
    split at h
    case h_1 pc hafter =>
      cases h
      refine plain_goto rfl hall t ?_
      simp only [afterRelease] at hafter
      split at hafter
      · cases hafter
        exact hplain
      · split at hafter
        · split at hafter
          · cases hafter
            exact hplain
          · exact nomatch hafter
        · exact nomatch hafter
        · cases hafter
          exact hplain
    case h_2 =>
      cases h
      exact plain_goto rfl hall t trivial
  | wakeup ql reason retval =>
    simp only [runCall] at h
    split at h
    case h_1 s'' hw =>
      cases h
      exact wakeupPoller_plain hall hw
    case h_2 =>
      cases h
      exact plain_goto rfl hall t trivial

theorem runPoll_plain {s s' : St T M} (hall : ∀ u, Plain (s.pc u)) {t : T}
    {p : Poll M} {st : PollStage T} {e : Event T M}
    (h : runPoll s t p st = some (s', e)) : ∀ u, Plain (s'.pc u) := by
  have hgoto : ∀ {s'' : St T M} (st' : PollStage T), s''.pc = s.pc →
      ∀ u, Plain ((s''.goto t (.poll p st')).pc u) := fun st' hs =>
    plain_goto hs hall t trivial
  have huntil : ∀ time u, Plain ((rtPollWaitUntil s t p time).pc u) := by
    intro time
    simp only [rtPollWaitUntil]
    split
    · split <;> exact hgoto _ rfl
    · exact hgoto _ rfl
  cases st with
  | test i polled =>
    cases h
    simp only [pollTest]
    split
    · exact hgoto _ rfl
    · split <;> exact hgoto _ rfl
  | link i polled =>
    cases h
    simp only [pollLink]
    split <;> exact hgoto _ rfl
  | await =>
    cases h
    simp only [pollAwait]
    split
    · exact huntil _
    · split
      · exact huntil _
      · split
        · simp only [rtPollWait]
          split <;> exact hgoto _ rfl
        · exact hgoto _ rfl
  | asleep => exact nomatch h
  | woken =>
    cases h
    exact hgoto _ rfl
  | unlink i polled semret =>
    simp only [runPoll, pollUnlink] at h
    split at h
    · cases h
      exact plain_goto rfl hall t trivial
    · split at h <;> cases h <;> exact hgoto _ rfl

/-- A call is made outside any semaphore. -/
theorem request_move {s : St T M} {t : T} {q : Request M}
    (hpc : s.pc t = .idle) (hq : NoOvrwr (.call t q)) :
    Move (shape s) (request s t q).2 (shape (request s t q).1) := by
  cases q with
  | mbxOvrwrSend => exact hq.elim
  | mbxSend | mbxSendUntil | mbxReceive | mbxReceiveUntil =>
    exact waitCall_move hpc
  | mbxSendWp | mbxSendIf | mbxReceiveWp | mbxReceiveIf =>
    exact tryCall_move hpc _
  | poll pds timeout =>
    have hs : shape (rtPoll s t pds timeout).1 = shape s :=
      shape_goto rfl hpc (.poll ⟨pds, timeout⟩ (.test 0 0)) rfl rfl
    show Move _ .silent (shape (rtPoll s t pds timeout).1)
    rw [hs]
    exact .stay

theorem request_plain {s : St T M} (hall : ∀ u, Plain (s.pc u)) {t : T}
    {q : Request M} (hq : NoOvrwr (.call t q)) :
    ∀ u, Plain ((request s t q).1.pc u) := by
  have hwait : ∀ c : Call M, c.mode ≠ .ovrwr →
      ∀ u, Plain ((waitCall s t c).1.pc u) := fun c hc =>
    plain_goto rfl hall t hc
  have htry : ∀ (c : Call M) able, c.mode ≠ .ovrwr →
      ∀ u, Plain ((tryCall s t c able).1.pc u) := by
    intro c able hc
    simp only [tryCall]
    split
    · exact plain_goto rfl hall t hc
    · exact hall
  cases q with
  | mbxOvrwrSend => exact hq.elim
  | mbxSend | mbxSendUntil | mbxReceive | mbxReceiveUntil => exact hwait _ nofun
  | mbxSendWp | mbxSendIf | mbxReceiveWp | mbxReceiveIf => exact htry _ _ nofun
  | poll => exact plain_goto rfl hall t trivial

/-- A task that is woken stays where it is. -/
theorem awake_shape {s s' : St T M} (hs : shape s' = shape s) (t : T) :
    shape (s'.goto t (s.pc t).readyMbx.readyPoll) = shape s :=
  shape_goto hs rfl _ ((role_readyPoll _).trans (role_ready _))
    ((progress_readyPoll _).trans (progress_ready _))

/-- **EVERY STEP KEEPS THE STREAMS**. -/
theorem Streaming.step {x x' : World T M} (S : Streaming x) {a : MbxAction T M}
    {e : Event T M} (ha : NoOvrwr a) (hx : observed x a = some (x', e)) :
    Streaming x' := by
  obtain ⟨⟨s', e'⟩, hs, hr⟩ := Option.map_eq_some_iff.mp hx
  cases hr
  suffices hsuff : Move (shape x.st) e' (shape s') ∧ ∀ u, Plain (s'.pc u) from
    ⟨hsuff.1.flows S.flows, hsuff.2⟩
  simp only [RtaiMailbox.step] at hs
  rw [if_neg (by rw [show x.st.wild = false from S.flows.tame]; decide)] at hs
  cases a with
  | call t q =>
    simp only at hs
    split at hs
    case h_1 hpc =>
      have hmove := request_move hpc ha
      have hplain := request_plain S.plain ha
      rw [Option.some.inj hs] at hmove hplain
      exact ⟨hmove, hplain⟩
    case h_2 => exact nomatch hs
  | run t =>
    simp only at hs
    split at hs
    case h_1 => exact nomatch hs
    case h_2 c st hpc =>
      exact ⟨runCall_move hpc (S.plain t) hs, runCall_plain S.plain hpc hs⟩
    case h_3 p st hpc =>
      exact ⟨runPoll_move hpc hs, runPoll_plain S.plain hs⟩
  | giveUp t error =>
    simp only at hs
    split at hs
    case h_1 c hpc =>
      cases hs
      rw [shape_goto rfl hpc .idle rfl rfl]
      exact ⟨.returned t _, plain_goto rfl S.plain t trivial⟩
    case h_2 => exact nomatch hs
  | expire t =>
    simp only at hs
    split at hs
    · cases hs
      rw [awake_shape rfl]
      exact ⟨.stay, plain_goto rfl S.plain t (S.plain t).readyMbx.readyPoll⟩
    · exact nomatch hs
  | unblock t =>
    simp only at hs
    split at hs
    · cases hs
      rw [awake_shape (shape_block _)]
      exact ⟨.stay, plain_goto rfl S.plain t (S.plain t).readyMbx.readyPoll⟩
    · exact nomatch hs
  | tick time timeH =>
    cases hs
    exact ⟨.stay, S.plain⟩

/-- **A MAILBOX IS A BYTE STREAM** in every run of sends, receives and polls
    without `_rt_mbx_ovrwr_send`, and no copy goes outside its buffer. -/
theorem byte_stream (buffer : M → List UInt8) (priority : T → Int)
    (hb : ∀ m, buffer m ≠ []) (x : World T M)
    (h : Reach observed (fun _ a => NoOvrwr a) (opening buffer priority) x) :
    x.st.wild = false ∧ ∀ m, ByteStream x m := by
  have S : Streaming x := h.invariant (I := Streaming) (streaming_opening buffer priority hb)
    fun _ _ _ _ S ha hx => S.step ha hx
  exact ⟨S.flows.tame, S.byteStream⟩

instance (a : MbxAction T M) : Decidable (NoOvrwr a) :=
  match a with
  | .call _ (.mbxOvrwrSend _ _ _) => isFalse id
  | .call _ (.mbxSend _ _ _) => isTrue trivial
  | .call _ (.mbxSendWp _ _ _) => isTrue trivial
  | .call _ (.mbxSendIf _ _ _) => isTrue trivial
  | .call _ (.mbxSendUntil _ _ _ _) => isTrue trivial
  | .call _ (.mbxReceive _ _) => isTrue trivial
  | .call _ (.mbxReceiveWp _ _) => isTrue trivial
  | .call _ (.mbxReceiveIf _ _) => isTrue trivial
  | .call _ (.mbxReceiveUntil _ _ _) => isTrue trivial
  | .call _ (.poll _ _) => isTrue trivial
  | .run _ => isTrue trivial
  | .giveUp _ _ => isTrue trivial
  | .expire _ => isTrue trivial
  | .unblock _ => isTrue trivial
  | .tick _ _ => isTrue trivial

/-- Task 0 sends three bytes through a mailbox of two; task 1 receives two of
    them. -/
def smallRun : List (MbxAction (Fin 2) (Fin 1)) :=
  MbxAction.call 0 (.mbxSend 0 (fun i => UInt8.ofNat i) 3) ::
    List.replicate 8 (MbxAction.run 0) ++
    MbxAction.call 1 (.mbxReceive 0 2) :: List.replicate 6 (MbxAction.run 1)

theorem byte_stream_small : ∃ x : World (Fin 2) (Fin 1), x.hist.accepted 0 = [0, 1] ∧
      x.hist.delivered 0 = [0, 1] ∧ ByteStream x 0 := by
  obtain ⟨x, hplay, ha, hd⟩ : ∃ x, play observed (fun _ a => NoOvrwr a)
      (opening (fun _ => [0, 0]) (fun _ => 0)) smallRun = some x ∧
      x.hist.accepted 0 = [0, 1] ∧ x.hist.delivered 0 = [0, 1] :=
    ⟨_, rfl, rfl, rfl⟩
  exact ⟨x, ha, hd, (byte_stream (fun _ => [0, 0]) (fun _ => 0)
    (fun _ => List.cons_ne_nil _ _) x (reach_of_play hplay)).2 0⟩

end RtaiByteStream
