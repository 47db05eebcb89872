import Rtai.FifoResize

/-! # The bytes of a fifo that is resized

    The ring of the fifo, and the buffer it is moved to, at every place of
    `rtf_resize`; and what follows for every run that meets the condition. -/

namespace RtaiResizedRing

open RtaiCircular RtaiMailbox RtaiByteStream RtaiMbxCopies RtaiRuns RtaiFifoResize

/-! ## The passes -/

section Passes

variable {s : Store} {put get : Transfer} {r : RingBuffer UInt8} {n : Int}

theorem mbx_write (bytes : List UInt8) (wild : Bool) :
    Store.mbx { s with mem := Function.update s.mem s.bufadr bytes, wild := wild } =
      { s.mbx with bufadr := bytes } := by
  unfold Store.mbx
  dsimp only
  rw [Function.update_self]

/-- Nothing is copied. -/
theorem memcpyTo_zero {buf : List UInt8} {ofs : Int} (h0 : 0 ≤ ofs)
    (hle : ofs ≤ buf.length) (msg : Nat → UInt8) :
    memcpyTo buf ofs 0 msg = some buf := by
  unfold memcpyTo
  rw [if_pos (by omega)]
  refine congrArg some ?_
  show buf.take ofs.toNat ++ [] ++ buf.drop (ofs.toNat + 0) = buf
  rw [List.append_nil, Nat.add_zero, List.take_append_drop]

/-- **THE COPY OF A SEND**. -/
theorem write_represents (R : Represents s.mbx .none get r) (h0 : 0 ≤ s.lbyte)
    (hn : 0 ≤ n) (hroom : n ≤ s.frbs) (hfit : s.lbyte + n ≤ s.size)
    (htame : s.wild = false) (hlive : s.freed s.bufadr = false) (msg : Nat → UInt8) :
    ∃ bytes r', s.write s.bufadr s.lbyte n msg =
        { s with mem := Function.update s.mem s.bufadr bytes, wild := false } ∧
      Represents { s.mbx with bufadr := bytes }
        (.counters n ((List.range n.toNat).map msg)) get r' ∧
      r'.contents = r.contents := by
  have hsize : s.size = (s.mem s.bufadr).length := by
    rw [show s.mem s.bufadr = r.buf from R.bufadr]
    exact R.size
  have hcopy : ∃ bytes r', memcpyTo (s.mem s.bufadr) s.lbyte n msg = some bytes ∧
      Represents { s.mbx with bufadr := bytes }
        (.counters n ((List.range n.toNat).map msg)) get r' ∧
      r'.contents = r.contents := by
    rcases hn.lt_or_eq with hpos | rfl
    · have hmod : s.lbyte % s.size = s.lbyte := Int.emod_eq_of_lt h0 (by omega)
      have htocpy : s.mbx.tocpy .send n = n := by
        show (let m := if s.size - s.lbyte % s.size > n then n
            else s.size - s.lbyte % s.size
          if m > s.frbs then s.frbs else m) = n
        dsimp only
        rw [hmod]
        split_ifs <;> omega
      obtain ⟨bytes, r', hto, R', hr'⟩ :=
        R.putCopy hpos (show s.frbs ≠ 0 by omega) msg
      rw [htocpy] at hto R'
      have hto' : memcpyTo (s.mem s.bufadr) (s.lbyte % s.size) n msg = some bytes := hto
      rw [hmod] at hto'
      exact ⟨bytes, r', hto', R', hr'⟩
    · have hu := r.used_le
      have hl : s.mbx.lbyte = r.last := R.put
      refine ⟨s.mem s.bufadr, r, memcpyTo_zero h0 (by omega) msg,
        ⟨R.size, R.bufadr, R.avbs, R.frbs, ⟨hl, rfl, ?_, hu, rfl⟩, R.get⟩, rfl⟩
      exact r.last_lt.le
  obtain ⟨bytes, r', hto, R', hr'⟩ := hcopy
  refine ⟨bytes, r', ?_, R', hr'⟩
  unfold Store.write
  rw [hto]
  dsimp only
  rw [htame, hlive]
  rfl

/-- **THE COPY OF A RECEIVE**. -/
theorem read_represents (R : Represents s.mbx put .none r) (hn : 0 ≤ n)
    (hroom : n ≤ s.avbs) (hfit : s.fbyte + n ≤ s.size)
    (hlive : s.freed s.bufadr = false) :
    ∃ bytes, s.read s.bufadr s.fbyte n = (s, bytes) ∧
      Represents s.mbx put (.counters n bytes) r := by
  have hcopy : ∃ bytes, memcpyFrom (s.mem s.bufadr) s.fbyte n = some bytes ∧
      Represents s.mbx put (.counters n bytes) r := by
    have hl : s.fbyte = r.first := R.get
    have hs : s.size = r.buf.length := R.size
    have hbuf : s.mem s.bufadr = r.buf := R.bufadr
    have ha : s.avbs = r.used := R.avbs
    obtain ⟨k, rfl⟩ := Int.eq_ofNat_of_zero_le hn
    have hlen : (segment r.buf r.first k).length = k := length_segment (by omega)
    refine ⟨segment r.buf r.first k, ?_, R.size, R.bufadr, R.avbs, R.frbs, R.put, hl,
      ?_, ?_, ?_, ?_⟩
    · unfold memcpyFrom
      rw [hbuf, if_pos ⟨by omega, by omega, by omega⟩, hl, Int.toNat_natCast,
        Int.toNat_natCast]
    · rw [hlen]
    · omega
    · omega
    · rw [hlen]
      exact (r.take_contents (by omega) (by omega)).symm
  obtain ⟨bytes, hfrom, R'⟩ := hcopy
  refine ⟨bytes, ?_, R'⟩
  unfold Store.read
  rw [hfrom]
  dsimp only
  rw [hlive, Bool.or_false]

theorem modSize_bounds {i : Int} (h0 : 0 ≤ i) (hle : i ≤ 2 * s.size) :
    0 ≤ s.modSize i ∧ s.modSize i ≤ s.size := by
  unfold Store.modSize
  split <;> omega

/-- **THE COUNTERS OF A SEND**. -/
theorem put_represents {bytes : List UInt8} (R : Represents s.mbx (.counters n bytes) get r)
    (hl : 0 ≤ s.lbyte ∧ s.lbyte ≤ s.size) :
    (0 ≤ (s.put n bytes).lbyte ∧ (s.put n bytes).lbyte ≤ s.size) ∧
      ∃ r', Represents (s.put n bytes).mbx .none get r' ∧
        r'.contents = r.contents ++ bytes := by
  obtain ⟨hlast, hn, hfit, -, -⟩ := R.put
  have hlast' : s.lbyte % s.size = r.last := hlast
  have hs : s.size = r.buf.length := R.size
  have hfirst := r.first_lt
  have hmod : s.lbyte < s.size ∧ s.lbyte % s.size = s.lbyte ∨
      s.lbyte = s.size ∧ s.lbyte % s.size = 0 := by
    rcases hl.2.lt_or_eq with hlt | heq
    · exact .inl ⟨hlt, Int.emod_eq_of_lt hl.1 hlt⟩
    · refine .inr ⟨heq, ?_⟩
      rw [heq]
      exact Int.emod_self
  have hplace : s.modSize (s.lbyte + n) % s.size = s.mbx.modSize (s.mbx.lbyte + n) := by
    show (if s.lbyte + n < s.size then s.lbyte + n else s.lbyte + n - s.size) % s.size =
      if s.lbyte % s.size + n < s.size then s.lbyte % s.size + n
      else s.lbyte % s.size + n - s.size
    rcases hmod with ⟨hlt, hm⟩ | ⟨heq, hm⟩
    · rw [hm]
      split_ifs with hend
      · exact Int.emod_eq_of_lt (by omega) hend
      · exact Int.emod_eq_of_lt (by omega) (by omega)
    · rw [hm, if_neg (by omega), show s.lbyte + n - s.size = n by omega, Int.zero_add]
      split_ifs with hend
      · exact Int.emod_eq_of_lt (by omega) hend
      · rw [show n = s.size by omega, Int.emod_self]
        omega
  obtain ⟨r₁, R₁, hr₁⟩ := R.putCounters
  have R₂ := R₁.putIndex
  have hmbx : (s.mbx.fill n).advance .send n = (s.put n bytes).mbx := by
    show { s.mbx with
        frbs := s.frbs - n
        avbs := s.avbs + n
        lbyte := s.mbx.modSize (s.mbx.lbyte + n) } = _
    rw [← hplace]
    rfl
  rw [hmbx] at R₂
  exact ⟨modSize_bounds (s := s) (by omega) (by omega), r₁, R₂, hr₁⟩

/-- **THE COUNTERS OF A RECEIVE**. -/
theorem get_represents {bytes : List UInt8} (R : Represents s.mbx put (.counters n bytes) r) :
    ∃ r', Represents (s.get n).mbx put .none r' ∧ r.contents = bytes ++ r'.contents := by
  obtain ⟨r₁, R₁, hr₁⟩ := R.getCounters
  exact ⟨r₁, R₁.getIndex, hr₁⟩

/-- No pass has counted what it has not done. -/
def Transfer.Counted : Transfer → Prop
  | .index _ => False
  | _ => True

/-- The ring, whatever has been copied. -/
theorem represents_still {x : Mbx Unit} (R : Represents x put get r)
    (hp : Transfer.Counted put) (hg : Transfer.Counted get) :
    Represents x .none .none r := by
  refine ⟨R.size, R.bufadr, R.avbs, R.frbs, ?_, ?_⟩
  · cases put with
    | none => exact R.put
    | counters n bytes => exact R.put.1
    | index n => exact hp.elim
  · cases get with
    | none => exact R.get
    | counters n bytes => exact R.get.1
    | index n => exact hg.elim

end Passes

/-! ## What holds at every place -/

/-- The ring holds the bytes, but for the passes under way. -/
structure Settled (s : Store) (put get : Transfer) : Prop where
  lbyte : 0 ≤ s.lbyte ∧ s.lbyte ≤ s.size
  ring : ∃ r, Represents s.mbx put get r ∧ r.contents = s.stream

/-- The new buffer. -/
structure Spare (s : Store) (x : Locals) : Prop where
  clock : x.newbuf < s.clock
  live : s.freed x.newbuf = false
  length : ((s.mem x.newbuf).length : Int) = x.size
  pos : 0 < x.size

/-- What `rtf_resize` relies on while it moves the bytes. -/
structure Moving (s : Store) (still : Prop) (x : Locals) (semval : Bool) : Prop where
  still : still
  size : semval = false → s.size ≤ x.size
  fits : (s.stream.length : Int) ≤ x.size
  spare : Spare s x

/-- All bytes are in the new buffer. -/
def Copied (s : Store) (x : Locals) : Prop :=
  (s.mem x.newbuf).take s.stream.length = s.stream

/-- The counters and `lbyte` are those of the new buffer. -/
structure Counted (s : Store) (x : Locals) : Prop where
  frbs : s.frbs = x.size - s.stream.length
  avbs : s.avbs = s.stream.length
  lbyte : s.lbyte = s.stream.length

/-- The new buffer is the buffer. -/
structure Installed (s : Store) (x : Locals) (oldbuf : Nat) : Prop where
  size : s.size = x.size
  pos : 0 < x.size
  bufadr : s.bufadr = x.newbuf
  oldbuf : oldbuf ≠ s.bufadr

/-- **AT EVERY PLACE OF `rtf_resize`**. -/
def AtPlace (s : Store) (put get : Transfer) (still : Prop) : Rsz → Prop
  | .idle => Settled s put get
  | .returned v => Settled s put get ∧ (0 ≤ v → s.size = v) ∧ (v < 0 → s.touched = false)
  | .semWait x | .queued x | .handed x | .semWaitIf x | .look x | .check x _
  | .busySnd x | .busyRcv x | .busyFree x =>
    Settled s put get ∧ Spare s x ∧ x.newbuf ≠ s.bufadr ∧ s.touched = false
  | .get x semval j =>
    Moving s still x semval ∧ x.newbuf ≠ s.bufadr ∧ ∃ r, ∃ k : Nat, j = k ∧
      Represents s.mbx .none .none r ∧
      (s.mem x.newbuf).take k ++ r.contents = s.stream ∧
      k + r.used = s.stream.length
  | .got x semval j n =>
    Moving s still x semval ∧ x.newbuf ≠ s.bufadr ∧ ∃ r bytes, ∃ k : Nat, j = k ∧
      Represents s.mbx .none (.counters n bytes) r ∧
      (s.mem x.newbuf).take k ++ r.contents = s.stream ∧
      k + r.used = s.stream.length ∧
      (s.mem x.newbuf).take (k + bytes.length) = (s.mem x.newbuf).take k ++ bytes
  | .setFrbs x semval left =>
    Moving s still x semval ∧ x.newbuf ≠ s.bufadr ∧ Copied s x ∧
      left = x.size - s.stream.length
  | .setAvbs x semval =>
    Moving s still x semval ∧ x.newbuf ≠ s.bufadr ∧ Copied s x ∧
      s.frbs = x.size - s.stream.length
  | .setFbyte x semval =>
    Moving s still x semval ∧ x.newbuf ≠ s.bufadr ∧ Copied s x ∧ Counted s x
  | .swap x semval =>
    Moving s still x semval ∧ x.newbuf ≠ s.bufadr ∧ Copied s x ∧ Counted s x ∧ s.fbyte = 0
  | .setSize x semval oldbuf =>
    Moving s still x semval ∧ Copied s x ∧ Counted s x ∧ s.fbyte = 0 ∧
      s.bufadr = x.newbuf ∧ oldbuf ≠ s.bufadr
  | .sndSignal x oldbuf | .mbxSignal x oldbuf | .rcvSignal x oldbuf =>
    Settled s put get ∧ Installed s x oldbuf ∧ s.fbyte = 0
  | .free x oldbuf => Settled s put get ∧ Installed s x oldbuf

section Places

variable {s s' : Store} {put get put' get' : Transfer} {still still' : Prop} {r : Rsz}

/-- `rtf_resize` is not moving the bytes. -/
theorem AtPlace.settled (h : AtPlace s put get still r) (hr : r.moves = none) :
    Settled s put get := by
  cases r with
  | idle => exact h
  | returned | semWait | queued | handed | semWaitIf | look | check | sndSignal
  | mbxSignal | rcvSignal | free | busySnd | busyRcv | busyFree => exact h.1
  | get | got | setFrbs | setAvbs | setFbyte | swap | setSize => exact nomatch hr

/-- It is, and no process is in the middle of a pass. -/
theorem AtPlace.quiet (h : AtPlace s put get still r) (hr : r.moves ≠ none) : still := by
  cases r with
  | get | got | setFrbs | setAvbs | setFbyte | swap | setSize => exact h.1.still
  | idle | returned | semWait | queued | handed | semWaitIf | look | check | sndSignal
  | mbxSignal | rcvSignal | free | busySnd | busyRcv | busyFree => exact absurd rfl hr

/-- What a pass of a process leaves alone. -/
structure Alone (s s' : Store) : Prop where
  size : s'.size = s.size
  bufadr : s'.bufadr = s.bufadr
  clock : s'.clock = s.clock
  freed : s'.freed = s.freed
  touched : s'.touched = s.touched
  mem : ∀ n, n ≠ s.bufadr → s'.mem n = s.mem n

theorem Alone.refl (s : Store) : Alone s s :=
  ⟨rfl, rfl, rfl, rfl, rfl, fun _ _ => rfl⟩

/-- **A PASS OF A PROCESS** while `rtf_resize` is not moving the bytes. -/
theorem AtPlace.pass (h : AtPlace s put get still r) (hr : r.moves = none)
    (ha : Alone s s') (hset : Settled s' put' get')
    (hf : r.holds .recv = true → s'.fbyte = s.fbyte) : AtPlace s' put' get' still' r := by
  have hspare : ∀ {x : Locals}, x.newbuf ≠ s.bufadr → Spare s x → Spare s' x := by
    intro x hne hx
    refine ⟨?_, ?_, ?_, hx.pos⟩
    · rw [ha.clock]
      exact hx.clock
    · rw [ha.freed]
      exact hx.live
    · rw [ha.mem _ hne]
      exact hx.length
  have hinst : ∀ {x : Locals} {oldbuf}, Installed s x oldbuf → Installed s' x oldbuf := by
    intro x oldbuf hx
    refine ⟨ha.size.trans hx.size, hx.pos, ha.bufadr.trans hx.bufadr, ?_⟩
    rw [ha.bufadr]
    exact hx.oldbuf
  cases r with
  | idle => exact hset
  | returned v =>
    refine ⟨hset, fun hv => ha.size.trans (h.2.1 hv), fun hv => ?_⟩
    exact ha.touched.trans (h.2.2 hv)
  | semWait | queued | handed | semWaitIf | look | check | busySnd | busyRcv | busyFree =>
    obtain ⟨-, hx, hne, ht⟩ := h
    refine ⟨hset, hspare hne hx, ?_, ha.touched.trans ht⟩
    rw [ha.bufadr]
    exact hne
  | sndSignal | mbxSignal | rcvSignal =>
    exact ⟨hset, hinst h.2.1, (hf rfl).trans h.2.2⟩
  | free => exact ⟨hset, hinst h.2⟩
  | get | got | setFrbs | setAvbs | setFbyte | swap | setSize => exact nomatch hr

end Places

/-! ## The passes of the processes -/

section Model

variable {T : Type}

/-- What is left to do of a pass. -/
def progress : Pc → Transfer
  | .copied n bytes => .counters n bytes
  | _ => .none

/-- The pass of the process inside a semaphore. -/
def transfer (s : Fifo T) (side : Side) : Transfer :=
  match s.holder side with
  | some (.proc p) => progress (s.pc p)
  | _ => .none

/-- Nobody is in the middle of a pass. -/
def Still (s : Fifo T) : Prop := ∀ p, (s.pc p).inFlight = false

/-- A copy that is about to be made is one in the buffer. -/
def Aims (s : Fifo T) (p : Proc T) : Prop :=
  ∀ buf ofs n, s.pc p = .copying buf ofs n →
    buf = s.bufadr ∧ ofs = s.byte p.side ∧ 0 ≤ n ∧ n ≤ s.fravbs p.side ∧ ofs + n ≤ s.size

/-- **THE RING IS RIGHT**. -/
structure Ring (s : Fifo T) : Prop where
  tame : s.wild = false
  clock : s.bufadr < s.clock
  live : s.freed s.bufadr = false
  aims : ∀ p, Aims s p
  place : AtPlace s.toStore (transfer s .send) (transfer s .recv) (Still s) s.rsz

section Processes

variable {s s' : Fifo T} {p q : Proc T} {pc : Pc} {side : Side}

theorem inside_of_inFlight (h : pc.inFlight = true) : pc.inside = true := by
  cases pc with
  | copying | copied => rfl
  | idle | queued | handed | loop | asleep | pass | signal | release => exact nomatch h

theorem progress_of_not_inFlight (h : pc.inFlight = false) : progress pc = .none := by
  cases pc with
  | copying | copied => exact nomatch h
  | idle | queued | handed | loop | asleep | pass | signal | release => rfl

theorem counted_transfer (s : Fifo T) (side : Side) : Transfer.Counted (transfer s side) := by
  unfold transfer
  split
  · rename_i p _
    cases s.pc p <;> trivial
  · trivial

/-- Who is inside is alone. -/
theorem alone_inside (h : Sems s) (hp : (s.pc p).inside = true)
    (hq : (s.pc q).inside = true) (hside : q.side = p.side) : q = p := by
  have hholds : s.holds p.side (.proc p) := ⟨rfl, hp⟩
  have hholds' : s.holds p.side (.proc q) := ⟨hside, hq⟩
  have h1 := ((h p.side).holds _).mpr hholds
  have h2 := ((h p.side).holds _).mpr hholds'
  rw [h1] at h2
  exact (Who.proc.inj (Option.some.inj h2)).symm

theorem transfer_of_inside (h : Sems s) (hp : (s.pc p).inside = true) :
    transfer s p.side = progress (s.pc p) := by
  have hholds : s.holds p.side (.proc p) := ⟨rfl, hp⟩
  unfold transfer
  rw [((h p.side).holds _).mpr hholds]

theorem transfer_none (h : Sems s)
    (hall : ∀ q : Proc T, q.side = side → progress (s.pc q) = .none) :
    transfer s side = .none := by
  unfold transfer
  split
  · rename_i p hp
    exact hall p (((h side).holds _).mp hp).1
  · rfl

/-- Only passes change the transfers. -/
theorem transfer_congr (h : Sems s) (h' : Sems s')
    (hp : ∀ q : Proc T, q.side = side → progress (s'.pc q) = progress (s.pc q)) :
    transfer s' side = transfer s side := by
  by_cases hall : ∀ q : Proc T, q.side = side → progress (s.pc q) = .none
  · rw [transfer_none h hall, transfer_none h' fun q hq => (hp q hq).trans (hall q hq)]
  · obtain ⟨q, hq⟩ := not_forall.mp hall
    obtain ⟨hside, hprog⟩ := Classical.not_imp.mp hq
    have hin : ∀ pc : Pc, progress pc ≠ .none → pc.inside = true := by
      intro pc hne
      refine inside_of_inFlight ?_
      by_contra hno
      exact hne (progress_of_not_inFlight (Bool.eq_false_of_not_eq_true hno))
    have hprog' : progress (s'.pc q) ≠ .none := by
      rw [hp q hside]
      exact hprog
    rw [← hside, transfer_of_inside h (hin _ hprog), transfer_of_inside h' (hin _ hprog'),
      hp q hside]

/-- In the middle of a pass `rtf_resize` is not moving the bytes. -/
theorem Ring.moves_none (R : Ring s) (hp : (s.pc p).inFlight = true) : s.rsz.moves = none := by
  by_contra hne
  have hno := R.place.quiet hne p
  rw [hno] at hp
  exact nomatch hp

/-- While it moves the bytes, `rtf_resize` has `rcvsem`, and `sndsem` if `semval`. -/
theorem holds_of_moves {r : Rsz} {semval : Bool} (hr : r.moves = some semval) :
    r.holds .recv = true ∧ (semval = true → r.holds .send = true) := by
  cases r with
  | get | got | setFrbs | setAvbs | setFbyte | swap | setSize =>
    obtain rfl := Option.some.inj hr
    refine ⟨rfl, ?_⟩
    rintro rfl
    rfl
  | idle | returned | semWait | queued | handed | semWaitIf | look | check | sndSignal
  | mbxSignal | rcvSignal | free | busySnd | busyRcv | busyFree => exact nomatch hr

/-- Inside `rcvsem`, a process knows that `rtf_resize` is not. -/
theorem not_rsz_holds (h : Sems s) (hp : (s.pc p).inside = true) :
    s.rsz.holds p.side ≠ true := by
  intro hr
  have hholds : s.holds p.side (.proc p) := ⟨rfl, hp⟩
  have hholds' : s.holds p.side .resizer := hr
  have h1 := ((h p.side).holds _).mpr hholds
  rw [((h p.side).holds _).mpr hholds'] at h1
  exact nomatch h1

/-- **A STEP WITHOUT A PASS** changes nothing for the ring. -/
theorem Ring.quiet (R : Ring s) (h : Sems s) (h' : Sems s') (hstore : s'.toStore = s.toStore)
    (hpc : ∀ q, s'.pc q = s.pc q ∨ (s.pc q).inFlight = false ∧ (s'.pc q).inFlight = false)
    (hplace : AtPlace s.toStore (transfer s .send) (transfer s .recv) (Still s)
      s'.rsz) : Ring s' := by
  have hprog : ∀ q, progress (s'.pc q) = progress (s.pc q) := by
    intro q
    rcases hpc q with heq | ⟨h1, h2⟩
    · rw [heq]
    · rw [progress_of_not_inFlight h1, progress_of_not_inFlight h2]
  have hstill : Still s' ↔ Still s := by
    refine forall_congr' fun q => ?_
    rcases hpc q with heq | ⟨h1, h2⟩
    · rw [heq]
    · exact iff_of_true h2 h1
  refine ⟨?_, ?_, ?_, fun q => ?_, ?_⟩
  · rw [hstore]
    exact R.tame
  · rw [hstore]
    exact R.clock
  · rw [hstore]
    exact R.live
  · intro buf ofs n hq
    rw [hstore]
    rcases hpc q with heq | ⟨-, h2⟩
    · exact R.aims q buf ofs n (heq.symm.trans hq)
    · rw [hq] at h2
      exact nomatch h2
  · rw [hstore, transfer_congr h h' fun q _ => hprog q,
      transfer_congr h h' fun q _ => hprog q, hstill]
    exact hplace

variable [DecidableEq T] in
/-- A process goes on outside a pass. -/
theorem Ring.goes (R : Ring s) (h : Sems s) (h' : Sems s') {s₀ : Fifo T}
    (hs : s' = s₀.goto p pc) (hstore : s₀.toStore = s.toStore) (hpcs : s₀.pc = s.pc)
    (hr : s₀.rsz = s.rsz) (hp : (s.pc p).inFlight = false) (hpc : pc.inFlight = false) :
    Ring s' := by
  subst hs
  refine R.quiet h h' hstore (fun q => ?_) ?_
  · show Function.update s₀.pc p pc q = _ ∨ _ ∧ (Function.update s₀.pc p pc q).inFlight = _
    rw [hpcs]
    by_cases hq : q = p
    · subst hq
      rw [Function.update_self]
      exact .inr ⟨hp, hpc⟩
    · rw [Function.update_of_ne hq]
      exact .inl rfl
  · show AtPlace _ _ _ _ s₀.rsz
    rw [hr]
    exact R.place

variable [DecidableEq T] in
/-- **A PASS BEGINS**. -/
theorem Ring.starts (R : Ring s) (h : Sems s)
    (h' : Sems (s.goto p (.copying s.bufadr (s.byte p.side) (s.tocpy p.side (s.msgSize p)))))
    (hpc : s.pc p = .pass) (hm : 0 < s.msgSize p) (hne : s.fravbs p.side ≠ 0)
    (hno : s.rsz.moves = some false → p ≠ .sender) :
    Ring (s.goto p (.copying s.bufadr (s.byte p.side) (s.tocpy p.side (s.msgSize p)))) := by
  have hin : (s.pc p).inside = true := by
    rw [hpc]
    rfl
  have hnone : s.rsz.moves = none := by
    have hnot := not_rsz_holds h hin
    match hmv : s.rsz.moves with
    | none => rfl
    | some semval =>
      have hrecv := holds_of_moves hmv
      cases p with
      | receiver t => exact absurd hrecv.1 hnot
      | sender =>
        cases semval with
        | false => exact absurd rfl (hno hmv)
        | true => exact absurd (hrecv.2 rfl) hnot
  have hset := R.place.settled hnone
  have hprog : ∀ q, progress ((s.goto p (.copying s.bufadr (s.byte p.side)
      (s.tocpy p.side (s.msgSize p)))).pc q) = progress (s.pc q) := by
    intro q
    by_cases hq : q = p
    · subst hq
      rw [goto_pc, hpc]
      rfl
    · exact congrArg progress (Function.update_of_ne hq _ _)
  refine ⟨R.tame, R.clock, R.live, fun q => ?_, ?_⟩
  · by_cases hq : q = p
    · subst hq
      intro buf ofs n hcopy
      rw [goto_pc] at hcopy
      obtain ⟨rfl, rfl, rfl⟩ := Pc.copying.inj hcopy
      obtain ⟨r, hrep, -⟩ := hset.ring
      have hbyte : s.byte q.side ≤ s.size ∧ 0 ≤ s.fravbs q.side := by
        have hs : s.size = r.buf.length := hrep.size
        have ha : s.avbs = r.used := hrep.avbs
        have hf : s.frbs = r.buf.length - r.used := hrep.frbs
        have hu := r.used_le
        cases q with
        | sender => exact ⟨hset.lbyte.2, show 0 ≤ s.frbs by omega⟩
        | receiver t =>
          have hget : s.fbyte = r.first := by
            have := (represents_still hrep (counted_transfer s _) (counted_transfer s _)).get
            exact this
          have hfirst := r.first_lt
          exact ⟨show s.fbyte ≤ s.size by omega, show 0 ≤ s.avbs by omega⟩
      refine ⟨rfl, rfl, ?_⟩
      show 0 ≤ s.tocpy q.side (s.msgSize q) ∧ s.tocpy q.side (s.msgSize q) ≤ s.fravbs q.side ∧
        s.byte q.side + s.tocpy q.side (s.msgSize q) ≤ s.size
      unfold Store.tocpy
      dsimp only
      split_ifs <;> refine ⟨?_, ?_, ?_⟩ <;> omega
    · intro buf ofs n hcopy
      exact R.aims q buf ofs n ((Function.update_of_ne hq _ _).symm.trans hcopy)
  · rw [transfer_congr h h' fun q _ => hprog q, transfer_congr h h' fun q _ => hprog q]
    exact R.place.pass hnone (Alone.refl _) hset fun _ => rfl

variable [DecidableEq T] in
/-- **A PASS GOES ON**. -/
theorem Ring.passes (R : Ring s) (h : Sems s) (h' : Sems s')
    (hp : (s.pc p).inFlight = true) (hpc : s'.pc = Function.update s.pc p pc)
    (hin : pc.inside = true) (hno : ∀ buf ofs n, pc ≠ .copying buf ofs n)
    (hr : s'.rsz = s.rsz) (ha : Alone s.toStore s'.toStore) (htame : s'.wild = false)
    (hset : Settled s'.toStore (Function.update (transfer s) p.side (progress pc) .send)
      (Function.update (transfer s) p.side (progress pc) .recv))
    (hother : ∀ side, side ≠ p.side →
      s'.byte side = s.byte side ∧ s.fravbs side ≤ s'.fravbs side) : Ring s' := by
  have hnone := R.moves_none hp
  have hins := inside_of_inFlight hp
  have hself : s'.pc p = pc := by
    rw [hpc, Function.update_self]
  have htransfer : ∀ side,
      transfer s' side = Function.update (transfer s) p.side (progress pc) side := by
    intro side
    by_cases hside : side = p.side
    · rw [hside, Function.update_self, transfer_of_inside h' (by rw [hself]; exact hin), hself]
    · rw [Function.update_of_ne hside]
      refine transfer_congr h h' fun q hq => ?_
      have hqp : q ≠ p := by
        rintro rfl
        exact hside hq.symm
      rw [hpc, Function.update_of_ne hqp]
  refine ⟨htame, ?_, ?_, fun q => ?_, ?_⟩
  · rw [ha.bufadr, ha.clock]
    exact R.clock
  · rw [ha.bufadr, ha.freed]
    exact R.live
  · intro buf ofs n hcopy
    by_cases hq : q = p
    · rw [hq, hself] at hcopy
      exact absurd hcopy (hno buf ofs n)
    rw [hpc, Function.update_of_ne hq] at hcopy
    obtain ⟨h1, h2, h3, h4, h5⟩ := R.aims q buf ofs n hcopy
    have hside : q.side ≠ p.side := by
      intro hside
      refine hq (alone_inside h hins ?_ hside)
      rw [hcopy]
      rfl
    obtain ⟨hbyte, hroom⟩ := hother _ hside
    refine ⟨h1.trans ha.bufadr.symm, h2.trans hbyte.symm, h3, h4.trans hroom, ?_⟩
    rw [ha.size]
    exact h5
  · rw [htransfer, htransfer, hr]
    refine R.place.pass hnone ha hset fun hholds => ?_
    -- the receivers are outside
    cases p with
    | sender => exact (hother .recv nofun).1
    | receiver t => exact absurd hholds (not_rsz_holds h hins)

variable [DecidableEq T] in
/-- **THE COPY OF A PASS**. -/
theorem Ring.copies (R : Ring s) (h : Sems s) (h' : Sems s') {buf : Nat} {ofs n : Int}
    (hpc : s.pc p = .copying buf ofs n) (hs : procStep s p = some s') : Ring s' := by
  obtain ⟨rfl, rfl, hn, hroom, hfit⟩ := R.aims p buf ofs n hpc
  have hp : (s.pc p).inFlight = true := by
    rw [hpc]
    rfl
  have hprog : transfer s p.side = .none := by
    rw [transfer_of_inside h (inside_of_inFlight hp), hpc]
    rfl
  have hset := R.place.settled (R.moves_none hp)
  obtain ⟨r, hrep, hcont⟩ := hset.ring
  have hwild : { s.toStore with wild := s.wild || s.bufadr != s.bufadr } =
      s.toStore := by
    rw [bne_self_eq_false, Bool.or_false]
  unfold procStep at hs
  rw [hpc] at hs
  dsimp only at hs
  rw [hwild] at hs
  cases p with
  | sender =>
    have hprog' : transfer s .send = .none := hprog
    rw [hprog'] at hrep
    obtain ⟨bytes, r', hwrite, hrep', hr'⟩ := write_represents hrep hset.lbyte.1 hn
      hroom hfit R.tame R.live s.msg
    dsimp only at hs
    obtain rfl := Option.some.inj hs
    have hstore : s.write s.bufadr (s.byte .send) n s.msg =
      { s.toStore with
        mem := Function.update s.mem s.bufadr bytes
        wild := false } := hwrite
    refine R.passes h h' hp rfl rfl nofun rfl ?_ ?_ ⟨?_, r', ?_, ?_⟩ ?_
    · show Alone s.toStore (s.write s.bufadr (s.byte .send) n s.msg)
      rw [hstore]
      exact ⟨rfl, rfl, rfl, rfl, rfl, fun m hm => Function.update_of_ne hm _ _⟩
    · show (s.write s.bufadr (s.byte .send) n s.msg).wild = false
      rw [hstore]
    · show 0 ≤ (s.write s.bufadr (s.byte .send) n s.msg).lbyte ∧
        (s.write s.bufadr (s.byte .send) n s.msg).lbyte ≤
          (s.write s.bufadr (s.byte .send) n s.msg).size
      rw [hstore]
      exact hset.lbyte
    · show Represents (s.write s.bufadr (s.byte .send) n s.msg).mbx _ _ _
      rw [hstore, mbx_write]
      exact hrep'
    · show _ = (s.write s.bufadr (s.byte .send) n s.msg).stream
      rw [hstore]
      exact hr'.trans hcont
    · intro side hside
      show (s.write s.bufadr (s.byte .send) n s.msg).byte side = _ ∧
        _ ≤ (s.write s.bufadr (s.byte .send) n s.msg).fravbs side
      rw [hstore]
      cases side with
      | send => exact absurd rfl hside
      | recv => exact ⟨rfl, le_refl s.avbs⟩
  | receiver t =>
    have hprog' : transfer s .recv = .none := hprog
    rw [hprog'] at hrep
    obtain ⟨bytes, hread, hrep'⟩ := read_represents hrep hn hroom hfit R.live
    have hread' : s.read s.bufadr (s.byte (Proc.receiver t).side) n =
      (s.toStore, bytes) := hread
    dsimp only at hs
    rw [hread'] at hs
    obtain rfl := Option.some.inj hs
    refine R.passes h h' hp rfl rfl nofun rfl (Alone.refl _) R.tame
      ⟨hset.lbyte, r, hrep', hcont⟩ fun side _ => ⟨rfl, le_refl _⟩

variable [DecidableEq T] in
/-- **THE COUNTERS OF A PASS**. -/
theorem Ring.counts (R : Ring s) (h : Sems s) (h' : Sems s') {n : Int}
    {bytes : List UInt8} (hpc : s.pc p = .copied n bytes)
    (hs : procStep s p = some s') : Ring s' := by
  have hp : (s.pc p).inFlight = true := by
    rw [hpc]
    rfl
  have hprog : transfer s p.side = .counters n bytes := by
    rw [transfer_of_inside h (inside_of_inFlight hp), hpc]
    rfl
  have hset := R.place.settled (R.moves_none hp)
  obtain ⟨r, hrep, hcont⟩ := hset.ring
  unfold procStep at hs
  rw [hpc] at hs
  dsimp only at hs
  cases p with
  | sender =>
    have hprog' : transfer s .send = .counters n bytes := hprog
    rw [hprog'] at hrep
    obtain ⟨-, hn, -, -, -⟩ := hrep.put
    obtain ⟨hl, r', hrep', hr'⟩ := put_represents hrep hset.lbyte
    dsimp only at hs
    obtain rfl := Option.some.inj hs
    refine R.passes h h' hp rfl rfl nofun rfl ⟨rfl, rfl, rfl, rfl, rfl, fun _ _ => rfl⟩
      R.tame ⟨hl, r', hrep', ?_⟩ ?_
    · rw [hr', hcont]
      rfl
    · intro side hside
      cases side with
      | send => exact absurd rfl hside
      | recv => exact ⟨rfl, show s.avbs ≤ s.avbs + n by omega⟩
  | receiver t =>
    have hprog' : transfer s .recv = .counters n bytes := hprog
    rw [hprog'] at hrep
    obtain ⟨-, hn, -, -, -⟩ := hrep.get
    obtain ⟨r', hrep', hr'⟩ := get_represents hrep
    dsimp only at hs
    obtain rfl := Option.some.inj hs
    refine R.passes h h' hp rfl rfl nofun rfl ⟨rfl, rfl, rfl, rfl, rfl, fun _ _ => rfl⟩
      R.tame ⟨hset.lbyte, r', hrep', ?_⟩ ?_
    · show r'.contents = s.stream.drop n.toNat
      rw [← hcont, hr', hn, Int.toNat_natCast, List.drop_left]
    · intro side hside
      cases side with
      | recv => exact absurd rfl hside
      | send => exact ⟨rfl, show s.frbs ≤ s.frbs + n by omega⟩

variable [DecidableEq T] in
/-- A signal is no pass. -/
theorem signal_quiet (h : Sems s) (side : Side) : (s.mbxSemSignal side).toStore = s.toStore ∧
      (∀ q, (s.mbxSemSignal side).pc q = s.pc q ∨
        (s.pc q).inFlight = false ∧ ((s.mbxSemSignal side).pc q).inFlight = false) ∧
      ∀ store put get still, AtPlace store put get still s.rsz →
        AtPlace store put get still (s.mbxSemSignal side).rsz := by
  cases hqueue : s.queue side with
  | nil =>
    have hsig : s.mbxSemSignal side =
        { s with
          semFree := Function.update s.semFree side true
          holder := Function.update s.holder side none } := by
      unfold Fifo.mbxSemSignal
      rw [hqueue]
    rw [hsig]
    exact ⟨rfl, fun _ => .inl rfl, fun _ _ _ _ hplace => hplace⟩
  | cons w rest =>
    have hsig : s.mbxSemSignal side = s.hand side rest w := by
      unfold Fifo.mbxSemSignal
      rw [hqueue]
    have hwait : s.waits side w := by
      refine ((h side).waits w).mp ?_
      rw [hqueue]
      exact List.mem_cons_self
    rw [hsig]
    cases w with
    | proc p =>
      refine ⟨rfl, fun q => ?_, fun _ _ _ _ hplace => hplace⟩
      show Function.update s.pc p .handed q = _ ∨
        _ ∧ (Function.update s.pc p .handed q).inFlight = _
      by_cases hq : q = p
      · subst hq
        rw [Function.update_self, hwait.2]
        exact .inr ⟨rfl, rfl⟩
      · rw [Function.update_of_ne hq]
        exact .inl rfl
    | resizer =>
      obtain ⟨-, x, hx⟩ := hwait
      refine ⟨rfl, fun _ => .inl rfl, fun store put get still hplace => ?_⟩
      rw [hx] at hplace
      unfold Fifo.hand
      dsimp only
      rw [hx]
      exact hplace

/-! ## The steps of the processes -/

variable [DecidableEq T] in
theorem Ring.procCall (R : Ring s) (h : Sems s) (h' : Sems s') {msg : Nat → UInt8}
    {msgSize : Int} {i : Nat} (hs : procCall s p msg msgSize i = some s') : Ring s' := by
  unfold RtaiFifoResize.procCall at hs
  split at hs
  case isFalse => exact nomatch hs
  case isTrue hpc =>
    have hp : (s.pc p).inFlight = false := by
      rw [hpc]
      rfl
    dsimp only at hs
    generalize (if p = Proc.sender then msg else s.msg) = m at hs
    split at hs <;> obtain rfl := Option.some.inj hs
    · exact R.goes h h' rfl rfl rfl rfl hp rfl
    · exact R.goes h h' rfl rfl rfl rfl hp rfl

variable [DecidableEq T] in
theorem Ring.procStep (R : Ring s) (h : Sems s) (h' : Sems s') (ha : Meets s (.step p))
    (hs : procStep s p = some s') : Ring s' := by
  have hstep := hs
  unfold RtaiFifoResize.procStep at hs
  split at hs
  case h_1 hpc =>
    have hp : (s.pc p).inFlight = false := by
      rw [hpc]
      rfl
    split at hs
    · obtain rfl := Option.some.inj hs
      exact R.goes h h' rfl rfl rfl rfl hp rfl
    · split at hs <;> obtain rfl := Option.some.inj hs
      · exact R.goes h h' rfl rfl rfl rfl hp rfl
      · exact R.goes h h' rfl rfl rfl rfl hp rfl
  case h_2 hpc =>
    split at hs
    case isTrue hcond =>
      obtain rfl := Option.some.inj hs
      refine R.starts h h' hpc hcond.1 hcond.2 fun hmv hsender => ?_
      refine ha hmv hsender hpc ⟨hcond.1, ?_⟩
      subst hsender
      exact hcond.2
    case isFalse =>
      obtain rfl := Option.some.inj hs
      refine R.goes h h' rfl rfl rfl rfl ?_ rfl
      rw [hpc]
      rfl
  case h_3 hpc => exact R.copies h h' hpc hstep
  case h_4 hpc => exact R.counts h h' hpc hstep
  case h_5 hpc =>
    obtain rfl := Option.some.inj hs
    refine R.goes h h' rfl rfl rfl rfl ?_ rfl
    rw [hpc]
    rfl
  case h_6 hpc =>
    obtain rfl := Option.some.inj hs
    obtain ⟨hstore, hpcs, hplace⟩ := signal_quiet h p.side
    refine R.quiet h h' hstore (fun q => ?_) (hplace _ _ _ _ R.place)
    by_cases hq : q = p
    · subst hq
      rw [goto_pc, hpc]
      exact .inr ⟨rfl, rfl⟩
    · rw [show ((s.mbxSemSignal p.side).goto p .idle).pc q =
        (s.mbxSemSignal p.side).pc q from Function.update_of_ne hq _ _]
      exact hpcs q
  case h_7 => exact nomatch hs

variable [DecidableEq T] in
/-- Giving up changes only the semaphore. -/
theorem giveUp_fields (s : Fifo T) (side : Side) (w : Who T) :
    (s.giveUp side w).toStore = s.toStore ∧ (s.giveUp side w).pc = s.pc ∧
      (s.giveUp side w).rsz = s.rsz := by
  unfold Fifo.giveUp
  dsimp only
  split <;> exact ⟨rfl, rfl, rfl⟩

variable [DecidableEq T] in
/-- A queued process gives up. -/
theorem Ring.givesUp (R : Ring s) (h : Sems s) (hpc : s.pc p = .queued)
    (h' : Sems ((s.giveUp p.side (.proc p)).goto p .idle)) :
    Ring ((s.giveUp p.side (.proc p)).goto p .idle) := by
  obtain ⟨hstore, hpcs, hr⟩ := giveUp_fields s p.side (.proc p)
  refine R.goes h h' rfl hstore hpcs hr ?_ rfl
  rw [hpc]
  rfl

variable [DecidableEq T] in
theorem Ring.procWake (R : Ring s) (h : Sems s) (h' : Sems s')
    (hs : procWake s p = some s') : Ring s' := by
  unfold RtaiFifoResize.procWake at hs
  split at hs
  case h_1 hpc =>
    obtain rfl := Option.some.inj hs
    exact R.givesUp h hpc h'
  case h_2 hpc =>
    obtain rfl := Option.some.inj hs
    refine R.goes h h' rfl rfl rfl rfl ?_ rfl
    rw [hpc]
    rfl
  case h_3 hpc =>
    have hp : (s.pc p).inFlight = false := by
      rw [hpc]
      rfl
    split at hs <;> obtain rfl := Option.some.inj hs
    · exact R.goes h h' rfl rfl rfl rfl hp rfl
    · exact R.goes h h' rfl rfl rfl rfl hp rfl
  case h_4 => exact nomatch hs

variable [DecidableEq T] in
theorem Ring.procInterrupt (R : Ring s) (h : Sems s) (h' : Sems s')
    (hs : procInterrupt s p = some s') : Ring s' := by
  unfold RtaiFifoResize.procInterrupt at hs
  split at hs
  case h_1 hpc =>
    obtain rfl := Option.some.inj hs
    exact R.givesUp h hpc h'
  case h_2 hpc =>
    obtain rfl := Option.some.inj hs
    refine R.goes h h' rfl rfl rfl rfl ?_ rfl
    rw [hpc]
    rfl
  case h_3 hpc =>
    obtain rfl := Option.some.inj hs
    refine R.goes h h' rfl rfl rfl rfl ?_ rfl
    rw [hpc]
    rfl
  case h_4 => exact nomatch hs

/-! ## The steps of `rtf_resize` -/

/-- `rtf_resize` writes. -/
theorem Ring.resized (R : Ring s) (h : Sems s) (h' : Sems s') (hpc : s'.pc = s.pc)
    (htame : s'.wild = false) (hclock : s'.bufadr < s'.clock)
    (hlive : s'.freed s'.bufadr = false) (haims : ∀ p, Aims s p → Aims s' p)
    (hplace : AtPlace s'.toStore (transfer s .send) (transfer s .recv) (Still s) s'.rsz) :
    Ring s' := by
  refine ⟨htame, hclock, hlive, fun p => haims p (R.aims p), ?_⟩
  have hprog : ∀ q, progress (s'.pc q) = progress (s.pc q) := fun q => by rw [hpc]
  have hstill : Still s' = Still s := by
    unfold Still
    rw [hpc]
  rw [transfer_congr h h' fun q _ => hprog q, transfer_congr h h' fun q _ => hprog q, hstill]
  exact hplace

/-- It writes while nobody is in the middle of a pass. -/
theorem Ring.writes (R : Ring s) (h : Sems s) (h' : Sems s') (hstill : Still s)
    (hpc : s'.pc = s.pc) (htame : s'.wild = false) (hclock : s'.bufadr < s'.clock)
    (hlive : s'.freed s'.bufadr = false)
    (hplace : AtPlace s'.toStore (transfer s .send) (transfer s .recv) (Still s) s'.rsz) :
    Ring s' := by
  refine R.resized h h' hpc htame hclock hlive (fun p _ buf ofs n hcopy => ?_) hplace
  have hno := hstill p
  rw [← hpc, hcopy] at hno
  exact nomatch hno

theorem Ring.rtfResize (R : Ring s) (h : Sems s) (h' : Sems s') {size : Int}
    {got : Bool} (hs : rtfResize s size got = some s') : Ring s' := by
  unfold RtaiFifoResize.rtfResize at hs
  split at hs
  case h_1 hr =>
    have hplace := R.place
    rw [hr] at hplace
    have hset : Settled s.toStore (transfer s .send) (transfer s .recv) := hplace
    dsimp only at hs
    split at hs
    · obtain rfl := Option.some.inj hs
      exact R.resized h h' rfl R.tame R.clock R.live (fun _ ha => ha)
        ⟨⟨hset.lbyte, hset.ring⟩, fun hv => absurd hv (by decide), fun _ => rfl⟩
    · split at hs
      · obtain rfl := Option.some.inj hs
        exact R.resized h h' rfl R.tame R.clock R.live (fun _ ha => ha)
          ⟨⟨hset.lbyte, hset.ring⟩, fun hv => absurd hv (by decide), fun _ => rfl⟩
      · rename_i hne hcond
        obtain rfl := Option.some.inj hs
        have hother : s.bufadr ≠ s.clock := ne_of_lt R.clock
        refine R.resized h h' rfl R.tame (Nat.lt_succ_of_lt R.clock) ?_
          (fun _ ha => ha) ⟨⟨hset.lbyte, ?_⟩, ⟨Nat.lt_succ_self _, ?_, ?_, ?_⟩,
            hother.symm, rfl⟩
        · exact (Function.update_of_ne hother _ _).trans R.live
        · obtain ⟨r, hrep, hcont⟩ := hset.ring
          refine ⟨r, ?_, hcont⟩
          have hbuf : Function.update s.mem s.clock (List.replicate size.toNat 0)
              s.bufadr = s.mem s.bufadr := Function.update_of_ne hother _ _
          exact ⟨hrep.size, hbuf.trans hrep.bufadr, hrep.avbs, hrep.frbs, hrep.put, hrep.get⟩
        · exact Function.update_self _ _ _
        · show ((Function.update s.mem s.clock (List.replicate size.toNat 0)
            s.clock).length : Int) = size
          rw [Function.update_self, List.length_replicate]
          omega
        · show 0 < size
          omega
  case h_2 hr =>
    obtain rfl := Option.some.inj hs
    have hplace := R.place
    rw [hr] at hplace
    exact R.resized h h' rfl R.tame R.clock R.live (fun _ ha => ha) hplace.1
  case h_3 => exact nomatch hs

section Bytes

variable {t t' : Store} {x : Locals} {r : RingBuffer UInt8} {semval : Bool}
  {still : Prop} {oldbuf k : Nat} {bytes : List UInt8}

theorem Spare.frame (h : Spare t x) (hmem : t'.mem x.newbuf = t.mem x.newbuf)
    (hclock : t'.clock = t.clock) (hfreed : t'.freed x.newbuf = t.freed x.newbuf) :
    Spare t' x := by
  refine ⟨?_, hfreed.trans h.live, ?_, h.pos⟩
  · rw [hclock]
    exact h.clock
  · rw [hmem]
    exact h.length

theorem Moving.frame (h : Moving t still x semval) (hsize : t'.size = t.size)
    (hstream : t'.stream = t.stream) (hmem : t'.mem x.newbuf = t.mem x.newbuf)
    (hclock : t'.clock = t.clock) (hfreed : t'.freed = t.freed) :
    Moving t' still x semval := by
  refine ⟨h.still, fun hv => ?_, ?_, h.spare.frame hmem hclock (congrFun hfreed _)⟩
  · rw [hsize]
    exact h.size hv
  · rw [hstream]
    exact h.fits

/-- The bytes of a pass are copied to the new buffer. -/
theorem write_spare (h : Spare t x) (hfit : (k : Int) + bytes.length ≤ x.size) :
    t.write x.newbuf k bytes.length (fun i => bytes.getD i 0) =
      { t with
        mem := Function.update t.mem x.newbuf (store (t.mem x.newbuf) k bytes) } := by
  have hmap : (List.range bytes.length).map (fun i => bytes.getD i 0) = bytes := by
    refine List.ext_getElem (by simp) fun i hi hi' => ?_
    rw [List.getElem_map, List.getElem_range, List.getD_eq_getElem _ _ hi']
  have hlen := h.length
  have hto : memcpyTo (t.mem x.newbuf) k bytes.length (fun i => bytes.getD i 0) =
      some (store (t.mem x.newbuf) k bytes) := by
    unfold memcpyTo
    rw [if_pos ⟨by omega, by omega, by omega⟩, Int.toNat_natCast, Int.toNat_natCast, hmap]
  unfold Store.write
  rw [hto]
  dsimp only
  rw [h.live, Bool.or_false]

theorem take_store (hfit : k + bytes.length ≤ (t.mem x.newbuf).length) :
    (store (t.mem x.newbuf) k bytes).take k = (t.mem x.newbuf).take k ∧
      (store (t.mem x.newbuf) k bytes).take (k + bytes.length) =
        (t.mem x.newbuf).take k ++ bytes := by
  have hlen : ((t.mem x.newbuf).take k).length = k := by
    rw [List.length_take]
    omega
  have hlen' : ((t.mem x.newbuf).take k ++ bytes).length = k + bytes.length := by
    rw [List.length_append, hlen]
  unfold store
  constructor
  · rw [List.append_assoc, List.take_append_of_le_length hlen.ge,
      List.take_of_length_le hlen.le]
  · rw [List.take_append_of_le_length hlen'.ge, List.take_of_length_le hlen'.le]

/-- **THE NEW BUFFER IS THE RING**. -/
theorem settled_of_copied (hm : Moving t still x semval) (hc : Copied t x)
    (hcount : Counted t x) (hf : t.fbyte = 0) (hb : t.bufadr = x.newbuf)
    (hs : t'.size = x.size) (hsame : t' = { t with size := t'.size, touched := t'.touched }) :
    Settled t' .none .none := by
  obtain ⟨hfr, hav, hlb⟩ := hcount
  have hlen := hm.spare.length
  have hpos := hm.spare.pos
  have hfits := hm.fits
  have hlbyte : t'.lbyte = t.stream.length := by
    rw [hsame]
    exact hlb
  have hmem : t'.mem t'.bufadr = t.mem x.newbuf := by
    rw [hsame, ← hb]
  refine ⟨by omega, ⟨t.mem x.newbuf, 0, t.stream.length, by omega, by omega⟩,
    ⟨?_, hmem, ?_, ?_, ?_, ?_⟩, ?_⟩
  · exact hs.trans hlen.symm
  · show t'.avbs = (t.stream.length : Int)
    rw [hsame]
    exact hav
  · show t'.frbs = ((t.mem x.newbuf).length : Int) - t.stream.length
    rw [hsame, hlen]
    exact hfr
  · show t'.lbyte % t'.size = (wrap (t.mem x.newbuf).length (0 + t.stream.length) : Nat)
    rw [hlbyte, hs, ← hlen]
    unfold wrap
    split
    · rw [Int.emod_eq_of_lt (by omega) (by omega)]
      omega
    · rw [show (t.stream.length : Int) = (t.mem x.newbuf).length by omega, Int.emod_self]
      omega
  · show t'.fbyte = ((0 : Nat) : Int)
    rw [hsame]
    exact hf
  · show ((t.mem x.newbuf).rotate 0).take t.stream.length = t'.stream
    rw [List.rotate_zero, hsame]
    exact hc

end Bytes

variable [DecidableEq T] in
theorem Ring.signals (R : Ring s) (h : Sems s) {side : Side} {r : Rsz}
    (h' : Sems { s.mbxSemSignal side with rsz := r })
    (hplace : AtPlace s.toStore (transfer s .send) (transfer s .recv) (Still s) r) :
    Ring { s.mbxSemSignal side with rsz := r } := by
  obtain ⟨hstore, hpcs, -⟩ := signal_quiet h side
  exact R.quiet h h' hstore hpcs hplace

/-- `rtf_resize` goes on without writing. -/
theorem Ring.proceeds (R : Ring s) (h : Sems s) (h' : Sems s')
    (hstore : s'.toStore = s.toStore) (hpc : s'.pc = s.pc)
    (hplace : AtPlace s.toStore (transfer s .send) (transfer s .recv) (Still s) s'.rsz) :
    Ring s' :=
  R.quiet h h' hstore (fun q => .inl (congrFun hpc q)) hplace

/-- **THE MOVE BEGINS**. -/
theorem Ring.begins (R : Ring s) (h : Sems s) {x : Locals} {semval : Bool}
    (hr : s.rsz = .check x semval) (hfits : s.avbs ≤ x.size)
    (ha : semval = false → (s.pc .sender).inFlight = false ∧ s.size ≤ x.size) :
    AtPlace s.toStore (transfer s .send) (transfer s .recv) (Still s) (.get x semval 0) := by
  have hplace := R.place
  rw [hr] at hplace
  obtain ⟨hset, hspare, hne, -⟩ := hplace
  obtain ⟨r, hrep, hcont⟩ := hset.ring
  have hlen : s.stream.length = r.used := by
    rw [← hcont, r.length_contents]
  have havbs : s.avbs = r.used := hrep.avbs
  have hout : ∀ p : Proc T, s.rsz.holds p.side = true → (s.pc p).inFlight = false := by
    intro p hholds
    refine Bool.eq_false_of_not_eq_true fun hp => ?_
    exact not_rsz_holds h (inside_of_inFlight hp) hholds
  have hstill : Still s := by
    intro p
    cases p with
    | receiver t =>
      refine hout _ ?_
      rw [hr]
      rfl
    | sender =>
      cases semval with
      | false => exact (ha rfl).1
      | true =>
        refine hout _ ?_
        rw [hr]
        rfl
  refine ⟨⟨hstill, fun hv => (ha hv).2, by omega, hspare⟩, hne, r, 0, rfl, ?_, ?_, ?_⟩
  · exact represents_still hrep (counted_transfer s _) (counted_transfer s _)
  · rw [List.take_zero, List.nil_append]
    exact hcont
  · omega

/-- **A PASS TO THE NEW BUFFER**. -/
theorem Ring.gets (R : Ring s) (h : Sems s) {x : Locals} {semval : Bool} {j : Int}
    (hr : s.rsz = .get x semval j) (hcond : x.size - j > 0 ∧ s.avbs ≠ 0)
    (h' : Sems { s with
      toStore := (s.read s.bufadr s.fbyte (s.tocpy .recv (x.size - j))).1.write x.newbuf j
        (s.tocpy .recv (x.size - j))
        fun i => (s.read s.bufadr s.fbyte (s.tocpy .recv (x.size - j))).2.getD i 0
      rsz := .got x semval j (s.tocpy .recv (x.size - j)) }) :
    Ring { s with
      toStore := (s.read s.bufadr s.fbyte (s.tocpy .recv (x.size - j))).1.write x.newbuf j
        (s.tocpy .recv (x.size - j))
        fun i => (s.read s.bufadr s.fbyte (s.tocpy .recv (x.size - j))).2.getD i 0
      rsz := .got x semval j (s.tocpy .recv (x.size - j)) } := by
  have hplace := R.place
  rw [hr] at hplace
  obtain ⟨hm, hne, r, k, rfl, hrep, htake, hlen⟩ := hplace
  have hfirst := r.first_lt
  have hused := r.used_le
  have hs : s.size = r.buf.length := hrep.size
  have ha : s.avbs = r.used := hrep.avbs
  have hget : s.fbyte = r.first := hrep.get
  obtain ⟨hpos, hle, hend, hroom⟩ := tocpy_bounds (x := s.mbx) (d := .recv) hcond.1
    (show (0 : Int) ≤ s.avbs by omega) hcond.2 (show s.fbyte < s.size by omega)
  have hsame : s.mbx.tocpy .recv (x.size - k) = s.tocpy .recv (x.size - k) := rfl
  rw [hsame] at hpos hle hend hroom
  generalize s.tocpy .recv (x.size - k) = n at hpos hle hend hroom h' ⊢
  obtain ⟨bytes, hread, hrep'⟩ := read_represents hrep hpos.le hroom hend R.live
  obtain ⟨-, hn, -, -, -⟩ := hrep'.get
  rw [hread] at h' ⊢
  dsimp only at h' ⊢
  subst hn
  have hspare := hm.spare.length
  have hfit : k + bytes.length ≤ (s.mem x.newbuf).length := by omega
  have hfit' : (k : Int) + bytes.length ≤ x.size := by omega
  have hwrite := write_spare hm.spare hfit'
  rw [hwrite] at h' ⊢
  obtain ⟨htake₁, htake₂⟩ := take_store hfit
  have hself : Function.update s.mem x.newbuf (store (s.mem x.newbuf) k bytes) x.newbuf =
      store (s.mem x.newbuf) k bytes := Function.update_self _ _ _
  have hbuf : Function.update s.mem x.newbuf (store (s.mem x.newbuf) k bytes) s.bufadr =
      s.mem s.bufadr := Function.update_of_ne hne.symm _ _
  refine R.writes h h' hm.still rfl R.tame R.clock R.live ⟨⟨hm.still, hm.size, hm.fits, hm.spare.clock,
      hm.spare.live, ?_, hm.spare.pos⟩, hne, r, bytes, k, rfl, ?_, ?_, hlen, ?_⟩
  · show ((Function.update s.mem x.newbuf _ x.newbuf).length : Int) = x.size
    rw [hself, length_store hfit]
    exact hm.spare.length
  · exact ⟨hrep'.size, hbuf.trans hrep'.bufadr, hrep'.avbs, hrep'.frbs, hrep'.put, hrep'.get⟩
  · show (Function.update s.mem x.newbuf _ x.newbuf).take k ++ r.contents = s.stream
    rw [hself, htake₁]
    exact htake
  · show (Function.update s.mem x.newbuf _ x.newbuf).take (k + bytes.length) =
      (Function.update s.mem x.newbuf _ x.newbuf).take k ++ bytes
    rw [hself, htake₁, htake₂]

/-- **THE LAST WRITES** but for the size. -/
theorem Ring.installs (R : Ring s) (h : Sems s) (h' : Sems s') {x : Locals}
    {semval : Bool} {oldbuf : Nat} {r : Rsz} (hr : s.rsz = .setSize x semval oldbuf)
    (hpc : s'.pc = s.pc) (hsize : s'.size = x.size)
    (hsame : s'.toStore =
      { s.toStore with size := s'.size, touched := s'.touched })
    (hrsz : s'.rsz = r)
    (hplace : ∀ store put get still, Settled store put get → Installed store x oldbuf →
      store.fbyte = 0 → AtPlace store put get still r) : Ring s' := by
  have hat := R.place
  rw [hr] at hat
  obtain ⟨hm, hcopied, hcounted, hfbyte, hbuf, hold⟩ := hat
  have hnone : ∀ side, transfer s side = .none := fun side =>
    transfer_none h fun q _ => progress_of_not_inFlight (hm.still q)
  have hset := settled_of_copied hm hcopied hcounted hfbyte hbuf hsize hsame
  have hbuf' : s'.bufadr = s.bufadr := by
    rw [hsame]
  refine R.writes h h' hm.still hpc ?_ ?_ ?_ ?_
  · rw [hsame]
    exact R.tame
  · rw [hsame]
    exact R.clock
  · rw [hsame]
    exact R.live
  · rw [hnone, hnone, hrsz]
    refine hplace _ _ _ _ hset ⟨hsize, hm.spare.pos, hbuf'.trans hbuf, ?_⟩ ?_
    · rw [hbuf']
      exact hold
    · rw [hsame]
      exact hfbyte

variable [DecidableEq T] in
theorem Ring.rszStep (R : Ring s) (h : Sems s) (h' : Sems s') {i : Nat}
    (ha : Meets s (.rszStep i)) (hs : rszStep s i = some s') : Ring s' := by
  have hplace := R.place
  unfold RtaiFifoResize.rszStep at hs
  split at hs
  case h_1 x hr =>
    rw [hr] at hplace
    split at hs <;> obtain rfl := Option.some.inj hs
    · exact R.proceeds h h' rfl rfl hplace
    · exact R.proceeds h h' rfl rfl hplace
  case h_2 x hr =>
    rw [hr] at hplace
    split at hs <;> obtain rfl := Option.some.inj hs
    · exact R.proceeds h h' rfl rfl hplace
    · exact R.proceeds h h' rfl rfl hplace
  case h_3 x hr =>
    rw [hr] at hplace
    split at hs <;> obtain rfl := Option.some.inj hs
    · exact R.proceeds h h' rfl rfl hplace
    · exact R.proceeds h h' rfl rfl hplace
  -- the bytes have to fit into the new buffer
  case h_4 x semval hr =>
    rw [hr] at hplace
    split at hs
    case isTrue hlt =>
      split at hs <;> obtain rfl := Option.some.inj hs
      · exact R.proceeds h h' rfl rfl hplace
      · exact R.proceeds h h' rfl rfl hplace
    case isFalse hle =>
      obtain rfl := Option.some.inj hs
      refine R.proceeds h h' rfl rfl (R.begins h hr (by omega) ?_)
      rintro rfl
      exact (ha x hr).resolve_left hle
  case h_5 x semval j hr =>
    split at hs
    case isTrue hcond =>
      dsimp only at hs
      obtain rfl := Option.some.inj hs
      exact R.gets h hr hcond h'
    case isFalse hcond =>
      obtain rfl := Option.some.inj hs
      rw [hr] at hplace
      obtain ⟨hm, hne, r, k, rfl, hrep, htake, hlen⟩ := hplace
      have havbs : s.avbs = r.used := hrep.avbs
      have hfits := hm.fits
      have hzero : r.used = 0 := by omega
      have hnil : r.contents = [] :=
        List.eq_nil_of_length_eq_zero (r.length_contents.trans hzero)
      rw [hnil, List.append_nil] at htake
      have hk : k = s.stream.length := by omega
      subst hk
      exact R.proceeds h h' rfl rfl ⟨hm, hne, htake, rfl⟩
  -- the bytes read are the next ones of the stream
  case h_6 x semval j n hr =>
    obtain rfl := Option.some.inj hs
    rw [hr] at hplace
    obtain ⟨hm, hne, r, bytes, k, rfl, hrep, htake, hlen, hbytes⟩ := hplace
    obtain ⟨-, rfl, -, -, -⟩ := hrep.get
    obtain ⟨r', hrep', hr'⟩ := get_represents hrep
    have hused := congrArg List.length hr'
    rw [List.length_append, r.length_contents, r'.length_contents] at hused
    refine R.writes h h' hm.still rfl R.tame R.clock R.live
      ⟨hm.frame rfl rfl rfl rfl rfl, hne, r', k + bytes.length, rfl, hrep', ?_, ?_⟩
    · show (s.mem x.newbuf).take _ ++ r'.contents = s.stream
      rw [hbytes, List.append_assoc, ← hr']
      exact htake
    · show _ = s.stream.length
      omega
  case h_7 x semval left hr =>
    obtain rfl := Option.some.inj hs
    rw [hr] at hplace
    obtain ⟨hm, hne, hcopied, hleft⟩ := hplace
    exact R.writes h h' hm.still rfl R.tame R.clock R.live
      ⟨hm.frame rfl rfl rfl rfl rfl, hne, hcopied, hleft⟩
  case h_8 x semval hr =>
    obtain rfl := Option.some.inj hs
    rw [hr] at hplace
    obtain ⟨hm, hne, hcopied, hfrbs⟩ := hplace
    have hrest : x.size - s.frbs = s.stream.length := by omega
    exact R.writes h h' hm.still rfl R.tame R.clock R.live
      ⟨hm.frame rfl rfl rfl rfl rfl, hne, hcopied, hfrbs, hrest, hrest⟩
  case h_9 x semval hr =>
    obtain rfl := Option.some.inj hs
    rw [hr] at hplace
    obtain ⟨hm, hne, hcopied, hcounted⟩ := hplace
    exact R.writes h h' hm.still rfl R.tame R.clock R.live
      ⟨hm.frame rfl rfl rfl rfl rfl, hne, hcopied,
        ⟨hcounted.frbs, hcounted.avbs, hcounted.lbyte⟩, rfl⟩
  case h_10 x semval hr =>
    obtain rfl := Option.some.inj hs
    rw [hr] at hplace
    obtain ⟨hm, hne, hcopied, hcounted, hfbyte⟩ := hplace
    exact R.writes h h' hm.still rfl R.tame hm.spare.clock hm.spare.live
      ⟨hm.frame rfl rfl rfl rfl rfl, hcopied,
        ⟨hcounted.frbs, hcounted.avbs, hcounted.lbyte⟩, hfbyte, rfl, hne.symm⟩
  -- the buffer has been exchanged, the size has not
  case h_11 x semval oldbuf hr =>
    split at hs
    case isTrue =>
      obtain rfl := Option.some.inj hs
      exact R.installs h h' hr rfl rfl rfl rfl fun _ _ _ _ h1 h2 h3 => ⟨h1, h2, h3⟩
    case isFalse hv =>
      obtain rfl := Bool.eq_false_of_not_eq_true hv
      split at hs
      case isTrue =>
        obtain rfl := Option.some.inj hs
        exact R.installs h h' hr rfl rfl rfl rfl fun _ _ _ _ h1 h2 h3 => ⟨h1, h2, h3⟩
      case isFalse hle =>
        obtain rfl := Option.some.inj hs
        rw [hr] at hplace
        have hsize := hplace.1.size rfl
        exact R.installs h h' hr rfl (show s.size = x.size by omega) rfl rfl
          fun _ _ _ _ h1 h2 h3 => ⟨h1, h2, h3⟩
  case h_12 x oldbuf hr =>
    obtain rfl := Option.some.inj hs
    rw [hr] at hplace
    exact R.signals h h' hplace
  case h_13 x oldbuf hr =>
    obtain rfl := Option.some.inj hs
    rw [hr] at hplace
    exact R.proceeds h h' rfl rfl hplace
  case h_14 x oldbuf hr =>
    obtain rfl := Option.some.inj hs
    rw [hr] at hplace
    exact R.signals h h' ⟨hplace.1, hplace.2.1⟩
  case h_15 x oldbuf hr =>
    obtain rfl := Option.some.inj hs
    rw [hr] at hplace
    obtain ⟨hset, hinst⟩ := hplace
    have hsize := hinst.size
    have hpos := hinst.pos
    refine R.resized h h' rfl R.tame R.clock ?_ (fun _ ha => ha)
      ⟨⟨hset.lbyte, hset.ring⟩, fun _ => hsize, fun hv => absurd hv (by omega)⟩
    exact (Function.update_of_ne hinst.oldbuf.symm _ _).trans R.live
  case h_16 x hr =>
    obtain rfl := Option.some.inj hs
    rw [hr] at hplace
    exact R.signals h h' hplace
  case h_17 x hr =>
    obtain rfl := Option.some.inj hs
    rw [hr] at hplace
    exact R.signals h h' hplace
  case h_18 x hr =>
    obtain rfl := Option.some.inj hs
    rw [hr] at hplace
    obtain ⟨hset, -, hne, htouched⟩ := hplace
    refine R.resized h h' rfl R.tame R.clock ?_ (fun _ ha => ha)
      ⟨⟨hset.lbyte, hset.ring⟩, fun hv => absurd hv (by decide), fun _ => htouched⟩
    exact (Function.update_of_ne hne.symm _ _).trans R.live
  case h_19 => exact nomatch hs

/-- `rtf_resize` fails before it has moved a byte. -/
theorem Ring.fails (R : Ring s) (h : Sems s) (s₀ : Fifo T) {x : Locals}
    (hr : s.rsz = .queued x ∨ s.rsz = .handed x) (hstore : s₀.toStore = s.toStore)
    (hpc : s₀.pc = s.pc) (h' : Sems { s₀ with rsz := .returned (-EBADF) }) :
    Ring { s₀ with rsz := .returned (-EBADF) } := by
  have hplace := R.place
  have hkept : Settled s.toStore (transfer s .send) (transfer s .recv) ∧
      s.touched = false := by
    obtain hr | hr := hr <;> rw [hr] at hplace <;> exact ⟨hplace.1, hplace.2.2.2⟩
  exact R.proceeds h h' hstore hpc ⟨hkept.1, fun hv => absurd hv (by decide), fun _ => hkept.2⟩

variable [DecidableEq T] in
theorem Ring.rszWake (R : Ring s) (h : Sems s) (h' : Sems s')
    (hs : rszWake s = some s') : Ring s' := by
  unfold RtaiFifoResize.rszWake at hs
  split at hs
  case h_1 x hr =>
    obtain rfl := Option.some.inj hs
    obtain ⟨hstore, hpcs, -⟩ := giveUp_fields s .recv .resizer
    exact R.fails h (s.giveUp .recv .resizer) (.inl hr) hstore hpcs h'
  case h_2 x hr =>
    obtain rfl := Option.some.inj hs
    have hplace := R.place
    rw [hr] at hplace
    exact R.proceeds h h' rfl rfl hplace
  case h_3 => exact nomatch hs

variable [DecidableEq T] in
theorem Ring.rszInterrupt (R : Ring s) (h : Sems s) (h' : Sems s')
    (hs : rszInterrupt s = some s') : Ring s' := by
  unfold RtaiFifoResize.rszInterrupt at hs
  split at hs
  case h_1 x hr =>
    obtain rfl := Option.some.inj hs
    obtain ⟨hstore, hpcs, -⟩ := giveUp_fields s .recv .resizer
    exact R.fails h (s.giveUp .recv .resizer) (.inl hr) hstore hpcs h'
  case h_2 x hr =>
    obtain rfl := Option.some.inj hs
    exact R.fails h (s.lose .recv) (.inr hr) rfl rfl h'
  case h_3 => exact nomatch hs

end Processes

/-! ## Every run -/

variable {s s' : Fifo T}

variable [DecidableEq T] in
/-- **EVERY STEP KEEPS THE FIFO RIGHT**. -/
theorem step_right (h : Sems s ∧ Ring s) {a : Action T} {u : Unit} (ha : Meets s a)
    (hs : fifoStep s a = some (s', u)) : Sems s' ∧ Ring s' := by
  have h' := h.1.step ha hs
  refine ⟨h', ?_⟩
  obtain ⟨hsems, hring⟩ := h
  cases a with
  | call p msg msgSize i =>
    obtain ⟨s₁, hs₁, hp⟩ := Option.map_eq_some_iff.mp hs
    cases hp
    exact hring.procCall hsems h' hs₁
  | step p =>
    obtain ⟨s₁, hs₁, hp⟩ := Option.map_eq_some_iff.mp hs
    cases hp
    exact hring.procStep hsems h' ha hs₁
  | wake p =>
    obtain ⟨s₁, hs₁, hp⟩ := Option.map_eq_some_iff.mp hs
    cases hp
    exact hring.procWake hsems h' hs₁
  | interrupt p =>
    obtain ⟨s₁, hs₁, hp⟩ := Option.map_eq_some_iff.mp hs
    cases hp
    exact hring.procInterrupt hsems h' hs₁
  | resize size got =>
    obtain ⟨s₁, hs₁, hp⟩ := Option.map_eq_some_iff.mp hs
    cases hp
    exact hring.rtfResize hsems h' hs₁
  | rszStep i =>
    obtain ⟨s₁, hs₁, hp⟩ := Option.map_eq_some_iff.mp hs
    cases hp
    exact hring.rszStep hsems h' ha hs₁
  | rszWake =>
    obtain ⟨s₁, hs₁, hp⟩ := Option.map_eq_some_iff.mp hs
    cases hp
    exact hring.rszWake hsems h' hs₁
  | rszInterrupt =>
    obtain ⟨s₁, hs₁, hp⟩ := Option.map_eq_some_iff.mp hs
    cases hp
    exact hring.rszInterrupt hsems h' hs₁

/-- A fifo that nobody uses is right. -/
theorem unused_right (h : Unused s) : Sems s ∧ Ring s := by
  have hsems : Sems s := by
    intro side
    have hnow : ∀ w, ¬s.waits side w ∧ ¬s.holds side w := by
      intro w
      cases w with
      | proc p => exact out_of_pc (h.pc p) rfl nofun side
      | resizer =>
        refine ⟨fun hw => (nomatch h.rsz.symm.trans hw.2.choose_spec), fun hh => ?_⟩
        have hin : s.rsz.holds side = true := hh
        rw [h.rsz] at hin
        cases side <;> exact nomatch hin
    rw [h.free, h.queue, h.holder]
    exact ⟨iff_of_true rfl rfl, List.nodup_nil,
      fun w => iff_of_false List.not_mem_nil (hnow w).1,
      fun w => iff_of_false nofun (hnow w).2⟩
  have hnone : ∀ side, transfer s side = .none := fun side =>
    transfer_none hsems fun q _ => by rw [h.pc q]; rfl
  obtain ⟨r, hrep⟩ := h.ring.represents
  refine ⟨hsems, h.tame, h.bufadr, h.live, fun p buf ofs n hcopy => ?_, ?_⟩
  · rw [h.pc p] at hcopy
    exact nomatch hcopy
  · rw [h.rsz, hnone, hnone]
    exact ⟨h.lbyte, r, hrep, (contents_represented hrep).trans h.stream.symm⟩

/-- What is right is preserved. -/
theorem preserved_of_right (h : Sems s ∧ Ring s) : Preserved s := by
  obtain ⟨hsems, R⟩ := h
  have hring : s.rsz.moves = none → RingOk s.mbx ∧ content s.mbx = s.stream := by
    intro hr
    obtain ⟨r, hrep, hcont⟩ := (R.place.settled hr).ring
    have hstill := represents_still hrep (counted_transfer s _) (counted_transfer s _)
    exact ⟨ringOk_of_represents hstill, (contents_represented hstill).symm.trans hcont⟩
  refine ⟨R.tame, R.live, hring, fun x oldbuf hr => ?_, fun v hr => ?_,
    fun side => (hsems side).free, fun side w => (hsems side).holds w⟩
  · have hplace := R.place
    rw [hr] at hplace
    obtain ⟨-, hinst, hfbyte⟩ := hplace
    have hmoves : s.rsz.moves = none := by
      rw [hr]
      rfl
    have hlast : s.lbyte % s.size = (s.fbyte + s.avbs) % s.size := (hring hmoves).1.last
    rw [hfbyte, Int.zero_add] at hlast
    exact ⟨hinst.size, hinst.bufadr, hfbyte, hlast⟩
  · have hplace := R.place
    rw [hr] at hplace
    exact hplace.2

variable [DecidableEq T] in
/-- **A FIFO IS PRESERVED** in every state of every run that meets the condition. -/
theorem resize_preserves (h : Unused s) (hr : Reach fifoStep Meets s s') :
    Preserved s' :=
  preserved_of_right (hr.invariant (I := fun s => Sems s ∧ Ring s) (unused_right h)
    fun _ _ _ _ hi ha hs => step_right hi ha hs)

end Model

/-! ## Runs -/

/-- A fifo of `size` bytes, after `rtf_create`. -/
def created (size : Nat) : Fifo Unit where
  size := size
  fbyte := 0
  lbyte := 0
  avbs := 0
  frbs := size
  bufadr := 0
  mem := fun _ => List.replicate size 0
  freed := fun _ => false
  clock := 1
  stream := []
  wild := false
  touched := false
  semFree := fun _ => true
  queue := fun _ => []
  waitingTask := none
  pc := fun _ => .idle
  msg := fun _ => 0
  msgSize := fun _ => 0
  rsz := .idle
  holder := fun _ => none

theorem unused_created {size : Nat} (h : 0 < size) : Unused (created size) := by
  have hlen : ((List.replicate size (0 : UInt8)).length : Int) = size := by
    rw [List.length_replicate]
  have hzero : (0 : Int) % (size : Int) = 0 := Int.zero_emod _
  refine ⟨⟨?_, hlen, ?_, ?_, ?_, ?_, ?_, ?_⟩, ?_, rfl, Nat.zero_lt_one, rfl, rfl,
    fun _ => rfl, fun _ => rfl, fun _ => rfl, fun _ => rfl, rfl⟩
  · show (1 : Int) ≤ size
    omega
  · show (0 : Int) + size = size
    omega
  · exact le_refl (0 : Int)
  · show (0 : Int) ≤ size
    omega
  · show (0 : Int) ≤ 0 ∧ (0 : Int) < size
    omega
  · show (0 : Int) ≤ 0 % (size : Int) ∧ 0 % (size : Int) < size
    omega
  · show (0 : Int) % (size : Int) % size = (0 + 0) % (size : Int)
    rw [hzero, hzero]
    rfl
  · show (0 : Int) ≤ 0 ∧ (0 : Int) ≤ size
    omega

/-- A test that is enough for the condition. -/
def meetsNow (s : Fifo Unit) : Action Unit → Bool
  | .step _ => s.rsz.moves != some false
  | .wake p => s.pc p != .queued
  | .interrupt p => s.pc p != .queued && s.pc p != .handed
  | .rszWake | .rszInterrupt => false
  | .rszStep _ =>
    match s.rsz with
    | .check x false => !(s.pc .sender).inFlight && s.size ≤ x.size
    | _ => true
  | _ => true

theorem meets_of_meetsNow {s : Fifo Unit} {a : Action Unit} (h : meetsNow s a = true) :
    Meets s a := by
  cases a with
  | call | resize => trivial
  | step p => exact fun hm => absurd hm (bne_iff_ne.mp h)
  | wake p => exact fun hl => absurd hl.1.2 (bne_iff_ne.mp h)
  | interrupt p =>
    obtain ⟨h1, h2⟩ := Bool.and_eq_true_iff.mp h
    exact ⟨fun hl => absurd hl.1.2 (bne_iff_ne.mp h1), bne_iff_ne.mp h2⟩
  | rszWake | rszInterrupt => exact nomatch h
  | rszStep i =>
    intro x hr
    unfold meetsNow at h
    dsimp only at h
    rw [hr] at h
    obtain ⟨h1, h2⟩ := Bool.and_eq_true_iff.mp h
    exact .inr ⟨(Bool.not_eq_true' _).mp h1, of_decide_eq_true h2⟩

/-- A sender of three bytes waits for room in a fifo of two, which is resized to
    four. -/
def sleepingRun : List (Action Unit) :=
  .call .sender UInt8.ofNat 3 0 :: List.replicate 7 (.step .sender) ++
    Action.resize 4 true :: List.replicate 15 (Action.rszStep 0) ++
    Action.wake .sender :: List.replicate 7 (Action.step .sender)

theorem resize_preserves_sleeping : ∃ s' : Fifo Unit, s'.rsz = .returned 4 ∧ s'.size = 4 ∧
      s'.stream = [0, 1, 2] ∧ Preserved s' := by
  obtain ⟨s', hplay, hr, hsize, hstream⟩ : ∃ s', play fifoStep
      (fun s a => meetsNow s a = true) (created 2) sleepingRun = some s' ∧
      s'.rsz = .returned 4 ∧ s'.size = 4 ∧ s'.stream = [0, 1, 2] :=
    ⟨_, rfl, rfl, rfl, rfl⟩
  exact ⟨s', hr, hsize, hstream, resize_preserves (unused_created (by decide))
    ((reach_of_play hplay).mono fun _ _ h => meets_of_meetsNow h)⟩

/-- A receiver that has been interrupted is still the `waiting_task` while a sender
    is in `mbx_put`. -/
def interruptedRun : List (Action Unit) :=
  .call (.receiver ()) UInt8.ofNat 2 0 :: .step (.receiver ()) ::
    .interrupt (.receiver ()) :: .step (.receiver ()) ::
    .call .sender UInt8.ofNat 2 0 :: .step .sender :: .step .sender ::
    .resize 8 true :: List.replicate 13 (.rszStep 0) ++ [.step .sender]

/-- **THE SENDER COPIES TO THE OLD BUFFER** after it is freed. -/
theorem resize_frees_buffer_of_sender : ∃ s' : Fifo Unit, Unused (created 4) ∧
      Reach fifoStep (fun _ _ => True) (created 4) s' ∧ s'.rsz = .returned 8 ∧
      s'.wild = true ∧ ¬Preserved s' := by
  obtain ⟨s', hplay, hr, hwild⟩ : ∃ s', play fifoStep (fun _ _ => True) (created 4)
      interruptedRun = some s' ∧ s'.rsz = .returned 8 ∧ s'.wild = true :=
    ⟨_, rfl, rfl, rfl⟩
  refine ⟨s', unused_created (by decide), reach_of_play hplay, hr, hwild, fun hp => ?_⟩
  exact nomatch hwild.symm.trans hp.tame

end RtaiResizedRing
