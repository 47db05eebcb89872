import Rtai.MbxCalls

/-! # Transfers end

    The calls that wait for a mailbox, as long as the other side serves it: the
    loop of a call runs while `msg_size` is not zero, its copy while it is
    positive. -/

namespace RtaiMbxTransfers

open RtaiCircular RtaiMailbox RtaiByteStream RtaiMbxCopies RtaiWhileLoops
open RtaiMbxCalls

variable {T : Type}

/-! ## The other side -/

/-- What the owner of a semaphore finds in every state of the mailbox. -/
structure Usable (side : Side) (x : Mbx T) : Prop where
  bufadr : x.bufadr.length = x.size
  counter : 0 ≤ x.fravbs side
  byte : 0 ≤ x.byte side ∧ x.byte side < x.size

/-- Only the owner of the semaphore takes from its counter. -/
def Keeps (side : Side) (x x' : Mbx T) : Prop :=
  Usable side x' ∧ x.fravbs side ≤ x'.fravbs side

/-- The others keep the buffer usable. -/
structure Fair (side : Side) (e : Others T) : Prop where
  before : ∀ k x, Usable side x → Keeps side x (e.before k x)
  asleep : ∀ k x, Usable side x → Keeps side x (e.asleep k x).2
  during : ∀ k j x, Usable side x → Keeps side x (e.during k j x)

/-- **THE OTHER SIDE SERVES THE CALL**: it gets the semaphore, and no sleep ends
    before there is space, or data. -/
structure Served (side : Side) (e : Others T) : Prop where
  sem : e.sem = .told
  count : e.count ≤ 1
  asleep : ∀ k x, Usable side x → (e.asleep k x).1 = .told ∧ (e.asleep k x).2.fravbs side ≠ 0

/-! ## The copy -/

section Copy

variable {side : Side} {t : Transfer T} {others : Nat → Mbx T → Mbx T}

/-- A pass of the copy. -/
theorem pass_spec (h : Usable side t.mbx) (hgo : t.goesOn side = true) :
    ∃ t', t.pass side = some t' ∧ Usable side t'.mbx ∧ 0 ≤ t'.msgSize ∧
      t'.msgSize < t.msgSize := by
  obtain ⟨hm, hne⟩ := of_decide_eq_true hgo
  obtain ⟨hpos, hle, hend, hfit⟩ := tocpy_bounds hm h.counter hne h.byte.2
  have hbuf := h.bufadr
  have hbyte := h.byte
  generalize hn : t.mbx.tocpy side t.msgSize = n at hpos hle hend hfit
  have hmod : 0 ≤ t.mbx.modSize (t.mbx.byte side + n) ∧
      t.mbx.modSize (t.mbx.byte side + n) < t.mbx.size := by
    unfold Mbx.modSize
    split <;> omega
  cases side with
  | send =>
    have hcopy : memcpyTo t.mbx.bufadr t.mbx.lbyte n t.msg =
        some (store t.mbx.bufadr t.mbx.lbyte.toNat
          ((List.range n.toNat).map t.msg)) := if_pos ⟨hbyte.1, hpos.le, by
            rw [hbuf]
            exact hend⟩
    unfold Transfer.pass Sending.putPass
    dsimp only
    rw [hn, hcopy]
    refine ⟨_, rfl, ⟨?_, ?_, hmod⟩, ?_, ?_⟩
    · show ((store _ _ _).length : Int) = t.mbx.size
      rw [length_store, hbuf]
      rw [List.length_map, List.length_range]
      have hbyte' : 0 ≤ t.mbx.lbyte := hbyte.1
      have hend' : t.mbx.lbyte + n ≤ t.mbx.size := hend
      omega
    · show 0 ≤ t.mbx.frbs - n
      exact Int.sub_nonneg.mpr hfit
    · show 0 ≤ t.msgSize - n
      omega
    · show t.msgSize - n < t.msgSize
      omega
  | recv =>
    have hcopy : memcpyFrom t.mbx.bufadr t.mbx.fbyte n =
        some (segment t.mbx.bufadr t.mbx.fbyte.toNat n.toNat) :=
      if_pos ⟨hbyte.1, hpos.le, by
        rw [hbuf]
        exact hend⟩
    unfold Transfer.pass Receiving.getPass
    dsimp only
    rw [hn, hcopy]
    refine ⟨_, rfl, ⟨hbuf, ?_, hmod⟩, ?_, ?_⟩
    · show 0 ≤ t.mbx.avbs - n
      exact Int.sub_nonneg.mpr hfit
    · show 0 ≤ t.msgSize - n
      omega
    · show t.msgSize - n < t.msgSize
      omega

/-- **THE COPY ENDS**, and has copied something if it could. -/
theorem copy_spec (h : Usable side t.mbx) (hm : 0 ≤ t.msgSize)
    (hothers : ∀ j x, Usable side x → Keeps side x (others j x)) {fuel : Nat}
    (hfuel : t.msgSize.toNat < fuel) :
    ∃ t', t.copy side others fuel = some t' ∧ Usable side t'.mbx ∧
      0 ≤ t'.msgSize ∧ t'.msgSize ≤ t.msgSize ∧
      (t.msgSize ≠ 0 → t.mbx.fravbs side ≠ 0 → t'.msgSize < t.msgSize) := by
  obtain ⟨hfirst, hmore⟩ := hothers 0 t.mbx h
  have hcounter := h.counter
  generalize hs : ({ t with mbx := others 0 t.mbx } : Transfer T) = t₀
  have hsize : t₀.msgSize = t.msgSize := by
    rw [← hs]
  have hmbx : t₀.mbx = others 0 t.mbx := by
    rw [← hs]
  rw [← hmbx] at hfirst hmore
  -- nothing is copied before the first pass, and something after it
  have hstep : ∀ s : Nat × Transfer T, (Usable side s.2.mbx ∧ 0 ≤ s.2.msgSize ∧
        (s = (0, t₀) ∨ s.2.msgSize < t.msgSize)) →
      s.2.goesOn side = true →
      ∃ s', ((s.2.pass side).map fun t : Transfer T =>
          (s.1 + 1, { t with mbx := others (s.1 + 1) t.mbx })) = some s' ∧
        (Usable side s'.2.mbx ∧ 0 ≤ s'.2.msgSize ∧ (s' = (0, t₀) ∨ s'.2.msgSize < t.msgSize)) ∧
        s'.2.msgSize.toNat < s.2.msgSize.toNat := by
    rintro ⟨j, s⟩ ⟨hu, hnonneg, hdone⟩ hgo
    obtain ⟨s', hpass, hu', hnonneg', hlt⟩ := pass_spec (t := s) hu hgo
    have hnow : 0 ≤ s.msgSize := hnonneg
    have hle : s.msgSize ≤ t.msgSize := by
      rcases hdone with heq | hless
      · rw [(Prod.mk.inj heq).2, hsize]
      · exact hless.le
    dsimp only at hpass ⊢
    rw [hpass]
    refine ⟨_, rfl, ⟨(hothers (j + 1) s'.mbx hu').1, hnonneg', .inr ?_⟩, ?_⟩
    · show s'.msgSize < t.msgSize
      omega
    · show s'.msgSize.toNat < s.msgSize.toNat
      omega
  obtain ⟨r, hrun, ⟨hu, hnonneg, hdone⟩, hend⟩ := @whileLoop_total _
    (fun s : Nat × Transfer T => s.2.goesOn side) _ _ (fun s => s.2.msgSize.toNat)
    hstep (0, t₀) ⟨hfirst, hm.trans hsize.ge, .inl rfl⟩ fuel (by
      show t₀.msgSize.toNat < fuel
      omega)
  refine ⟨r.2, ?_, hu, hnonneg, ?_, ?_⟩
  · unfold Transfer.copy
    rw [hs, hrun]
    rfl
  · rcases hdone with heq | hless
    · rw [heq]
      exact hsize.le
    · exact hless.le
  · intro hne hroom
    rcases hdone with heq | hless
    · have hnot := of_decide_eq_false hend
      rw [heq] at hnot
      dsimp only at hnot
      omega
    · exact hless

/-- With a negative size nothing is copied. -/
theorem copy_negative (hm : t.msgSize < 0) {fuel : Nat} {t' : Transfer T}
    (h : t.copy side others fuel = some t') :
    t' = { t with mbx := others 0 t.mbx } := by
  unfold Transfer.copy at h
  cases fuel with
  | zero => exact nomatch h
  | succ fuel =>
    rw [whileLoop_of_false] at h
    · exact (Option.some.inj h).symm
    · refine decide_eq_false fun hgo => ?_
      have hpos : t.msgSize > 0 := hgo.1
      omega

end Copy

/-! ## The loop of a call -/

/-- Which of the two files. -/
inductive File where
  | mbx
  | fifos

/-- The eight calls. -/
def File.form : File → Op → Form
  | .mbx => Op.mbx
  | .fifos => Op.fifo

/-- A wait that is told has not failed. -/
structure Regular (f : Form) : Prop where
  told : ∀ addr, f.wait addr .told = 0
  taken : ∀ addr count, count ≤ 1 → f.semFails (f.semWait addr count .told) = false

theorem regular (file : File) (op : Op) : Regular (file.form op) := by
  cases file with
  | mbx =>
    have htaken : ∀ count : Int, count ≤ 1 → decide (count > 1) = false := by
      intro count hle
      exact decide_eq_false (Int.not_lt.mpr hle)
    cases op <;> exact ⟨fun _ => rfl, fun _ => htaken⟩
  | fifos => cases op <;> exact ⟨fun _ => rfl, fun _ _ _ => rfl⟩

section Passes

variable {f : Form} {e : Others T} {c : Calling T} {fuel : Nat}

/-- The wait of a pass that does not sleep, or is served. -/
theorem waits_spec (he : Fair f.side e) (hu : Usable f.side c.transfer.mbx) :
    Usable f.side (c.waits f e).2 ∧ (c.blocks f e = false ∨ Served f.side e →
        (c.waits f e).1 = .told ∧ (c.waits f e).2.fravbs f.side ≠ 0) := by
  have hu' := (he.before c.round c.transfer.mbx hu).1
  unfold Calling.waits
  dsimp only
  split
  · next hz =>
      refine ⟨(he.asleep c.round _ hu').1, ?_⟩
      rintro (hb | hs)
      · exact absurd hz (of_decide_eq_false hb)
      · exact hs.asleep c.round _ hu'
  · next hne => exact ⟨hu', fun _ => ⟨rfl, hne⟩⟩

/-- **A PASS BLOCKS OR MAKES PROGRESS**, and if it is served it does. -/
theorem round_spec (hf : Regular f) (he : Fair f.side e)
    (hu : Usable f.side c.transfer.mbx) (hm : 0 ≤ c.transfer.msgSize)
    (hgo : c.goesOn = true) (hfuel : c.transfer.msgSize.toNat < fuel) :
    ∃ c', c.pass f e fuel = some c' ∧ Usable f.side c'.transfer.mbx ∧
      0 ≤ c'.transfer.msgSize ∧ c'.transfer.msgSize ≤ c.transfer.msgSize ∧
      (c.blocks f e = false ∨ Served f.side e →
        c'.retval = 0 ∧ c'.transfer.msgSize < c.transfer.msgSize) := by
  have hne : c.transfer.msgSize ≠ 0 := (of_decide_eq_true hgo).2
  obtain ⟨hu', htold⟩ := @waits_spec _ f e c he hu
  unfold Calling.pass
  dsimp only
  split
  · next hfail =>
      refine ⟨_, rfl, hu', hm, le_rfl, fun h => ?_⟩
      rw [(htold h).1, hf.told] at hfail
      exact absurd rfl hfail
  · obtain ⟨t', hcopy, hu'', hnonneg, hle, hless⟩ := @copy_spec _ f.side
      { c.transfer with mbx := (c.waits f e).2 } (e.during c.round) hu' hm
      (he.during c.round) fuel hfuel
    rw [hcopy]
    exact ⟨_, rfl, hu'', hnonneg, hle, fun h => ⟨rfl, hless hne (htold h).2⟩⟩

/-- A served pass with a negative size is idle. -/
theorem round_negative (hf : Regular f) (he : Fair f.side e) (hs : Served f.side e)
    (hu : Usable f.side c.transfer.mbx) (hm : c.transfer.msgSize < 0)
    {c' : Calling T} (h : c.pass f e fuel = some c') :
    Usable f.side c'.transfer.mbx ∧ c'.retval = 0 ∧
      c'.transfer.msgSize = c.transfer.msgSize := by
  obtain ⟨hu', htold⟩ := @waits_spec _ f e c he hu
  unfold Calling.pass at h
  dsimp only at h
  rw [(htold (.inr hs)).1, hf.told, if_neg (not_not.mpr rfl)] at h
  obtain ⟨t, hcopy, rfl⟩ := Option.map_eq_some_iff.mp h
  have ht := @copy_negative _ f.side { c.transfer with mbx := (c.waits f e).2 } _ hm _ _ hcopy
  dsimp only
  rw [ht]
  exact ⟨(he.during c.round 0 _ hu').1, rfl, rfl⟩

end Passes

/-! ## Calls -/

section Calls

variable {f : Form} {e : Others T} {x : Mbx T} {msg : Nat → UInt8} {msgSize : Int}

theorem pass_mono {fuel more : Nat} (hle : fuel ≤ more) (c c' : Calling T)
    (h : c.pass f e fuel = some c') : c.pass f e more = some c' := by
  unfold Calling.pass at h ⊢
  dsimp only at h ⊢
  split at h
  · next hfail =>
      rw [if_pos hfail]
      exact h
  · next hok =>
      rw [if_neg hok]
      obtain ⟨t, hcopy, rfl⟩ := Option.map_eq_some_iff.mp h
      obtain ⟨r, hrun, rfl⟩ := Option.map_eq_some_iff.mp hcopy
      unfold Transfer.copy
      rw [whileLoop_mono (fun _ _ hb => hb) hle hrun]
      rfl

/-- A call that gets its semaphore. -/
theorem call_served (hf : Regular f) (hs : Served f.side e) (fuel : Nat) :
    call f e fuel x msg msgSize = (whileLoop Calling.goesOn (Calling.pass f e · fuel) fuel
        (Calling.start x msg msgSize)).map (Calling.result f) := by
  unfold call
  dsimp only
  rw [hs.sem, hf.taken e.addr e.count hs.count, if_neg Bool.false_ne_true]

/-- A served call for a size that is not negative returns. -/
theorem call_returns (hf : Regular f) (he : Fair f.side e) (hs : Served f.side e)
    (hu : Usable f.side x) (hm : 0 ≤ msgSize) :
    ∃ r, ∀ fuel > msgSize.toNat, call f e fuel x msg msgSize = some r := by
  have hstep : ∀ c : Calling T, (Usable f.side c.transfer.mbx ∧ 0 ≤ c.transfer.msgSize ∧
        c.transfer.msgSize ≤ msgSize) → c.goesOn = true →
      ∃ c', c.pass f e (msgSize.toNat + 1) = some c' ∧
        (Usable f.side c'.transfer.mbx ∧ 0 ≤ c'.transfer.msgSize ∧
          c'.transfer.msgSize ≤ msgSize) ∧
        c'.transfer.msgSize.toNat < c.transfer.msgSize.toNat := by
    rintro c ⟨hu, hnonneg, hle⟩ hgo
    obtain ⟨c', hpass, hu', hnonneg', hle', hserved⟩ := round_spec hf he hu hnonneg
      hgo (show _ < msgSize.toNat + 1 by omega)
    have hless := (hserved (.inr hs)).2
    exact ⟨c', hpass, ⟨hu', hnonneg', hle'.trans hle⟩, by omega⟩
  obtain ⟨c, hrun, -, -⟩ := @whileLoop_total _ Calling.goesOn
    (Calling.pass f e · (msgSize.toNat + 1)) _
    (fun c => c.transfer.msgSize.toNat) hstep (Calling.start x msg msgSize)
    ⟨hu, hm, le_rfl⟩ (msgSize.toNat + 1) (Nat.lt_succ_self _)
  refine ⟨c.result f, fun fuel hfuel => ?_⟩
  rw [call_served hf hs, whileLoop_mono (pass_mono hfuel) hfuel hrun]
  rfl

/-- **A SERVED CALL FOR A NEGATIVE SIZE** never returns. -/
theorem call_negative (hf : Regular f) (he : Fair f.side e) (hs : Served f.side e)
    (hu : Usable f.side x) (hm : msgSize < 0) (fuel : Nat) :
    call f e fuel x msg msgSize = none := by
  have hloop := @whileLoop_diverges _ Calling.goesOn (Calling.pass f e · fuel)
    (fun c => Usable f.side c.transfer.mbx ∧ c.retval = 0 ∧ c.transfer.msgSize = msgSize)
    (by
      rintro c c' ⟨hu, -, hsize⟩ hpass
      obtain ⟨hu', hret, hsame⟩ := round_negative hf he hs hu (by omega) hpass
      exact ⟨hu', hret, hsame.trans hsize⟩)
    (by
      rintro c ⟨-, hret, hsize⟩
      exact decide_eq_true ⟨hret, by omega⟩)
    (Calling.start x msg msgSize) ⟨hu, rfl, rfl⟩ fuel
  rw [call_served hf hs, hloop]
  rfl

end Calls

/-- The other side empties a mailbox that is full, or fills one that is
    empty. -/
def turned (x : Mbx T) : Side → Mbx T
  | .send => { x with frbs := x.size, avbs := 0, fbyte := x.lbyte }
  | .recv => { x with frbs := 0, avbs := x.size, lbyte := x.fbyte }

/-- The other side always serves. -/
def serves (side : Side) : Others T :=
  { addr := 4096, high := page_high, sem := .told, count := 1,
    before := fun _ x => x,
    asleep := fun _ x => (.told, if x.fravbs side = 0 then turned x side else x),
    during := fun _ _ x => x }

theorem serves_fair (side : Side) : Fair side (serves side : Others T) := by
  refine ⟨fun _ _ h => ⟨h, le_rfl⟩, ?_, fun _ _ _ h => ⟨h, le_rfl⟩⟩
  intro k x h
  have hbyte := h.byte
  show Keeps side x (if _ then _ else _)
  split
  · next hz =>
      unfold Keeps
      rw [hz]
      cases side with
      | send => exact ⟨⟨h.bufadr, by show 0 ≤ x.size; omega, hbyte⟩, by show 0 ≤ x.size; omega⟩
      | recv => exact ⟨⟨h.bufadr, by show 0 ≤ x.size; omega, hbyte⟩, by show 0 ≤ x.size; omega⟩
  · exact ⟨h, le_rfl⟩

theorem serves_served (side : Side) : Served side (serves side : Others T) := by
  refine ⟨rfl, le_rfl, fun k x h => ⟨rfl, ?_⟩⟩
  have hbyte := h.byte
  show (if _ then _ else _ : Mbx T).fravbs side ≠ 0
  split
  · cases side with
    | send =>
      show x.size ≠ 0
      omega
    | recv =>
      show x.size ≠ 0
      omega
  · next hne => exact hne

/-- One pass of the loop of a call. -/
def Round (f : Form) (e : Others T) (fuel : Nat) (c c' : Calling T) : Prop :=
  c.goesOn = true ∧ c.pass f e fuel = some c'

/-- **A CALL WORKS** if every pass of its loop blocks or makes progress, and if
    it returns when it is served. -/
def Works (f : Form) (x : Mbx T) (msg : Nat → UInt8) (msgSize : Int) : Prop :=
  ∀ e : Others T, Fair f.side e →
    (∀ fuel > msgSize.toNat, ∀ c, Relation.ReflTransGen (Round f e fuel)
        (Calling.start x msg msgSize) c → c.goesOn = true →
      ∃ c', c.pass f e fuel = some c' ∧ (c.blocks f e = true ∨
        c'.transfer.msgSize < c.transfer.msgSize)) ∧
    (Served f.side e → ∃ enough r, ∀ fuel ≥ enough, call f e fuel x msg msgSize = some r)

/-- **TRANSFERS END** if and only if the size is not negative, for each of the
    calls and every mailbox. -/
theorem works_iff (file : File) (op : Op) {x : Mbx T}
    (hu : Usable (file.form op).side x) (msg : Nat → UInt8) (msgSize : Int) :
    Works (file.form op) x msg msgSize ↔ 0 ≤ msgSize := by
  have hf := regular file op
  generalize file.form op = f at hu hf
  constructor
  · intro hworks
    by_contra hneg
    -- the other side always serves, and the call goes on for ever
    have he := @serves_fair T f.side
    have hs := @serves_served T f.side
    obtain ⟨enough, r, hret⟩ := (hworks (serves f.side) he).2 hs
    have hnone := @call_negative _ f _ x msg msgSize hf he hs hu (Int.not_le.mp hneg) enough
    exact nomatch (hret enough le_rfl).symm.trans hnone
  · intro hm e he
    refine ⟨fun fuel hfuel c hreach hgo => ?_, fun hs => ?_⟩
    · have hinv : Usable f.side c.transfer.mbx ∧ 0 ≤ c.transfer.msgSize ∧
          c.transfer.msgSize ≤ msgSize := by
        -- every round before this one has kept the size in range
        induction hreach with
        | refl => exact ⟨hu, hm, le_rfl⟩
        | tail _ hround ih =>
          obtain ⟨hgo', hpass⟩ := hround
          obtain ⟨hu', hnonneg, hle⟩ := ih hgo'
          obtain ⟨c', hpass', hu'', hnonneg', hle', -⟩ := round_spec hf he hu'
            hnonneg hgo' (show _ < fuel by omega)
          obtain rfl := Option.some.inj (hpass.symm.trans hpass')
          exact ⟨hu'', hnonneg', hle'.trans hle⟩
      obtain ⟨hu', hnonneg, hle⟩ := hinv
      obtain ⟨c', hpass, -, -, -, hserved⟩ := round_spec hf he hu' hnonneg hgo
        (show _ < fuel by omega)
      refine ⟨c', hpass, ?_⟩
      cases hb : c.blocks f e with
      | true => exact .inl rfl
      | false => exact .inr (hserved (.inl hb)).2
    · obtain ⟨r, hret⟩ := @call_returns _ f e x msg msgSize hf he hs hu hm
      exact ⟨msgSize.toNat + 1, r, hret⟩

/-- Both sides can use the mailbox that holds one byte. -/
theorem full_usable (side : Side) : Usable side full := by
  cases side with
  | send => exact ⟨rfl, by decide, by decide⟩
  | recv => exact ⟨rfl, by decide, by decide⟩

theorem works_iff_full : Works rtMbxSendUntil full (fun _ => 7) 5 :=
  (works_iff .mbx .sendUntil (full_usable .send) (fun _ => 7) 5).mpr (by decide)

/-- A receive of -1 bytes from a mailbox that has one never returns. -/
theorem negative_receive_hangs : Fair .recv (serves .recv : Others Unit) ∧
      Served .recv (serves .recv : Others Unit) ∧
      ∀ fuel, call rtMbxReceive (serves .recv) fuel full (fun _ => 0) (-1) = none :=
  ⟨serves_fair .recv, serves_served .recv, fun fuel =>
    @call_negative _ rtMbxReceive (serves .recv) full (fun _ => 0) (-1)
      (regular .mbx .receive) (serves_fair .recv) (serves_served .recv)
      (full_usable .recv) (by decide) fuel⟩

end RtaiMbxTransfers
