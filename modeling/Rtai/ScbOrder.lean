import Rtai.Scb

/-! # Nothing is lost, torn or read twice in a shared circular buffer

    The two indices are positions of one stream of bytes, up to multiples of
    the size.  A side knows its own position exactly and has an old position
    of the other side, which errs on the safe side: the producer finds too
    little room and the consumer too few bytes. -/

namespace RtaiScbOrder

open RtaiRuns RtaiStreamCells RtaiScb

/-- The byte at a position of a stream. -/
def stream (l : List UInt8) (i : Int) : UInt8 := l.getD i.toNat 0

/-- How many bytes have been put. -/
def putPos (x : ScbRun) : Int := (moved x.puts).length

/-- How many bytes have been got. -/
def gotPos (x : ScbRun) : Int := (moved x.gets).length

/-! ## Streams and messages -/

section Streams

variable {l l' : List UInt8} {msg : Int → UInt8} {n : Int}

@[simp] theorem length_message : (message msg n).length = n.toNat := by
  simp only [message, List.length_map, List.length_range]

theorem message_of_nonpos (h : n ≤ 0) : message msg n = [] := by
  have h0 : n.toNat = 0 := by omega
  simp only [message, h0, List.range_zero, List.map_nil]

theorem getElem_message {k : Nat} (hk : k < (message msg n).length) :
    (message msg n)[k] = msg k := by
  simp only [message, List.getElem_map, List.getElem_range]

theorem stream_append_left {i : Int} (h0 : 0 ≤ i) (h : i < l.length) :
    stream (l ++ l') i = stream l i :=
  List.getD_append _ _ _ _ (by omega)

theorem stream_append_message {i : Int} (h0 : (l.length : Int) ≤ i) (h : i < l.length + n) :
    stream (l ++ message msg n) i = msg (i - l.length) := by
  rw [stream, List.getD_append_right _ _ _ _ (by omega),
    List.getD_eq_getElem _ _ (by rw [length_message]; omega), getElem_message]
  congr 1
  omega

/-- A prefix has the same bytes. -/
theorem stream_of_prefix (h : l <+: l') {i : Int} (h0 : 0 ≤ i)
    (hi : i < l.length) : stream l' i = stream l i := by
  obtain ⟨t, rfl⟩ := h
  exact stream_append_left h0 hi

/-- **A MESSAGE FROM THE STREAM**: the bytes from a position on. -/
theorem message_eq_take {g : Nat} (h0 : 0 ≤ n) (hle : g + n ≤ l.length)
    (h : ∀ k, 0 ≤ k → k < n → msg k = stream l (g + k)) :
    message msg n = (l.drop g).take n.toNat := by
  apply List.ext_getElem
  · rw [length_message, List.length_take, List.length_drop]
    omega
  · intro k hk hk'
    rw [length_message] at hk
    rw [getElem_message, List.getElem_take, List.getElem_drop,
      h k (by omega) (by omega), stream, List.getD_eq_getElem _ _ (by omega)]
    congr 1

/-- Going on with the front of what is left. -/
theorem append_prefix_of_drop {a b : List UInt8} (h : a <+: l)
    (hb : b <+: l.drop a.length) : a ++ b <+: l := by
  obtain ⟨t, rfl⟩ := h
  rw [List.drop_left] at hb
  exact (List.prefix_append_right_inj a).mpr hb

end Streams

/-! ## What a call plans -/

section Plans

variable {N p g n : Int} {pl : Plan}

theorem put_none (hN : 0 < N) (hgp : g ≤ p) (hpg : p < g + N)
    (h : rtScbPut N (g % N) (p % N) n = none) : ¬ (0 < n ∧ p + n < g + N) := by
  simp only [rtScbPut, gap_down hN hgp hpg] at h
  split at h
  · split at h <;> exact nomatch h
  · next hc =>
      intro hroom
      exact hc ⟨hroom.1, by omega⟩

theorem put_some (hN : 0 < N) (hgp : g ≤ p) (hpg : p < g + N)
    (h : rtScbPut N (g % N) (p % N) n = some pl) :
    0 < n ∧ p + n < g + N ∧ pl.index = some ((p + n) % N) ∧ Tiles N p n 0 pl.copies := by
  have hp0 := Int.emod_nonneg p hN.ne'
  have hp1 := Int.emod_lt_of_pos p hN
  simp only [rtScbPut, gap_down hN hgp hpg] at h
  split at h
  · next hc =>
      obtain ⟨hn, hroom⟩ := hc
      split at h
      · cases h
        refine ⟨hn, by omega, ?_, tiles_one (by omega) (by omega)⟩
        rw [emod_add_of_le hN (by omega) (by omega)]
      · cases h
        refine ⟨hn, by omega, ?_, tiles_two hN (by omega) (by omega)⟩
        rw [emod_add_of_ge hN (by omega) (by omega)]
        show some (n - (N - p % N)) = _
        congr 1
        omega
  · exact nomatch h

theorem get_none (hN : 0 < N) (hgp : g ≤ p) (hpg : p < g + N)
    (h : rtScbGet N (g % N) (p % N) n = none) : ¬ (0 < n ∧ g + n ≤ p) := by
  simp only [rtScbGet, gap_up hN hgp hpg] at h
  split at h
  · split at h <;> exact nomatch h
  · next hc =>
      intro henough
      exact hc ⟨henough.1, by omega⟩

theorem get_some (hN : 0 < N) (hgp : g ≤ p) (hpg : p < g + N)
    (h : rtScbGet N (g % N) (p % N) n = some pl) :
    0 < n ∧ g + n ≤ p ∧ pl.index = some ((g + n) % N) ∧ Tiles N g n 0 pl.copies := by
  have hg0 := Int.emod_nonneg g hN.ne'
  have hg1 := Int.emod_lt_of_pos g hN
  simp only [rtScbGet, gap_up hN hgp hpg] at h
  split at h
  · next hc =>
      obtain ⟨hn, henough⟩ := hc
      split at h
      · cases h
        refine ⟨hn, by omega, ?_, tiles_one (by omega) (by omega)⟩
        rw [emod_add_of_le hN (by omega) (by omega)]
      · cases h
        refine ⟨hn, by omega, ?_, tiles_two hN (by omega) (by omega)⟩
        rw [emod_add_of_ge hN (by omega) (by omega)]
        show some (n - (N - g % N)) = _
        congr 1
        omega
  · exact nomatch h

/-- Eavesdropping is getting without the write of the index. -/
theorem evdrp_eq (size fbyte lbyte msgSize : Int) : rtScbEvdrp size fbyte lbyte msgSize =
      (rtScbGet size fbyte lbyte msgSize).map fun p => { p with index := none } := by
  simp only [rtScbEvdrp, rtScbGet]
  by_cases hc : msgSize > 0 ∧
      (if lbyte - fbyte ≥ 0 then lbyte - fbyte else size + (lbyte - fbyte)) ≥ msgSize
  · rw [if_pos hc, if_pos hc]
    split <;> rfl
  · rw [if_neg hc, if_neg hc]
    rfl

/-- What a call of the consumer plans. -/
theorem consumer_none (hN : 0 < N) (hgp : g ≤ p) (hpg : p < g + N) {op : ScbOp}
    (hop : op ≠ .put) (h : op.plan N (g % N) (p % N) n = none) :
    ¬ (0 < n ∧ g + n ≤ p) := by
  cases op with
  | put => exact absurd rfl hop
  | get => exact get_none hN hgp hpg h
  | evdrp =>
    replace h : rtScbEvdrp N (g % N) (p % N) n = none := h
    rw [evdrp_eq, Option.map_eq_none_iff] at h
    exact get_none hN hgp hpg h

theorem consumer_some (hN : 0 < N) (hgp : g ≤ p) (hpg : p < g + N) {op : ScbOp}
    (hop : op ≠ .put) (h : op.plan N (g % N) (p % N) n = some pl) :
    0 < n ∧ g + n ≤ p ∧ pl.index = (if op = .evdrp then none else some ((g + n) % N)) ∧
      Tiles N g n 0 pl.copies := by
  cases op with
  | put => exact absurd rfl hop
  | get => exact get_some hN hgp hpg h
  | evdrp =>
    replace h : rtScbEvdrp N (g % N) (p % N) n = some pl := h
    rw [evdrp_eq, Option.map_eq_some_iff] at h
    obtain ⟨pl', hpl, rfl⟩ := h
    obtain ⟨hn, henough, -, htiles⟩ := get_some hN hgp hpg hpl
    exact ⟨hn, henough, rfl, htiles⟩

end Plans

/-! ## The invariant -/

/-- What the producer knows at each place of its call. -/
def ProducerAt (x : ScbRun) (c : ScbCall) : ScbPc → Prop
  | .size => True
  | .fbyte size => size = x.scb.size
  | .lbyte size fbyte =>
    size = x.scb.size ∧ ∃ g, fbyte = g % size ∧ g ≤ gotPos x ∧
      putPos x < g + size ∧ c.given.length = putPos x - g
  | .copying copies index =>
    0 < c.msgSize ∧ putPos x + c.msgSize < gotPos x + x.scb.size ∧
      c.given.length + c.msgSize < x.scb.size ∧
      index = some ((putPos x + c.msgSize) % x.scb.size) ∧
      ∃ d, 0 ≤ d ∧ Tiles x.scb.size (putPos x) c.msgSize d copies ∧ ∀ k, 0 ≤ k → k < d →
          x.scb.bytes ((putPos x + k) % x.scb.size) = c.msg k

/-- What the consumer knows. -/
def ConsumerAt (x : ScbRun) (c : ScbCall) : ScbPc → Prop
  | .size => c.msg = c.was
  | .fbyte size => c.msg = c.was ∧ size = x.scb.size
  | .lbyte size fbyte =>
    c.msg = c.was ∧ size = x.scb.size ∧ fbyte = gotPos x % size
  | .copying copies index =>
    0 < c.msgSize ∧ c.msgSize ≤ c.given.length ∧ c.given <+: x.queue ∧
      (∀ e ∈ sinceGet x.gets, e.given <+: c.given) ∧
      index = (if c.op = .evdrp then none
        else some ((gotPos x + c.msgSize) % x.scb.size)) ∧
      (∀ k, ¬ (0 ≤ k ∧ k < c.msgSize) → c.msg k = c.was k) ∧
      ∃ d, 0 ≤ d ∧ Tiles x.scb.size (gotPos x) c.msgSize d copies ∧ ∀ k, 0 ≤ k → k < d →
          c.msg k = stream (moved x.puts) (gotPos x + k)

/-- A put that has returned. -/
def PutDone (size : Int) (r : ScbReturn) : Prop :=
  r.op = .put ∧ r.msg = r.was ∧ r.Whole (r.given.length + r.msgSize < size)

/-- A get or an eavesdropping that has returned. -/
def GetDone (r : ScbReturn) : Prop :=
  r.op ≠ .put ∧ r.Whole (r.msgSize ≤ r.given.length) ∧
    (r.value = 0 → message r.msg r.msgSize = r.given.take r.msgSize.toNat)

/-- The bytes got are the first of those put. -/
structure ScbInv (x : ScbRun) : Prop where
  size_pos : 0 < x.scb.size
  fbyte : x.scb.fbyte = gotPos x % x.scb.size
  lbyte : x.scb.lbyte = putPos x % x.scb.size
  inOrder : moved x.gets <+: moved x.puts
  fits : putPos x < gotPos x + x.scb.size
  laid : Laid x.scb.size x.scb.bytes (stream (moved x.puts)) (gotPos x) (putPos x)
  producer : ∀ c, x.producer = some c → c.op = .put ∧ c.msg = c.was ∧ ProducerAt x c c.pc
  consumer : ∀ c, x.consumer = some c → c.op ≠ .put ∧ ConsumerAt x c c.pc
  puts : ∀ r ∈ x.puts, PutDone x.scb.size r
  gets : ∀ r ∈ x.gets, GetDone r
  heard : ∀ e ∈ sinceGet x.gets, e.given <+: x.queue
  later : ∀ r rs, (r :: rs) <:+ x.gets → ∀ e ∈ sinceGet rs, e.given <+: r.given

section Invariant

variable {x x' : ScbRun} {c : ScbCall}

theorem ScbInv.got_le_put (I : ScbInv x) : gotPos x ≤ putPos x := by
  have := I.inOrder.length_le
  simp only [gotPos, putPos]
  omega

theorem ScbInv.length_queue (I : ScbInv x) : (x.queue.length : Int) = putPos x - gotPos x := by
  have := I.inOrder.length_le
  simp only [ScbRun.queue, List.length_drop, gotPos, putPos]
  omega

/-- What the other side has done meanwhile. -/
theorem ProducerAt.mono {pc : ScbPc} (hsize : x'.scb.size = x.scb.size)
    (hbytes : x'.scb.bytes = x.scb.bytes) (hput : putPos x' = putPos x)
    (hgot : gotPos x ≤ gotPos x') (h : ProducerAt x c pc) :
    ProducerAt x' c pc := by
  cases pc with
  | size => trivial
  | fbyte size => exact h.trans hsize.symm
  | lbyte size fbyte =>
    obtain ⟨hs, g, hf, hg, hfit, hlen⟩ := h
    refine ⟨hs.trans hsize.symm, g, hf, hg.trans hgot, ?_, ?_⟩
    · rw [hput]
      exact hfit
    · rw [hput]
      exact hlen
  | copying copies index =>
    obtain ⟨hn, hfit, hroom, hindex, d, hd, htiles, hdone⟩ := h
    show 0 < c.msgSize ∧ putPos x' + c.msgSize < gotPos x' + x'.scb.size ∧ _
    rw [hput, hsize, hbytes]
    exact ⟨hn, by omega, hroom, hindex, d, hd, htiles, hdone⟩

theorem ConsumerAt.mono {pc : ScbPc} (hin : moved x.gets <+: moved x.puts)
    (hsize : x'.scb.size = x.scb.size) (hgets : x'.gets = x.gets)
    (hputs : moved x.puts <+: moved x'.puts) (h : ConsumerAt x c pc) :
    ConsumerAt x' c pc := by
  have hgot : gotPos x' = gotPos x := by rw [gotPos, hgets, gotPos]
  cases pc with
  | size => exact h
  | fbyte size => exact ⟨h.1, h.2.trans hsize.symm⟩
  | lbyte size fbyte =>
    refine ⟨h.1, h.2.1.trans hsize.symm, ?_⟩
    rw [hgot]
    exact h.2.2
  | copying copies index =>
    obtain ⟨hn, hle, hgiven, hsince, hindex, hrest, d, hd, htiles, hdone⟩ := h
    have hlen : (c.given.length : Int) ≤ (moved x.puts).length - gotPos x := by
      have h1 := hgiven.length_le
      have h2 := hin.length_le
      simp only [ScbRun.queue, List.length_drop] at h1
      simp only [gotPos]
      omega
    refine ⟨hn, hle, hgiven.trans ?_, ?_, ?_, hrest, d, hd, ?_, ?_⟩
    · simp only [ScbRun.queue, hgets]
      exact hputs.drop _
    · rw [hgets]
      exact hsince
    · rw [hgot, hsize]
      exact hindex
    · rw [hgot, hsize]
      exact htiles
    · intro k hk hkd
      have := htiles.le
      have hg0 : 0 ≤ gotPos x := Int.natCast_nonneg _
      rw [hgot, stream_of_prefix hputs (by omega) (by omega)]
      exact hdone k hk hkd

/-! ## Returning -/

theorem moved_failed {r : ScbReturn} {rs : List ScbReturn}
    (h : r.value = r.msgSize) : moved (r :: rs) = moved rs := by
  simp only [moved]
  split
  · next hc =>
      rw [message_of_nonpos (by omega), List.append_nil]
  · rfl

theorem moved_evdrp {r : ScbReturn} {rs : List ScbReturn}
    (h : r.op = .evdrp) : moved (r :: rs) = moved rs :=
  if_neg fun hc => hc.1 h

theorem moved_done {r : ScbReturn} {rs : List ScbReturn} (hop : r.op ≠ .evdrp)
    (hv : r.value = 0) :
    moved (r :: rs) = moved rs ++ message r.msg r.msgSize :=
  if_pos ⟨hop, hv⟩

/-- After a call, the calls since the last successful get are those before, and
    perhaps it. -/
theorem mem_sinceGet_cons {r e : ScbReturn} {rs : List ScbReturn}
    (he : e ∈ sinceGet (r :: rs)) :
    ¬ (r.op = .get ∧ r.value = 0 ∧ 0 < r.msgSize) ∧ (e = r ∨ e ∈ sinceGet rs) := by
  simp only [sinceGet, List.takeWhile_cons] at he
  split at he
  · next hc =>
      refine ⟨fun hget => ?_, ?_⟩
      · rw [decide_eq_true hget] at hc
        exact nomatch hc
      rcases List.mem_cons.mp he with rfl | he
      · exact Or.inl rfl
      · exact Or.inr he
  · exact nomatch he

/-- The later call has found at least what the earlier ones found. -/
theorem later_cons {r : ScbReturn} {gets : List ScbReturn}
    (h : ∀ r rs, (r :: rs) <:+ gets → ∀ e ∈ sinceGet rs, e.given <+: r.given)
    (hr : ∀ e ∈ sinceGet gets, e.given <+: r.given) :
    ∀ r' rs, (r' :: rs) <:+ r :: gets → ∀ e ∈ sinceGet rs, e.given <+: r'.given := by
  intro r' rs hsuf e he
  rcases List.suffix_cons_iff.mp hsuf with heq | hsuf
  · cases heq
    exact hr e he
  · exact h r' rs hsuf e he

/-! ## The steps -/

/-- The call of the producer goes on. -/
theorem ScbInv.producing (I : ScbInv x)
    (h : c.op = .put ∧ c.msg = c.was ∧ ProducerAt x c c.pc) :
    ScbInv { x with producer := some c } where
  size_pos := I.size_pos
  fbyte := I.fbyte
  lbyte := I.lbyte
  inOrder := I.inOrder
  fits := I.fits
  laid := I.laid
  producer := by
    intro c' hc'
    cases hc'
    exact h
  consumer := I.consumer
  puts := I.puts
  gets := I.gets
  heard := I.heard
  later := I.later

/-- The call of the consumer goes on. -/
theorem ScbInv.consuming (I : ScbInv x) (h : c.op ≠ .put ∧ ConsumerAt x c c.pc) :
    ScbInv { x with consumer := some c } where
  size_pos := I.size_pos
  fbyte := I.fbyte
  lbyte := I.lbyte
  inOrder := I.inOrder
  fits := I.fits
  laid := I.laid
  producer := I.producer
  consumer := by
    intro c' hc'
    cases hc'
    exact h
  puts := I.puts
  gets := I.gets
  heard := I.heard
  later := I.later

/-- A put that fails. -/
theorem ScbInv.putFails (I : ScbInv x) {r : ScbReturn} (hv : r.value = r.msgSize)
    (hr : PutDone x.scb.size r) :
    ScbInv { x with producer := none, puts := r :: x.puts } := by
  have hmoved : moved (r :: x.puts) = moved x.puts := moved_failed hv
  have hput : putPos { x with producer := none, puts := r :: x.puts } = putPos x :=
    congrArg (fun l : List UInt8 => (l.length : Int)) hmoved
  have hqueue : ({ x with producer := none, puts := r :: x.puts } : ScbRun).queue =
      x.queue := by
    simp only [ScbRun.queue, hmoved]
  constructor
  · exact I.size_pos
  · exact I.fbyte
  · rw [hput]
    exact I.lbyte
  · show moved x.gets <+: moved (r :: x.puts)
    rw [hmoved]
    exact I.inOrder
  · rw [hput]
    exact I.fits
  · rw [hput]
    show Laid x.scb.size x.scb.bytes (stream (moved (r :: x.puts))) _ _
    rw [hmoved]
    exact I.laid
  · exact nofun
  · intro c hc
    obtain ⟨hop, hat⟩ := I.consumer c hc
    exact ⟨hop, hat.mono I.inOrder rfl rfl (hmoved ▸ List.prefix_refl _)⟩
  · intro r' hr'
    rcases List.mem_cons.mp hr' with rfl | hr'
    · exact hr
    · exact I.puts r' hr'
  · exact I.gets
  · rw [hqueue]
    exact I.heard
  · exact I.later

/-- A put that succeeds publishes its bytes. -/
theorem ScbInv.putDone (I : ScbInv x) {r : ScbReturn} (hop : r.op = .put)
    (hv : r.value = 0) (hr : PutDone x.scb.size r) (hn : 0 < r.msgSize)
    (hfit : putPos x + r.msgSize < gotPos x + x.scb.size)
    (hbytes : ∀ k, 0 ≤ k → k < r.msgSize →
      x.scb.bytes ((putPos x + k) % x.scb.size) = r.msg k) :
    ScbInv { x with
      scb := { x.scb with lbyte := (putPos x + r.msgSize) % x.scb.size }
      producer := none
      puts := r :: x.puts } := by
  have hmoved : moved (r :: x.puts) = moved x.puts ++ message r.msg r.msgSize :=
    moved_done (by rw [hop]; decide) hv
  have hput : ((moved (r :: x.puts)).length : Int) = putPos x + r.msgSize := by
    rw [hmoved, List.length_append, length_message]
    simp only [putPos]
    omega
  have hgrow : moved x.puts <+: moved (r :: x.puts) := by
    rw [hmoved]
    exact List.prefix_append _ _
  constructor
  · exact I.size_pos
  · exact I.fbyte
  · show _ = ((moved (r :: x.puts)).length : Int) % x.scb.size
    rw [hput]
  · exact I.inOrder.trans hgrow
  · show ((moved (r :: x.puts)).length : Int) < _
    rw [hput]
    exact hfit
  · show Laid x.scb.size x.scb.bytes (stream (moved (r :: x.puts))) (gotPos x)
      ((moved (r :: x.puts)).length : Int)
    rw [hput, hmoved]
    intro i h0 h1
    have hg0 : 0 ≤ gotPos x := Int.natCast_nonneg _
    by_cases hold : i < putPos x
    · rw [stream_append_left (by omega) hold]
      exact I.laid i h0 hold
    · -- the position is one of the message
      rw [stream_append_message (by simpa only [putPos, not_lt] using hold) h1]
      have hb := hbytes (i - putPos x) (by omega) (by omega)
      rw [show putPos x + (i - putPos x) = i by omega] at hb
      exact hb
  · exact nofun
  · intro c hc
    obtain ⟨hop, hat⟩ := I.consumer c hc
    exact ⟨hop, hat.mono I.inOrder rfl rfl hgrow⟩
  · intro r' hr'
    rcases List.mem_cons.mp hr' with rfl | hr'
    · exact hr
    · exact I.puts r' hr'
  · exact I.gets
  · intro e he
    exact (I.heard e he).trans (hgrow.drop _)
  · exact I.later

/-- A call of the consumer that takes nothing out. -/
theorem ScbInv.getLeaves (I : ScbInv x) {r : ScbReturn}
    (hmoved : moved (r :: x.gets) = moved x.gets) (hr : GetDone r)
    (hgiven : r.given <+: x.queue)
    (hsince : ∀ e ∈ sinceGet x.gets, e.given <+: r.given) :
    ScbInv { x with consumer := none, gets := r :: x.gets } := by
  have hgot : gotPos { x with consumer := none, gets := r :: x.gets } = gotPos x :=
    congrArg (fun l : List UInt8 => (l.length : Int)) hmoved
  have hqueue : ({ x with consumer := none, gets := r :: x.gets } : ScbRun).queue =
      x.queue := by
    simp only [ScbRun.queue, hmoved]
  constructor
  · exact I.size_pos
  · rw [hgot]
    exact I.fbyte
  · exact I.lbyte
  · show moved (r :: x.gets) <+: moved x.puts
    rw [hmoved]
    exact I.inOrder
  · rw [hgot]
    exact I.fits
  · rw [hgot]
    exact I.laid
  · intro c hc
    obtain ⟨hop, hmsg, hat⟩ := I.producer c hc
    exact ⟨hop, hmsg, ProducerAt.mono (x := x) rfl rfl rfl hgot.ge hat⟩
  · exact nofun
  · exact I.puts
  · intro r' hr'
    rcases List.mem_cons.mp hr' with rfl | hr'
    · exact hr
    · exact I.gets r' hr'
  · rw [hqueue]
    intro e he
    rcases (mem_sinceGet_cons he).2 with rfl | he
    · exact hgiven
    · exact I.heard e he
  · exact later_cons I.later hsince

/-- A get that succeeds takes the first bytes out. -/
theorem ScbInv.getDone (I : ScbInv x) {r : ScbReturn} (hop : r.op = .get)
    (hv : r.value = 0) (hr : GetDone r) (hn : 0 < r.msgSize)
    (hle : r.msgSize ≤ r.given.length) (hgiven : r.given <+: x.queue)
    (hsince : ∀ e ∈ sinceGet x.gets, e.given <+: r.given) :
    ScbInv { x with
      scb := { x.scb with fbyte := (gotPos x + r.msgSize) % x.scb.size }
      consumer := none
      gets := r :: x.gets } := by
  have hmoved : moved (r :: x.gets) = moved x.gets ++ message r.msg r.msgSize :=
    moved_done (by rw [hop]; decide) hv
  have hgot : ((moved (r :: x.gets)).length : Int) = gotPos x + r.msgSize := by
    rw [hmoved, List.length_append, length_message]
    simp only [gotPos]
    omega
  have hmsg : message r.msg r.msgSize <+: x.queue := by
    rw [hr.2.2 hv]
    exact (List.take_prefix _ _).trans hgiven
  have henough : gotPos x + r.msgSize ≤ putPos x := by
    have h1 := hgiven.length_le
    have h2 := I.length_queue
    omega
  have hfits := I.fits
  constructor
  · exact I.size_pos
  · show _ = ((moved (r :: x.gets)).length : Int) % x.scb.size
    rw [hgot]
  · exact I.lbyte
  · show moved (r :: x.gets) <+: moved x.puts
    rw [hmoved]
    exact append_prefix_of_drop I.inOrder hmsg
  · show putPos x < ((moved (r :: x.gets)).length : Int) + x.scb.size
    rw [hgot]
    omega
  · show Laid x.scb.size x.scb.bytes (stream (moved x.puts))
      ((moved (r :: x.gets)).length : Int) (putPos x)
    rw [hgot]
    intro i h0 h1
    exact I.laid i (by omega) h1
  · intro c hc
    obtain ⟨hput, hwas, hat⟩ := I.producer c hc
    refine ⟨hput, hwas, ProducerAt.mono (x := x) rfl rfl rfl ?_ hat⟩
    show gotPos x ≤ ((moved (r :: x.gets)).length : Int)
    omega
  · exact nofun
  · exact I.puts
  · intro r' hr'
    rcases List.mem_cons.mp hr' with rfl | hr'
    · exact hr
    · exact I.gets r' hr'
  · intro e he
    exact absurd ⟨hop, hv, hn⟩ (mem_sinceGet_cons he).1
  · exact later_cons I.later hsince

/-- **One step of the producer keeps the invariant.** -/
theorem ScbInv.produce (I : ScbInv x) (hc : x.producer = some c) : ScbInv (produce x c) := by
  obtain ⟨op, n, msg, was, given, pc⟩ := c
  obtain ⟨hop, hwas, hat⟩ := I.producer _ hc
  dsimp only at hop hwas hat
  subst hop hwas
  cases pc with
  | size => exact I.producing ⟨rfl, rfl, rfl⟩
  | fbyte size =>
    refine I.producing ⟨rfl, rfl, hat, gotPos x, ?_, le_rfl, ?_, ?_⟩
    · rw [hat]
      exact I.fbyte
    · rw [hat]
      exact I.fits
    · exact I.length_queue
  | lbyte size fbyte =>
    obtain ⟨rfl, g, rfl, hg, hfit, hlen⟩ := hat
    have hle := I.got_le_put
    simp only [RtaiScb.produce, ScbOp.plan, I.lbyte]
    cases hp : rtScbPut x.scb.size (g % x.scb.size) (putPos x % x.scb.size) n with
    | none =>
      have hroom := put_none I.size_pos (by omega) hfit hp
      refine I.putFails rfl ⟨rfl, rfl, Or.inr ⟨?_, rfl, rfl⟩⟩
      rintro ⟨h0, h1⟩
      replace h1 : given.length + n < x.scb.size := h1
      replace hlen : (given.length : Int) = putPos x - g := hlen
      exact hroom ⟨h0, by omega⟩
    | some pl =>
      obtain ⟨hn, hroom, hindex, htiles⟩ :=
        put_some I.size_pos (by omega) hfit hp
      dsimp only at hlen
      exact I.producing ⟨rfl, rfl, hn, by dsimp only; omega,
        by dsimp only; omega, hindex, 0, le_rfl, htiles,
        fun k h0 h1 => by omega⟩
  | copying copies index =>
    obtain ⟨hn, hfit, hroom, hindex, d, hd, htiles, hdone⟩ := hat
    dsimp only at hn hfit hroom hindex htiles hdone
    cases copies with
    | nil =>
      have hdn : d = n := htiles
      subst hdn hindex
      exact I.putDone (r := ⟨.put, d, msg, msg, given, 0⟩) rfl rfl
        ⟨rfl, rfl, Or.inl ⟨hn, hroom, rfl, fun _ _ => rfl⟩⟩ hn hfit hdone
    | cons m ms =>
      have hrest := htiles.2.2.2.2
      have hle := hrest.le
      have hlen := htiles.2.2.1
      have hother : ∀ i, gotPos x ≤ i → i < putPos x + d →
          m.toRing msg x.scb.bytes (i % x.scb.size) =
            x.scb.bytes (i % x.scb.size) := fun i h0 h1 =>
        htiles.toRing_other I.size_pos List.mem_cons_self _ _ (by omega) h1
      have hlaid : ScbInv { x with
          scb := { x.scb with bytes := m.toRing msg x.scb.bytes }
          producer := none } :=
        { size_pos := I.size_pos
          fbyte := I.fbyte
          lbyte := I.lbyte
          inOrder := I.inOrder
          fits := I.fits
          laid := fun i h0 h1 =>
            (hother i h0 (by have : i < putPos x := h1; omega)).trans (I.laid i h0 h1)
          producer := nofun
          consumer := fun c hc => I.consumer c hc
          puts := I.puts
          gets := I.gets
          heard := I.heard
          later := I.later }
      refine hlaid.producing ⟨rfl, rfl, hn, hfit, hroom, hindex, d + m.len,
        by omega, hrest, fun k h0 h1 => ?_⟩
      have hgp := I.got_le_put
      show m.toRing msg x.scb.bytes ((putPos x + k) % x.scb.size) = msg k
      by_cases hold : k < d
      · rw [hother _ (by omega) (by omega)]
        exact hdone k h0 hold
      · rw [htiles.toRing_own I.size_pos _ _ (by omega) (by omega)]
        congr 1
        omega

/-- **One step of the consumer keeps the invariant.** -/
theorem ScbInv.consume (I : ScbInv x) (hc : x.consumer = some c) : ScbInv (consume x c) := by
  obtain ⟨op, n, msg, was, given, pc⟩ := c
  obtain ⟨hop, hat⟩ := I.consumer _ hc
  dsimp only at hop hat
  cases pc with
  | size => exact I.consuming ⟨hop, hat, rfl⟩
  | fbyte size =>
    refine I.consuming ⟨hop, hat.1, hat.2, ?_⟩
    rw [hat.2]
    exact I.fbyte
  -- the producer may have put more since `fbyte` was read
  | lbyte size fbyte =>
    obtain ⟨hwas, rfl, rfl⟩ := hat
    have hle := I.got_le_put
    have hlen := I.length_queue
    simp only [RtaiScb.consume, I.lbyte]
    cases hp : op.plan x.scb.size (gotPos x % x.scb.size)
        (putPos x % x.scb.size) n with
    | none =>
      have hroom := consumer_none I.size_pos hle I.fits hop hp
      refine I.getLeaves (moved_failed rfl) ⟨hop, Or.inr ⟨?_, rfl, hwas⟩, ?_⟩
        (List.prefix_refl _) I.heard
      · rintro ⟨h0, h1⟩
        replace h1 : n ≤ x.queue.length := h1
        exact hroom ⟨h0, by omega⟩
      · intro hv
        replace hv : n = 0 := hv
        subst hv
        rfl
    | some pl =>
      obtain ⟨hn, henough, hindex, htiles⟩ :=
        consumer_some I.size_pos hle I.fits hop hp
      exact I.consuming ⟨hop, hn, by dsimp only; omega, List.prefix_refl _,
        I.heard, hindex, fun k _ => congrFun hwas k, 0, le_rfl, htiles,
        fun k h0 h1 => by omega⟩
  -- each copy is one access, and the index comes last
  | copying copies index =>
    obtain ⟨hn, hle, hgiven, hsince, hindex, hrest, d, hd, htiles, hdone⟩ := hat
    dsimp only at hn hle hgiven hsince hindex hrest htiles hdone
    have hq := I.length_queue
    have hgl := hgiven.length_le
    cases copies with
    | nil =>
      have hdn : d = n := htiles
      subst hdn
      have hbytes : message msg d = given.take d.toNat := by
        rw [List.prefix_iff_eq_take.mp hgiven, List.take_take, Nat.min_eq_left (by omega)]
        refine message_eq_take (by omega) ?_ hdone
        simp only [gotPos, putPos] at hq
        omega
      have hget : GetDone ⟨op, d, msg, was, given, 0⟩ :=
        ⟨hop, Or.inl ⟨hn, hle, rfl, hrest⟩, fun _ => hbytes⟩
      by_cases hev : op = .evdrp
      · rw [if_pos hev] at hindex
        subst hindex
        exact I.getLeaves (moved_evdrp hev) hget hgiven hsince
      · rw [if_neg hev] at hindex
        subst hindex
        have hg : op = .get := by
          cases op with
          | put => exact absurd rfl hop
          | get => rfl
          | evdrp => exact absurd rfl hev
        exact I.getDone hg rfl hget hn hle hgiven hsince
    | cons m ms =>
      have hrest' := htiles.2.2.2.2
      have hle' := hrest'.le
      have hlen := htiles.2.2.1
      refine I.consuming ⟨hop, hn, hle, hgiven, hsince, hindex, ?_,
        d + m.len, by omega, hrest', ?_⟩
      · intro k hk
        have hout : k < d ∨ n ≤ k := by
          by_contra hin
          exact hk ⟨by omega, by show k < n; omega⟩
        exact (htiles.fromRing_other _ _ hout).trans (hrest k hk)
      · intro k h0 h1
        show m.fromRing x.scb.bytes msg k = _
        by_cases hold : k < d
        · rw [htiles.fromRing_other _ _ (Or.inl hold)]
          exact hdone k h0 hold
        · rw [htiles.fromRing_own I.size_pos _ _ (by omega) h1]
          exact I.laid _ (by omega) (by omega)

/-- **One step keeps the invariant.** -/
theorem ScbInv.step (I : ScbInv x) {a : ScbAction} {o : Unit}
    (h : scbStep x a = some (x', o)) : ScbInv x' := by
  cases a with
  | put msg n =>
    simp only [scbStep] at h
    split at h
    · cases h
      exact I.producing ⟨rfl, rfl, trivial⟩
    · exact nomatch h
  | get msg n =>
    simp only [scbStep] at h
    split at h
    · cases h
      exact I.consuming ⟨nofun, rfl⟩
    · exact nomatch h
  | evdrp msg n =>
    simp only [scbStep] at h
    split at h
    · cases h
      exact I.consuming ⟨nofun, rfl⟩
    · exact nomatch h
  | produce =>
    simp only [scbStep] at h
    obtain ⟨c, hc, h⟩ := Option.bind_eq_some_iff.mp h
    cases h
    exact I.produce hc
  | consume =>
    simp only [scbStep] at h
    obtain ⟨c, hc, h⟩ := Option.bind_eq_some_iff.mp h
    cases h
    exact I.consume hc

theorem initted_inv (size : Nat) (bytes : Int → UInt8) : ScbInv (initted size bytes) := by
  have hpos : (0 : Int) < size + 1 := by omega
  constructor
  · exact hpos
  · exact (Int.zero_emod _).symm
  · exact (Int.zero_emod _).symm
  · exact List.prefix_refl _
  · show (0 : Int) < 0 + (size + 1)
    omega
  · intro i h0 h1
    have h0' : (0 : Int) ≤ i := h0
    have h1' : i < (0 : Int) := h1
    omega
  · exact nofun
  · exact nofun
  · exact nofun
  · exact nofun
  · exact nofun
  · intro r rs hsuf
    have := hsuf.length_le
    exact absurd this (by simp [initted])

/-! ## The law -/

theorem ScbInv.avbs (I : ScbInv x) : rtScbAvbs x.scb = putPos x - gotPos x := by
  have h := gap_up I.size_pos I.got_le_put I.fits
  simp only [rtScbAvbs, I.fbyte, I.lbyte]
  split at h
  · rw [if_pos (by omega)]
    exact h
  · rw [if_neg (by omega)]
    omega

/-- The bytes in the buffer are those that have been put and not got. -/
theorem ScbInv.contents (I : ScbInv x) : x.scb.contents = x.queue := by
  have hlen := I.length_queue
  simp only [Scb.contents, I.avbs]
  apply List.ext_getElem
  · rw [List.length_map, List.length_range]
    omega
  · intro k hk hk'
    have hg0 : 0 ≤ gotPos x := Int.natCast_nonneg _
    rw [List.length_map, List.length_range] at hk
    rw [List.getElem_map, List.getElem_range, I.fbyte, Int.emod_add_emod,
      I.laid _ (by omega) (by omega)]
    simp only [ScbRun.queue, List.getElem_drop, stream]
    rw [List.getD_eq_getElem _ _ (by simp only [gotPos, putPos] at *; omega)]
    congr 1

/-- Where the copies of the producer lie. -/
theorem ProducerAt.tiles (h : ProducerAt x c c.pc) {m : Memcpy} (hm : m ∈ c.copies) :
    ∃ d, 0 ≤ d ∧ putPos x + c.msgSize < gotPos x + x.scb.size ∧
      Tiles x.scb.size (putPos x) c.msgSize d c.copies := by
  obtain ⟨op, n, msg, was, given, pc⟩ := c
  cases pc with
  | copying copies index =>
    obtain ⟨-, hfit, -, -, d, hd, htiles, -⟩ := h
    exact ⟨d, hd, hfit, htiles⟩
  | size => exact nomatch hm
  | fbyte => exact nomatch hm
  | lbyte => exact nomatch hm

theorem ConsumerAt.tiles (I : ScbInv x) (h : ConsumerAt x c c.pc) {m : Memcpy}
    (hm : m ∈ c.copies) :
    ∃ d, 0 ≤ d ∧ gotPos x + c.msgSize ≤ putPos x ∧
      Tiles x.scb.size (gotPos x) c.msgSize d c.copies := by
  obtain ⟨op, n, msg, was, given, pc⟩ := c
  cases pc with
  | copying copies index =>
    obtain ⟨-, hle, hgiven, -, -, -, d, hd, htiles, -⟩ := h
    have h1 := hgiven.length_le
    have h2 := I.length_queue
    exact ⟨d, hd, by omega, htiles⟩
  | size => exact nomatch hm
  | fbyte => exact nomatch hm
  | lbyte => exact nomatch hm

/-- An answer is settled by the bytes that were found. -/
theorem GetDone.value_eq {r e : ScbReturn} (hr : GetDone r) (he : GetDone e)
    (hsize : e.msgSize = r.msgSize) (hgiven : e.given <+: r.given)
    (h : e.value = 0 ∨ e.given = r.given) : r.value = e.value := by
  have hlen := hgiven.length_le
  rcases he.2.1 with ⟨hn, henough, hv, -⟩ | ⟨hno, hv, -⟩
  · rcases hr.2.1 with ⟨-, -, hv', -⟩ | ⟨hno', -, -⟩
    · rw [hv, hv']
    · exact absurd ⟨by omega, by omega⟩ hno'
  · rcases hr.2.1 with ⟨hn', henough', hv', -⟩ | ⟨-, hv', -⟩
    · rcases h with h0 | heq
      · omega
      · rw [heq] at hno
        exact absurd ⟨by omega, by omega⟩ hno
    · omega

theorem GetDone.bytes_eq {r e : ScbReturn} (hr : GetDone r) (he : GetDone e)
    (hsize : e.msgSize = r.msgSize) (hgiven : e.given <+: r.given)
    (hv : e.value = 0) :
    message r.msg r.msgSize = message e.msg e.msgSize := by
  have hrv : r.value = 0 := (hr.value_eq he hsize hgiven (Or.inl hv)).trans hv
  rw [hr.2.2 hrv, he.2.2 hv, hsize]
  rcases he.2.1 with ⟨hn, henough, -, -⟩ | ⟨-, hv', -⟩
  · obtain ⟨t, ht⟩ := hgiven
    rw [← ht, List.take_append_of_le_length (by omega)]
  · rw [show r.msgSize.toNat = 0 by omega, List.take_zero, List.take_zero]

theorem ScbInv.law (I : ScbInv x) : ScbLaw x := by
  have hpos := I.size_pos
  constructor
  · rw [I.fbyte]
    exact ⟨Int.emod_nonneg _ hpos.ne', Int.emod_lt_of_pos _ hpos⟩
  · rw [I.lbyte]
    exact ⟨Int.emod_nonneg _ hpos.ne', Int.emod_lt_of_pos _ hpos⟩
  · exact I.inOrder
  · exact I.contents
  · exact I.puts
  · exact I.gets
  · intro r rs hsuf hop e he hev hsize
    have hr : GetDone r := I.gets r (hsuf.subset List.mem_cons_self)
    have hed : GetDone e := by
      refine I.gets e (hsuf.subset (List.mem_cons_of_mem _ ?_))
      exact (List.takeWhile_prefix _).subset he
    have hgiven := I.later r rs hsuf e he
    exact ⟨hr.value_eq hed hsize hgiven, hr.bytes_eq hed hsize hgiven⟩
  · intro c hc m hm
    rcases hc with hc | hc
    · obtain ⟨d, hd, hfit, htiles⟩ := (I.producer c hc).2.2.tiles hm
      obtain ⟨h1, h2, h3, h4, h5⟩ := htiles.mem hm
      exact ⟨h3, ⟨h2 ▸ Int.emod_nonneg _ hpos.ne', h4⟩, by omega, h5⟩
    · obtain ⟨d, hd, hfit, htiles⟩ := (I.consumer c hc).2.tiles I hm
      obtain ⟨h1, h2, h3, h4, h5⟩ := htiles.mem hm
      exact ⟨h3, ⟨h2 ▸ Int.emod_nonneg _ hpos.ne', h4⟩, by omega, h5⟩
  · intro c c' hc hc' m hm m' hm' a
    obtain ⟨d, hd, hfit, htiles⟩ := (I.producer c hc).2.2.tiles hm
    obtain ⟨d', hd', hle, htiles'⟩ := (I.consumer c' hc').2.tiles I hm'
    exact htiles.apart hpos htiles' hm hm' (by omega) (by omega) a

end Invariant

/-- **NOTHING IS LOST, TORN OR READ TWICE**: a producer and a consumer that
    share a circular buffer of any size without a lock find all its promises
    kept after any number of their steps, in any order. -/
theorem scb_lock_free (size : Nat) (bytes : Int → UInt8) (x : ScbRun)
    (h : Reach scbStep (fun _ _ => True) (initted size bytes) x) : ScbLaw x :=
  (h.invariant (initted_inv size bytes) fun _ _ _ _ I _ hs => I.step hs).law

/-- In a buffer of three bytes the second message goes round. -/
theorem scb_lock_free_round : ∃ x, Reach scbStep (fun _ _ => True) (initted 3 fun _ => 0) x ∧
      x.scb.lbyte = 1 ∧ moved x.gets = [5, 6] ∧ x.queue = [7, 8, 9] ∧
      ScbLaw x := by
  obtain ⟨x, hplay, hl, hg, hq⟩ : ∃ x, play scbStep (fun _ _ => True) (initted 3 fun _ => 0)
        ([ScbAction.put (fun k => 5 + k.toNat.toUInt8) 3] ++
          List.replicate 5 ScbAction.produce ++
          [ScbAction.get (fun _ => 0) 2, .put (fun k => 8 + k.toNat.toUInt8) 2, .produce] ++
          List.replicate 5 ScbAction.consume ++
          List.replicate 5 ScbAction.produce) = some x ∧
      x.scb.lbyte = 1 ∧ moved x.gets = [5, 6] ∧ x.queue = [7, 8, 9] :=
    ⟨_, rfl, rfl, rfl, rfl⟩
  exact ⟨x, reach_of_play hplay, hl, hg, hq,
    scb_lock_free 3 (fun _ => 0) x (reach_of_play hplay)⟩

end RtaiScbOrder
