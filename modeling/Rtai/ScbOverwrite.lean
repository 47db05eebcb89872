import Rtai.ScbOrder

/-! # rtai_scb.h: the overwriting put

    `rt_scb_ovrwr` puts a message without looking at the reader's index.  The
    calls are one after the other here. -/

namespace RtaiScbOverwrite

open RtaiRuns RtaiStreamCells RtaiScb RtaiScbOrder

/-- `rt_scb_ovrwr`: `fbyte` stays. -/
def rtScbOvrwr (size lbyte msgSize : Int) : Option Plan :=
  if msgSize > 0 ∧ msgSize < size then
    let tocpy := size - lbyte
    if tocpy > msgSize then
      some ⟨[⟨lbyte, 0, msgSize⟩], some (lbyte + msgSize)⟩
    else
      some ⟨[⟨lbyte, 0, tocpy⟩, ⟨0, tocpy, msgSize - tocpy⟩], some (msgSize - tocpy)⟩
  else none

/-- The cells after all the copies of a plan. -/
def writeCells (copies : List Memcpy) (msg cells : Int → UInt8) : Int → UInt8 :=
  copies.foldl (fun cells m => m.toRing msg cells) cells

/-- The message after all the copies of a plan. -/
def readCells (copies : List Memcpy) (cells msg : Int → UInt8) : Int → UInt8 :=
  copies.foldl (fun msg m => m.fromRing cells msg) msg

/-- The buffer after a put. -/
def written (s : Scb) (msg : Int → UInt8) : Option Plan → Scb
  | none => s
  | some p =>
    { s with
      bytes := writeCells p.copies msg s.bytes
      lbyte := p.index.getD s.lbyte }

/-- The buffer after a get. -/
def got (s : Scb) : Option Plan → Scb
  | none => s
  | some p => { s with fbyte := p.index.getD s.fbyte }

/-- The calls. -/
inductive Call where
  | put (msg : Int → UInt8) (msgSize : Int)
  | get (msgSize : Int)
  | evdrp (msgSize : Int)
  | ovrwr (msg : Int → UInt8) (msgSize : Int)
  | reset

/-- What a call does. -/
def call (s : Scb) : Call → Scb
  | .put msg msgSize => written s msg (rtScbPut s.size s.fbyte s.lbyte msgSize)
  | .get msgSize => got s (rtScbGet s.size s.fbyte s.lbyte msgSize)
  | .evdrp msgSize => got s (rtScbEvdrp s.size s.fbyte s.lbyte msgSize)
  | .ovrwr msg msgSize => written s msg (rtScbOvrwr s.size s.lbyte msgSize)
  | .reset => { s with lbyte := 0, fbyte := 0 }

/-- One call. -/
def callStep (s : Scb) (c : Call) : Option (Scb × Unit) := some (call s c, ())

/-- What successive gets of these sizes hand over, if none of them fails. -/
def gets : Scb → List Int → Option (List UInt8)
  | _, [] => some []
  | s, n :: ns => do
      let p ← rtScbGet s.size s.fbyte s.lbyte n
      let rest ← gets (got s (some p)) ns
      return message (readCells p.copies s.bytes fun _ => 0) n ++ rest

/-- Gets can obtain the bytes. -/
def Obtainable (s : Scb) (l : List UInt8) : Prop := ∃ ns, gets s ns = some l

/-- The number of bytes that there is room for. -/
def keptLength (s : Scb) (msgSize : Int) : Int :=
  min (s.size - 1) (rtScbAvbs s + msgSize)

/-- The last bytes of the content followed by the message. -/
def newest (s : Scb) (msg : Int → UInt8) (msgSize : Int) : List UInt8 :=
  (s.contents ++ message msg msgSize).rtake (keptLength s msgSize).toNat

/-- The newest bytes can be obtained. -/
structure KeepsNewest (s : Scb) (msg : Int → UInt8) (msgSize : Int) : Prop where
  bytes : ∀ l, Obtainable (call s (.ovrwr msg msgSize)) l ↔ l <+: newest s msg msgSize
  avbs : rtScbAvbs (call s (.ovrwr msg msgSize)) = keptLength s msgSize

/-! ## Cells -/

section Cells

variable {N p n d : Int} {ms : List Memcpy}

theorem writeCells_other (hN : 0 < N) (h : Tiles N p n d ms) (msg cells : Int → UInt8)
    {i : Int} (h0 : p + n - N ≤ i) (h1 : i < p + d) :
    writeCells ms msg cells (i % N) = cells (i % N) := by
  induction ms generalizing d cells with
  | nil => rfl
  | cons m ms ih =>
    have hlen := h.2.2.1
    show writeCells ms msg (m.toRing msg cells) (i % N) = cells (i % N)
    rw [ih h.2.2.2.2 _ (by omega)]
    exact h.toRing_other hN List.mem_cons_self msg cells h0 h1

theorem writeCells_own (hN : 0 < N) (h : Tiles N p n d ms) (hn : n - d ≤ N)
    (msg cells : Int → UInt8) {i : Int} (h0 : p + d ≤ i) (h1 : i < p + n) :
    writeCells ms msg cells (i % N) = msg (i - p) := by
  induction ms generalizing d cells with
  | nil =>
    have hd : d = n := h
    omega
  | cons m ms ih =>
    have hlen := h.2.2.1
    show writeCells ms msg (m.toRing msg cells) (i % N) = msg (i - p)
    by_cases hi : i < p + d + m.len
    · rw [writeCells_other hN h.2.2.2.2 _ _ (by omega) (by omega)]
      exact h.toRing_own hN msg cells h0 hi
    · exact ih h.2.2.2.2 (by omega) _ (by omega)

theorem readCells_other (h : Tiles N p n d ms) (cells msg : Int → UInt8) {k : Int}
    (hk : k < d) : readCells ms cells msg k = msg k := by
  induction ms generalizing d msg with
  | nil => rfl
  | cons m ms ih =>
    have hlen := h.2.2.1
    show readCells ms cells (m.fromRing cells msg) k = msg k
    rw [ih h.2.2.2.2 _ (by omega)]
    exact h.fromRing_other cells msg (Or.inl hk)

theorem readCells_own (hN : 0 < N) (h : Tiles N p n d ms) (cells msg : Int → UInt8)
    {k : Int} (h0 : d ≤ k) (h1 : k < n) :
    readCells ms cells msg k = cells ((p + k) % N) := by
  induction ms generalizing d msg with
  | nil =>
    have hd : d = n := h
    omega
  | cons m ms ih =>
    have hlen := h.2.2.1
    show readCells ms cells (m.fromRing cells msg) k = cells ((p + k) % N)
    by_cases hk : k < d + m.len
    · rw [readCells_other h.2.2.2.2 _ _ hk]
      exact h.fromRing_own hN cells msg h0 hk
    · exact ih h.2.2.2.2 _ (by omega)

end Cells

/-! ## The indices -/

/-- The indices lie in the buffer. -/
structure Bounds (s : Scb) : Prop where
  size : 0 < s.size
  fbyte : 0 ≤ s.fbyte ∧ s.fbyte < s.size
  lbyte : 0 ≤ s.lbyte ∧ s.lbyte < s.size

/-- The indices as positions in a stream of bytes. -/
structure At (s : Scb) (g p : Int) : Prop where
  size : 0 < s.size
  fbyte : s.fbyte = g % s.size
  lbyte : s.lbyte = p % s.size
  le : g ≤ p
  fits : p < g + s.size

variable {s : Scb} {g p n : Int} {msg : Int → UInt8}

theorem At.bounds (h : At s g p) : Bounds s := by
  have hpos := h.size
  constructor
  · exact hpos
  · rw [h.fbyte]
    exact ⟨Int.emod_nonneg _ hpos.ne', Int.emod_lt_of_pos _ hpos⟩
  · rw [h.lbyte]
    exact ⟨Int.emod_nonneg _ hpos.ne', Int.emod_lt_of_pos _ hpos⟩

theorem Bounds.at (h : Bounds s) : ∃ p, At s s.fbyte p := by
  obtain ⟨hpos, ⟨hf0, hf⟩, hl0, hl⟩ := h
  by_cases hle : s.fbyte ≤ s.lbyte
  · refine ⟨s.lbyte, hpos, ?_, ?_, hle, by omega⟩
    · rw [Int.emod_eq_of_lt hf0 hf]
    · rw [Int.emod_eq_of_lt hl0 hl]
  · refine ⟨s.lbyte + s.size, hpos, ?_, ?_, by omega, by omega⟩
    · rw [Int.emod_eq_of_lt hf0 hf]
    · rw [Int.add_emod_right, Int.emod_eq_of_lt hl0 hl]

theorem At.avbs (h : At s g p) : rtScbAvbs s = p - g := by
  have hgap := gap_up h.size h.le h.fits
  simp only [rtScbAvbs, h.fbyte, h.lbyte]
  split at hgap
  · rw [if_pos (by omega)]
    exact hgap
  · rw [if_neg (by omega)]
    omega

theorem At.contents (h : At s g p) :
    s.contents = (List.range (p - g).toNat).map fun k : Nat => s.bytes ((g + k) % s.size) := by
  simp only [Scb.contents, h.avbs, h.fbyte, Int.emod_add_emod]

theorem At.length_contents (h : At s g p) : (s.contents.length : Int) = p - g := by
  have hle := h.le
  rw [h.contents, List.length_map, List.length_range]
  omega

theorem At.getElem_contents (h : At s g p) {k : Nat} (hk : k < s.contents.length) :
    s.contents[k] = s.bytes ((g + k) % s.size) := by
  simp only [h.contents, List.getElem_map, List.getElem_range]

/-! ## The plans -/

theorem ovrwr_some {N : Int} (hN : 0 < N) {pl : Plan} (h : rtScbOvrwr N (p % N) n = some pl) :
    0 < n ∧ n < N ∧ pl.index = some ((p + n) % N) ∧ Tiles N p n 0 pl.copies := by
  have hp0 := Int.emod_nonneg p hN.ne'
  have hp1 := Int.emod_lt_of_pos p hN
  simp only [rtScbOvrwr] at h
  split at h
  · next hc =>
      obtain ⟨hn, hroom⟩ := hc
      split at h
      · cases h
        refine ⟨hn, hroom, ?_, tiles_one (by omega) (by omega)⟩
        rw [emod_add_of_le hN (by omega) (by omega)]
      · cases h
        refine ⟨hn, hroom, ?_, tiles_two hN (by omega) (by omega)⟩
        rw [emod_add_of_ge hN (by omega) (by omega)]
        show some (n - (N - p % N)) = _
        congr 1
        omega
  · exact nomatch h

theorem ovrwr_isSome {N l : Int} (h0 : 0 < n) (hn : n < N) :
    ∃ pl, rtScbOvrwr N l n = some pl := by
  rw [rtScbOvrwr, if_pos ⟨h0, hn⟩]
  dsimp only
  split
  · exact ⟨_, rfl⟩
  · exact ⟨_, rfl⟩

/-- A write moves the writer's index, and stays behind the reader's. -/
theorem At.written_fits (h : At s g p) {pl : Plan} (hi : pl.index = some ((p + n) % s.size))
    (h0 : 0 < n) (hfit : p + n < g + s.size) : At (written s msg (some pl)) g (p + n) := by
  have hle := h.le
  constructor
  · exact h.size
  · exact h.fbyte
  · show pl.index.getD s.lbyte = _
    rw [hi]
    rfl
  · omega
  · exact hfit

/-- A write passes the reader's index. -/
theorem At.written_passes (h : At s g p) {pl : Plan}
    (hi : pl.index = some ((p + n) % s.size)) (hn : n < s.size)
    (hpass : g + s.size ≤ p + n) : At (written s msg (some pl)) g (p + n - s.size) := by
  have hfits := h.fits
  constructor
  · exact h.size
  · exact h.fbyte
  · show pl.index.getD s.lbyte = (p + n - s.size) % s.size
    rw [hi, Int.sub_emod_right]
    rfl
  · omega
  · show p + n - s.size < g + s.size
    omega

/-- A read moves the reader's index. -/
theorem At.read (h : At s g p) {pl : Plan} (hi : pl.index = some ((g + n) % s.size))
    (h0 : 0 < n) (hn : g + n ≤ p) : At (got s (some pl)) (g + n) p := by
  have hfits := h.fits
  constructor
  · exact h.size
  · show pl.index.getD s.fbyte = _
    rw [hi]
    rfl
  · exact h.lbyte
  · exact hn
  · show p < g + n + s.size
    omega

/-- A put appends its message to the content. -/
theorem At.contents_written (h : At s g p) {pl : Plan}
    (hi : pl.index = some ((p + n) % s.size)) (ht : Tiles s.size p n 0 pl.copies)
    (h0 : 0 < n) (hfit : p + n < g + s.size) :
    (written s msg (some pl)).contents = s.contents ++ message msg n := by
  have hle := h.le
  have hw : At (written s msg (some pl)) g (p + n) := h.written_fits hi h0 hfit
  have hlen := h.length_contents
  have hlen' := hw.length_contents
  have hmsg : ((message msg n).length : Int) = n := by
    rw [message, List.length_map, List.length_range]
    omega
  refine List.ext_getElem ?_ ?_
  · rw [List.length_append]
    omega
  · intro k hk hk'
    rw [hw.getElem_contents hk]
    show writeCells pl.copies msg s.bytes ((g + k) % s.size) = _
    by_cases hold : k < s.contents.length
    · rw [List.getElem_append_left hold, h.getElem_contents hold]
      exact writeCells_other h.size ht msg s.bytes (by omega) (by omega)
    · rw [List.getElem_append_right (by omega),
        writeCells_own h.size ht (by omega) msg s.bytes (by omega) (by omega)]
      simp only [message, List.getElem_map, List.getElem_range]
      congr 1
      omega

/-- A get hands over the first bytes and leaves the others. -/
theorem At.contents_got (h : At s g p) {pl : Plan}
    (hi : pl.index = some ((g + n) % s.size)) (ht : Tiles s.size g n 0 pl.copies)
    (h0 : 0 < n) (hn : g + n ≤ p) (dst : Int → UInt8) :
    s.contents = message (readCells pl.copies s.bytes dst) n ++ (got s (some pl)).contents := by
  have hg := h.read hi h0 hn
  have hlen := h.length_contents
  have hlen' := hg.length_contents
  have hmsg : ((message (readCells pl.copies s.bytes dst) n).length : Int) = n := by
    rw [message, List.length_map, List.length_range]
    omega
  refine List.ext_getElem ?_ ?_
  · rw [List.length_append]
    omega
  · intro k hk hk'
    rw [h.getElem_contents hk]
    by_cases hnew : k < (message (readCells pl.copies s.bytes dst) n).length
    · rw [List.getElem_append_left hnew]
      simp only [message, List.getElem_map, List.getElem_range]
      rw [readCells_own h.size ht s.bytes dst (by omega) (by omega)]
    · have hrest : k - (message (readCells pl.copies s.bytes dst) n).length <
          (got s (some pl)).contents.length := by omega
      rw [List.getElem_append_right (by omega), hg.getElem_contents hrest]
      show s.bytes _ = s.bytes _
      congr 1
      show (g + k) % s.size = (g + n + _) % s.size
      congr 1
      omega

/-! ## What can be got -/

theorem At.prefix_of_gets {ns : List Int} {l : List UInt8} (h : At s g p)
    (hns : gets s ns = some l) : l <+: s.contents := by
  induction ns generalizing s g l with
  | nil =>
    cases hns
    exact List.nil_prefix
  | cons n ns ih =>
    simp only [gets] at hns
    obtain ⟨pl, hpl, hns⟩ := Option.bind_eq_some_iff.mp hns
    obtain ⟨rest, hrest, hns⟩ := Option.bind_eq_some_iff.mp hns
    cases hns
    rw [h.fbyte, h.lbyte] at hpl
    obtain ⟨h0, hn, hi, ht⟩ := get_some h.size h.le h.fits hpl
    rw [h.contents_got hi ht h0 hn fun _ => 0]
    exact (List.prefix_append_right_inj _).mpr (ih (h.read hi h0 hn) hrest)

theorem At.obtainable_iff (h : At s g p) {l : List UInt8} :
    Obtainable s l ↔ l <+: s.contents := by
  constructor
  · rintro ⟨ns, hns⟩
    exact h.prefix_of_gets hns
  · intro hl
    have hlen := h.length_contents
    have hle := hl.length_le
    by_cases hnil : l.length = 0
    · rw [List.length_eq_zero_iff] at hnil
      exact ⟨[], by rw [hnil]; rfl⟩
    · -- one get of the whole length
      have h0 : (0 : Int) < l.length := by omega
      have hn : g + l.length ≤ p := by omega
      cases hpl : rtScbGet s.size (g % s.size) (p % s.size) l.length with
      | none => exact absurd ⟨h0, hn⟩ (get_none h.size h.le h.fits hpl)
      | some pl =>
        obtain ⟨-, -, hi, ht⟩ := get_some h.size h.le h.fits hpl
        have hsplit := h.contents_got hi ht h0 hn fun _ => 0
        have hmsg : message (readCells pl.copies s.bytes fun _ => 0) l.length = l := by
          rw [List.prefix_iff_eq_take, hsplit] at hl
          rw [hl, List.take_left' (by simp [message])]
          simp [message]
        refine ⟨[(l.length : Int)], ?_⟩
        rw [← h.fbyte, ← h.lbyte] at hpl
        simp only [gets, hpl, Option.bind_eq_bind, Option.bind_some, Option.pure_def,
          List.append_nil, hmsg]

/-! ## Every run -/

theorem got_bounds (hb : Bounds s) : Bounds (got s (rtScbGet s.size s.fbyte s.lbyte n)) := by
  obtain ⟨g, p, h⟩ : ∃ g p, At s g p := ⟨_, hb.at⟩
  cases hpl : rtScbGet s.size s.fbyte s.lbyte n with
  | none => exact hb
  | some pl =>
    rw [h.fbyte, h.lbyte] at hpl
    obtain ⟨h0, hn, hi, -⟩ := get_some h.size h.le h.fits hpl
    exact (h.read hi h0 hn).bounds

theorem call_bounds (hb : Bounds s) (c : Call) : Bounds (call s c) := by
  obtain ⟨g, p, h⟩ : ∃ g p, At s g p := ⟨_, hb.at⟩
  cases c with
  | put msg n =>
    show Bounds (written s msg (rtScbPut s.size s.fbyte s.lbyte n))
    cases hpl : rtScbPut s.size s.fbyte s.lbyte n with
    | none => exact hb
    | some pl =>
      rw [h.fbyte, h.lbyte] at hpl
      obtain ⟨h0, hn, hi, -⟩ := put_some h.size h.le h.fits hpl
      exact (h.written_fits hi h0 hn).bounds
  | get n => exact got_bounds hb
  | evdrp n =>
    show Bounds (got s (rtScbEvdrp s.size s.fbyte s.lbyte n))
    rw [evdrp_eq]
    cases rtScbGet s.size s.fbyte s.lbyte n with
    | none => exact hb
    | some pl => exact hb
  | ovrwr msg n =>
    show Bounds (written s msg (rtScbOvrwr s.size s.lbyte n))
    cases hpl : rtScbOvrwr s.size s.lbyte n with
    | none => exact hb
    | some pl =>
      rw [h.lbyte] at hpl
      obtain ⟨h0, hn, hi, -⟩ := ovrwr_some h.size hpl
      by_cases hfit : p + n < g + s.size
      · exact (h.written_fits hi h0 hfit).bounds
      · exact (h.written_passes hi hn (by omega)).bounds
  | reset =>
    have hpos := hb.size
    exact ⟨hpos, ⟨Int.le_refl _, hpos⟩, Int.le_refl _, hpos⟩

theorem bounds_of_reach {size : Nat} {bytes : Int → UInt8}
    (h : Reach callStep (fun _ _ => True) (initted size bytes).scb s) : Bounds s := by
  refine h.invariant ?_ ?_
  · have hpos : (0 : Int) < size + 1 := by omega
    exact ⟨hpos, ⟨Int.le_refl _, hpos⟩, Int.le_refl _, hpos⟩
  · intro t c t' o ht _ hs
    rw [callStep, Option.some.injEq, Prod.mk.injEq] at hs
    rw [← hs.1]
    exact call_bounds ht c

/-! ## The overwriting put -/

theorem At.avbs_passes (h : At s g p) {pl : Plan}
    (hi : pl.index = some ((p + n) % s.size)) (hn : n < s.size)
    (hpass : g + s.size ≤ p + n) :
    rtScbAvbs (written s msg (some pl)) = rtScbAvbs s + n - s.size := by
  rw [(h.written_passes hi hn hpass).avbs, h.avbs]
  omega

theorem keepsNewest_iff (hb : Bounds s) (h0 : 0 < n) (hn : n < s.size) :
    KeepsNewest s msg n ↔ rtScbAvbs s + n < s.size := by
  obtain ⟨g, p, h⟩ : ∃ g p, At s g p := ⟨_, hb.at⟩
  obtain ⟨pl, hpl⟩ := ovrwr_isSome (N := s.size) (l := s.lbyte) h0 hn
  have hcall : call s (.ovrwr msg n) = written s msg (some pl) := by
    rw [call, hpl]
  rw [h.lbyte] at hpl
  obtain ⟨-, -, hi, ht⟩ := ovrwr_some h.size hpl
  have havbs := h.avbs
  have hle := h.le
  have hfits := h.fits
  constructor
  · intro hk
    by_contra hc
    -- what is left is one round less
    have hleft := hk.avbs
    rw [hcall, h.avbs_passes hi hn (by omega), keptLength] at hleft
    omega
  · intro hroom
    have hfit : p + n < g + s.size := by omega
    have hw : At (written s msg (some pl)) g (p + n) := h.written_fits hi h0 hfit
    have hkept : keptLength s n = rtScbAvbs s + n := by
      rw [keptLength]
      omega
    constructor
    · intro l
      have hall : newest s msg n = s.contents ++ message msg n := by
        have hlen := h.length_contents
        rw [newest, hkept, List.rtake_eq_reverse_take_reverse, List.take_of_length_le]
        · rw [List.reverse_reverse]
        · simp only [List.length_reverse, List.length_append, message, List.length_map,
            List.length_range]
          omega
      rw [hcall, hw.obtainable_iff, h.contents_written hi ht h0 hfit, hall]
    · rw [hcall, hw.avbs, hkept, havbs]
      omega

/-- **AN OVERWRITING PUT KEEPS THE NEWEST BYTES** exactly when it overwrites
    none, in every state that the calls lead to. -/
theorem ovrwr_keeps_newest_iff (size : Nat) (bytes : Int → UInt8) (s : Scb)
    (h : Reach callStep (fun _ _ => True) (initted size bytes).scb s)
    (msg : Int → UInt8) (msgSize : Int) (h0 : 0 < msgSize) (hn : msgSize < s.size) :
    KeepsNewest s msg msgSize ↔ rtScbAvbs s + msgSize < s.size :=
  keepsNewest_iff (bounds_of_reach h) h0 hn

/-- Beside two bytes there is room for one more, but not for two. -/
theorem ovrwr_beside_two : ∃ s, Reach callStep (fun _ _ => True) (initted 3 fun _ => 0).scb s ∧
      rtScbAvbs s = 2 ∧ KeepsNewest s (fun _ => 2) 1 ∧
      ¬ KeepsNewest s (fun _ => 2) 2 := by
  have hreach : Reach callStep (fun _ _ => True) (initted 3 fun _ => 0).scb
      (call (initted 3 fun _ => 0).scb (.put (fun _ => 1) 2)) :=
    (Reach.refl _).tail (a := .put (fun _ => 1) 2) (o := ()) trivial rfl
  have hiff := ovrwr_keeps_newest_iff 3 (fun _ => 0) _ hreach (fun _ => 2)
  refine ⟨_, hreach, rfl, (hiff 1 (by decide) (by decide)).mpr (by decide), ?_⟩
  rw [hiff 2 (by decide) (by decide)]
  decide

/-- Three bytes over two: the writer passes the reader, and of the three newest
    bytes only the last can be got. -/
theorem ovrwr_loses_bytes : ∃ s,
    Reach callStep (fun _ _ => True) (initted 3 fun _ => 0).scb s ∧
      s.size = 4 ∧ rtScbAvbs s = 2 ∧
      rtScbAvbs (call s (.ovrwr (fun _ => 2) 3)) = 1 ∧ ¬ KeepsNewest s (fun _ => 2) 3 := by
  have hreach : Reach callStep (fun _ _ => True) (initted 3 fun _ => 0).scb
      (call (initted 3 fun _ => 0).scb (.put (fun _ => 1) 2)) :=
    (Reach.refl _).tail (a := .put (fun _ => 1) 2) (o := ()) trivial rfl
  refine ⟨_, hreach, rfl, rfl, rfl, ?_⟩
  rw [keepsNewest_iff (bounds_of_reach hreach) (by decide) (by decide)]
  decide

end RtaiScbOverwrite
