import Rtai.ScbOrder

/-! # rtai_scb.h: the counts of a shared circular buffer

    `rt_scb_avbs` counts the bytes that can be got, `rt_scb_frbs` the free
    space.  A put leaves one byte free, so that it needs less than the free
    space. -/

namespace RtaiScbCounts

open RtaiRuns RtaiScb RtaiScbOrder

/-- `rt_scb_frbs` -/
def rtScbFrbs (s : Scb) : Int :=
  if s.fbyte ≤ s.lbyte then s.size + s.fbyte - s.lbyte else s.size - s.lbyte

/-- `rt_scb_get` gets the message.  Of no bytes it gets nothing, and returns 0
    all the same. -/
def getSucceeds (s : Scb) (msgSize : Int) : Prop :=
  (rtScbGet s.size s.fbyte s.lbyte msgSize).isSome

/-- `rt_scb_put` puts the message. -/
def putSucceeds (s : Scb) (msgSize : Int) : Prop :=
  (rtScbPut s.size s.fbyte s.lbyte msgSize).isSome

/-- The counts agree with the transfers. -/
structure CountsAgree (s : Scb) : Prop where
  sum : rtScbAvbs s + rtScbFrbs s = s.size
  get : ∀ m, getSucceeds s m ↔ 0 < m ∧ m ≤ rtScbAvbs s
  put : ∀ m, putSucceeds s m ↔ 0 < m ∧ m < rtScbFrbs s

/-! ## Transfers -/

variable {s : Scb} {m : Int}

theorem getSucceeds_iff : getSucceeds s m ↔ 0 < m ∧ m ≤ rtScbAvbs s := by
  have havbs : rtScbAvbs s =
      if s.lbyte - s.fbyte ≥ 0 then s.lbyte - s.fbyte
      else s.size + (s.lbyte - s.fbyte) := by
    simp only [rtScbAvbs]
    split
    · rw [if_pos (by omega)]
    · rw [if_neg (by omega)]
      omega
  rw [havbs]
  constructor
  · intro h
    by_contra hc
    rw [getSucceeds, rtScbGet, if_neg hc] at h
    cases h
  · intro hc
    rw [getSucceeds, rtScbGet, if_pos hc]
    dsimp only
    split <;> rfl

/-- The space that a put looks at. -/
theorem putSucceeds_iff :
    putSucceeds s m ↔ 0 < m ∧ m < s.size - rtScbAvbs s := by
  have hroom : s.size - rtScbAvbs s =
      if s.fbyte - s.lbyte ≤ 0 then s.size + (s.fbyte - s.lbyte)
      else s.fbyte - s.lbyte := by
    simp only [rtScbAvbs]
    split
    · rw [if_pos (by omega)]
      omega
    · rw [if_neg (by omega)]
      omega
  rw [hroom]
  constructor
  · intro h
    by_contra hc
    rw [putSucceeds, rtScbPut, if_neg hc] at h
    cases h
  · intro hc
    rw [putSucceeds, rtScbPut, if_pos hc]
    dsimp only
    split <;> rfl

/-- What is counted as free is free as long as the bytes do not go round. -/
theorem frbs_iff (hf : s.fbyte < s.size) :
    rtScbAvbs s + rtScbFrbs s = s.size ↔ s.fbyte ≤ s.lbyte := by
  simp only [rtScbAvbs, rtScbFrbs]
  constructor
  · intro h
    by_contra hc
    rw [if_neg (by omega), if_neg hc] at h
    omega
  · intro hle
    rw [if_pos (by omega), if_pos hle]
    omega

theorem countsAgree_iff (hf : s.fbyte < s.size) : CountsAgree s ↔ s.fbyte ≤ s.lbyte := by
  constructor
  · intro h
    exact (frbs_iff hf).mp h.sum
  · intro hle
    have hsum := (frbs_iff hf).mpr hle
    constructor
    · exact hsum
    · intro m
      exact getSucceeds_iff
    · intro m
      rw [putSucceeds_iff]
      constructor
      · rintro ⟨h0, h1⟩
        exact ⟨h0, by omega⟩
      · rintro ⟨h0, h1⟩
        exact ⟨h0, by omega⟩

/-- **THE COUNTS OF A CIRCULAR BUFFER AGREE WITH ITS TRANSFERS** exactly as long
    as the bytes in it do not go round, after any number of puts and gets. -/
theorem counts_agree_iff (size : Nat) (bytes : Int → UInt8) (x : ScbRun)
    (h : Reach scbStep (fun _ _ => True) (initted size bytes) x) :
    CountsAgree x.scb ↔ x.scb.fbyte ≤ x.scb.lbyte := by
  have I : ScbInv x := h.invariant (initted_inv size bytes) fun _ _ _ _ I _ hs => I.step hs
  refine countsAgree_iff ?_
  rw [I.fbyte]
  exact Int.emod_lt_of_pos _ I.size_pos

/-! ## Going round -/

/-- Two bytes are put and got, and two more are put. -/
def goingRound : List ScbAction :=
  [ScbAction.put (fun _ => 1) 2] ++ List.replicate 5 ScbAction.produce ++
    [ScbAction.get (fun _ => 0) 2] ++ List.replicate 5 ScbAction.consume ++
    [ScbAction.put (fun _ => 2) 2] ++ List.replicate 6 ScbAction.produce

/-- The same, with one byte put at the end, which does not go round. -/
def stayingBelow : List ScbAction :=
  [ScbAction.put (fun _ => 1) 2] ++ List.replicate 5 ScbAction.produce ++
    [ScbAction.get (fun _ => 0) 2] ++ List.replicate 5 ScbAction.consume ++
    [ScbAction.put (fun _ => 2) 1] ++ List.replicate 5 ScbAction.produce

/-- Of four bytes one is used, and three are counted as free. -/
theorem counts_agree_below : ∃ x, Reach scbStep (fun _ _ => True) (initted 3 fun _ => 0) x ∧
      x.scb.fbyte = 2 ∧ x.scb.lbyte = 3 ∧ CountsAgree x.scb := by
  obtain ⟨x, hplay, hf, hl⟩ : ∃ x,
      play scbStep (fun _ _ => True) (initted 3 fun _ => 0) stayingBelow = some x ∧
      x.scb.fbyte = 2 ∧ x.scb.lbyte = 3 :=
    ⟨_, rfl, rfl, rfl⟩
  have hreach := reach_of_play hplay
  refine ⟨x, hreach, hf, hl, (counts_agree_iff 3 (fun _ => 0) x hreach).mpr ?_⟩
  rw [hf, hl]
  decide

/-- Of four bytes two are free, and all four are counted. -/
theorem frbs_counts_used_bytes : ∃ x,
    Reach scbStep (fun _ _ => True) (initted 3 fun _ => 0) x ∧
      x.scb.fbyte = 2 ∧ x.scb.lbyte = 0 ∧ rtScbAvbs x.scb = 2 ∧
      rtScbFrbs x.scb = 4 ∧ ¬ CountsAgree x.scb := by
  obtain ⟨x, hplay, hf, hl, hs⟩ : ∃ x,
      play scbStep (fun _ _ => True) (initted 3 fun _ => 0) goingRound = some x ∧
      x.scb.fbyte = 2 ∧ x.scb.lbyte = 0 ∧ x.scb.size = 4 :=
    ⟨_, rfl, rfl, rfl, rfl⟩
  refine ⟨x, reach_of_play hplay, hf, hl, ?_, ?_, ?_⟩
  · simp [rtScbAvbs, hf, hl, hs]
  · simp [rtScbFrbs, hf, hl, hs]
  · rw [countsAgree_iff (by omega)]
    omega

end RtaiScbCounts
