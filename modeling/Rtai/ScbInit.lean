import Rtai.Scb

/-! # rtai_scb.h: initialising a shared circular buffer

    Every party calls `rt_scb_init` with the same name.  The first one claims
    the zeroed memory by a compare-and-exchange of word 0, which is also the
    word of the size, with the name; it clears the indices and stores the size.
    The others wait until word 0 is not 0 any more, which the name does as well
    as the size.

    Each access to a word is a step of its own, and whoever has been given the
    buffer may put and get in the meantime. -/

namespace RtaiScbInit

open RtaiRuns RtaiScb

/-- Where a call is: not made yet, before one of its stores or its next waiting
    read, or back. -/
inductive InitPc where
  | out | clearLbyte | clearFbyte | setSize | waiting | back
  deriving DecidableEq

/-- The words when a call returns, and what the last get and the last put have
    stored in the indices. -/
structure InitReturn where
  size : Int
  fbyte : Int
  lbyte : Int
  fbyteStored : Int
  lbyteStored : Int

/-- The buffer in use, the calls, and what has been seen: `marker` tells whether
    word 0 has been claimed since the size has been stored last. -/
structure InitRun where
  run : ScbRun
  calls : Nat → InitPc
  marker : Bool
  fbyteStored : Int
  lbyteStored : Int
  returns : List InitReturn

/-- `(int)name` -/
def nameWord (name : UInt64) : Int := name.toUInt32.toInt32.toInt

/-- What the next step of the consumer stores in `FBYTE`. -/
def storesFbyte (x : ScbRun) : ScbAction → Option Int
  | .consume =>
    match x.consumer with
    | some ⟨_, _, _, _, _, .copying [] index⟩ => index
    | _ => none
  | _ => none

/-- What the next step of the producer stores in `LBYTE`. -/
def storesLbyte (x : ScbRun) : ScbAction → Option Int
  | .produce =>
    match x.producer with
    | some ⟨_, _, _, _, _, .copying [] index⟩ => index
    | _ => none
  | _ => none

/-- The call `i` goes on after a store. -/
def InitRun.store (x : InitRun) (i : Nat) (pc : InitPc) (scb : Scb) : InitRun :=
  { x with
    run := { x.run with scb := scb }
    calls := Function.update x.calls i pc }

/-- The call `i` returns. -/
def InitRun.back (x : InitRun) (i : Nat) : InitRun :=
  { x with
    calls := Function.update x.calls i .back
    returns :=
      ⟨x.run.scb.size, x.run.scb.fbyte, x.run.scb.lbyte, x.fbyteStored,
        x.lbyteStored⟩ :: x.returns }

/-- The accesses. -/
inductive InitAction where
  /-- A call is made: its compare-and-exchange. -/
  | call (i : Nat)
  /-- The next access of a call. -/
  | step (i : Nat)
  /-- Whoever has the buffer uses it. -/
  | use (a : ScbAction)

/-- What an access does. -/
def initStep (name : UInt64) (size : Int32) (x : InitRun) :
    InitAction → Option (InitRun × Unit)
  | .call i =>
    if x.calls i = .out then
      if x.run.scb.size = 0 then
        some ({ x.store i .clearLbyte { x.run.scb with size := nameWord name }
          with marker := true }, ())
      else some ({ x with calls := Function.update x.calls i .waiting }, ())
    else none
  | .step i =>
    match x.calls i with
    | .clearLbyte =>
      some (x.store i .clearFbyte { x.run.scb with lbyte := 0 }, ())
    | .clearFbyte =>
      some (x.store i .setSize { x.run.scb with fbyte := 0 }, ())
    | .setSize =>
      let scb := { x.run.scb with size := (size + 1).toInt }
      some ({ x.store i .setSize scb with marker := false }.back i, ())
    | .waiting =>
      if x.run.scb.size = 0 then some (x, ()) else some (x.back i, ())
    | .out | .back => none
  | .use a =>
    match x.returns with
    | [] => none
    | _ :: _ => do
        let (run, _) ← scbStep x.run a
        some ({ x with
          run := run
          fbyteStored := (storesFbyte x.run a).getD x.fbyteStored
          lbyteStored := (storesLbyte x.run a).getD x.lbyteStored }, ())

/-- Zeroed memory, before any call. -/
def zeroed (bytes : Int → UInt8) : InitRun where
  run := ⟨⟨0, 0, 0, bytes⟩, none, none, [], []⟩
  calls := fun _ => .out
  marker := false
  fbyteStored := 0
  lbyteStored := 0
  returns := []

/-- Ready for use: the size is there, and the indices are what the last get and
    the last put have stored, or 0. -/
def InitReturn.Ready (size : Int32) (r : InitReturn) : Prop :=
  r.size = (size + 1).toInt ∧ r.fbyte = r.fbyteStored ∧ r.lbyte = r.lbyteStored

/-- A waiting read does not end on the name, and no call clears an index that a
    put or a get has stored. -/
def WaitsForSize (name : UInt64) (size : Int32) (x : InitRun) : InitAction → Prop
  | .step i =>
    match x.calls i with
    | .clearLbyte => x.lbyteStored = 0
    | .clearFbyte => x.fbyteStored = 0
    | .waiting => x.run.scb.size ≠ 0 → x.marker = true → nameWord name = (size + 1).toInt
    | _ => True
  | _ => True

/-! ## Using the buffer -/

section Use

variable {x x' : ScbRun} {a : ScbAction} {o : Unit}

theorem produce_words (x : ScbRun) (c : ScbCall) : (produce x c).scb.size = x.scb.size ∧
      (produce x c).scb.fbyte = x.scb.fbyte := by
  obtain ⟨op, n, msg, was, given, pc⟩ := c
  cases pc with
  | size => exact ⟨rfl, rfl⟩
  | fbyte => exact ⟨rfl, rfl⟩
  | lbyte =>
    simp only [produce]
    split <;> exact ⟨rfl, rfl⟩
  | copying copies index => cases copies <;> exact ⟨rfl, rfl⟩

theorem produce_lbyte {c : ScbCall} (hc : x.producer = some c) :
    (produce x c).scb.lbyte = (storesLbyte x .produce).getD x.scb.lbyte := by
  obtain ⟨op, n, msg, was, given, pc⟩ := c
  simp only [storesLbyte, hc]
  cases pc with
  | size => rfl
  | fbyte => rfl
  | lbyte =>
    simp only [produce]
    split <;> rfl
  | copying copies index => cases copies <;> rfl

theorem consume_words (x : ScbRun) (c : ScbCall) : (consume x c).scb.size = x.scb.size ∧
      (consume x c).scb.lbyte = x.scb.lbyte := by
  obtain ⟨op, n, msg, was, given, pc⟩ := c
  cases pc with
  | size => exact ⟨rfl, rfl⟩
  | fbyte => exact ⟨rfl, rfl⟩
  | lbyte =>
    simp only [consume]
    split <;> exact ⟨rfl, rfl⟩
  | copying copies index => cases copies <;> exact ⟨rfl, rfl⟩

theorem consume_fbyte {c : ScbCall} (hc : x.consumer = some c) :
    (consume x c).scb.fbyte = (storesFbyte x .consume).getD x.scb.fbyte := by
  obtain ⟨op, n, msg, was, given, pc⟩ := c
  simp only [storesFbyte, hc]
  cases pc with
  | size => rfl
  | fbyte => rfl
  | lbyte =>
    simp only [consume]
    split <;> rfl
  | copying copies index => cases copies <;> rfl

/-- **USING THE BUFFER** never changes its size, and changes an index only by
    storing in it. -/
theorem scbStep_words (h : scbStep x a = some (x', o)) : x'.scb.size = x.scb.size ∧
      x'.scb.fbyte = (storesFbyte x a).getD x.scb.fbyte ∧
      x'.scb.lbyte = (storesLbyte x a).getD x.scb.lbyte := by
  cases a with
  | produce =>
    obtain ⟨c, hc, h⟩ := Option.bind_eq_some_iff.mp h
    cases h
    exact ⟨(produce_words x c).1, (produce_words x c).2, produce_lbyte hc⟩
  | consume =>
    obtain ⟨c, hc, h⟩ := Option.bind_eq_some_iff.mp h
    cases h
    exact ⟨(consume_words x c).1, consume_fbyte hc, (consume_words x c).2⟩
  | put msg n =>
    simp only [scbStep] at h
    split at h
    · cases h
      exact ⟨rfl, rfl, rfl⟩
    · exact nomatch h
  | get msg n =>
    simp only [scbStep] at h
    split at h
    · cases h
      exact ⟨rfl, rfl, rfl⟩
    · exact nomatch h
  | evdrp msg n =>
    simp only [scbStep] at h
    split at h
    · cases h
      exact ⟨rfl, rfl, rfl⟩
    · exact nomatch h

end Use

/-! ## Every call returns to a buffer that is ready -/

/-- The words hold what they should. -/
structure InitInv (name : UInt64) (size : Int32) (x : InitRun) : Prop where
  claimed : x.marker = true → x.run.scb.size = nameWord name
  stored : x.marker = false → x.run.scb.size = 0 ∨ x.run.scb.size = (size + 1).toInt
  fbyte : x.run.scb.fbyte = x.fbyteStored
  lbyte : x.run.scb.lbyte = x.lbyteStored
  ready : ∀ r ∈ x.returns, r.Ready size

section Steps

variable {name : UInt64} {size : Int32} {x x' : InitRun}

theorem zeroed_inv (bytes : Int → UInt8) : InitInv name size (zeroed bytes) where
  claimed := nofun
  stored := fun _ => Or.inl rfl
  fbyte := rfl
  lbyte := rfl
  ready := nofun

/-- A return to the words as they should be. -/
theorem InitInv.back (I : InitInv name size x) {i : Nat}
    (hsize : x.run.scb.size = (size + 1).toInt) :
    InitInv name size (x.back i) where
  claimed := I.claimed
  stored := I.stored
  fbyte := I.fbyte
  lbyte := I.lbyte
  ready := by
    intro r hr
    rcases List.mem_cons.mp hr with rfl | hr
    · exact ⟨hsize, I.fbyte, I.lbyte⟩
    · exact I.ready r hr

/-- **One guarded step keeps the invariant.** -/
theorem InitInv.step (I : InitInv name size x) {a : InitAction} {o : Unit}
    (hg : WaitsForSize name size x a) (h : initStep name size x a = some (x', o)) :
    InitInv name size x' := by
  cases a with
  | call i =>
    simp only [initStep] at h
    split at h
    · split at h
      · cases h
        exact ⟨fun _ => rfl, nofun, I.fbyte, I.lbyte, I.ready⟩
      · cases h
        exact ⟨I.claimed, I.stored, I.fbyte, I.lbyte, I.ready⟩
    · exact nomatch h
  | step i =>
    cases hpc : x.calls i with
    | out =>
      simp only [initStep, hpc] at h
      exact nomatch h
    | clearLbyte =>
      simp only [initStep, hpc] at h
      simp only [WaitsForSize, hpc] at hg
      cases h
      exact ⟨I.claimed, I.stored, I.fbyte, hg.symm, I.ready⟩
    | clearFbyte =>
      simp only [initStep, hpc] at h
      simp only [WaitsForSize, hpc] at hg
      cases h
      exact ⟨I.claimed, I.stored, hg.symm, I.lbyte, I.ready⟩
    | setSize =>
      simp only [initStep, hpc] at h
      cases h
      have hset : InitInv name size { x.store i .setSize
          { x.run.scb with size := (size + 1).toInt } with marker := false } :=
        ⟨nofun, fun _ => Or.inr rfl, I.fbyte, I.lbyte, I.ready⟩
      exact hset.back rfl
    | waiting =>
      simp only [initStep, hpc] at h
      simp only [WaitsForSize, hpc] at hg
      split at h
      · cases h
        exact I
      · next hne =>
          cases h
          refine I.back ?_
          cases hm : x.marker with
          | true => exact (I.claimed hm).trans (hg hne hm)
          | false => exact (I.stored hm).resolve_left hne
    | back =>
      simp only [initStep, hpc] at h
      exact nomatch h
  | use a =>
    cases hr : x.returns with
    | nil =>
      simp only [initStep, hr] at h
      exact nomatch h
    | cons r rs =>
      simp only [initStep, hr] at h
      obtain ⟨⟨run, u⟩, hs, h⟩ := Option.bind_eq_some_iff.mp h
      cases h
      obtain ⟨h0, h1, h2⟩ := scbStep_words hs
      refine ⟨fun hm => h0.trans (I.claimed hm), fun hm => ?_, ?_, ?_, ?_⟩
      · rw [h0]
        exact I.stored hm
      · rw [h1, I.fbyte]
      · rw [h2, I.lbyte]
      · rw [← hr]
        exact I.ready

/-! ## Names with low bits -/

/-- The call has claimed the memory and not stored the size. -/
def InitPc.Claiming : InitPc → Prop
  | .clearLbyte | .clearFbyte | .setSize => True
  | .out | .waiting | .back => False

/-- A waiting read does not end on the name. -/
def EndsOnSize (x : InitRun) : InitAction → Prop
  | .step i => x.calls i = .waiting → x.run.scb.size ≠ 0 → x.marker = false
  | _ => True

/-- The memory is claimed once, before anyone has it. -/
structure OnceInv (name : UInt64) (size : Int32) (x : InitRun) : Prop where
  unused : x.returns = [] → x.fbyteStored = 0 ∧ x.lbyteStored = 0
  claimed : x.marker = true → x.run.scb.size = nameWord name ∧ x.returns = [] ∧
    ∀ i j, (x.calls i).Claiming → (x.calls j).Claiming → i = j
  stored : x.marker = false → (∀ i, ¬ (x.calls i).Claiming) ∧
    (x.run.scb.size = 0 ∧ x.returns = [] ∨ x.run.scb.size = (size + 1).toInt)

/-- What is claiming after one call has moved. -/
theorem claiming_update {calls : Nat → InitPc} {i j : Nat} {pc : InitPc}
    (h : (Function.update calls i pc j).Claiming) :
    (j = i ∧ pc.Claiming) ∨ (j ≠ i ∧ (calls j).Claiming) := by
  by_cases hj : j = i
  · subst hj
    rw [Function.update_self] at h
    exact Or.inl ⟨rfl, h⟩
  · rw [Function.update_of_ne hj] at h
    exact Or.inr ⟨hj, h⟩

theorem OnceInv.not_marked (I : OnceInv name size x) {i : Nat}
    (hi : (x.calls i).Claiming) : x.marker = true := by
  cases hm : x.marker with
  | true => rfl
  | false => exact absurd hi ((I.stored hm).1 i)

/-- A claiming call that stays claiming. -/
theorem OnceInv.moves (I : OnceInv name size x) {i : Nat} {pc : InitPc}
    {scb : Scb} (hi : (x.calls i).Claiming) (hsize : scb.size = x.run.scb.size) :
    OnceInv name size (x.store i pc scb) := by
  have hm := I.not_marked hi
  obtain ⟨hname, hnone, honce⟩ := I.claimed hm
  refine ⟨I.unused, fun _ => ⟨hsize.trans hname, hnone, fun j k hj hk => ?_⟩, fun hn => ?_⟩
  · have hcall : ∀ j, ((x.store i pc scb).calls j).Claiming → (x.calls j).Claiming := by
      intro j hj
      rcases claiming_update hj with ⟨rfl, -⟩ | ⟨-, hj'⟩
      · exact hi
      · exact hj'
    exact honce j k (hcall j hj) (hcall k hk)
  · rw [show x.marker = false from hn] at hm
    exact nomatch hm

theorem OnceInv.step (hname : nameWord name ≠ 0) (hsize : (size + 1).toInt ≠ 0)
    (I : OnceInv name size x) {a : InitAction} {o : Unit} (hg : EndsOnSize x a)
    (h : initStep name size x a = some (x', o)) : OnceInv name size x' := by
  cases a with
  | call i =>
    simp only [initStep] at h
    split at h
    · split at h
      · next h0 =>
          -- word 0 is 0 only before the first claim
          cases h
          have hm : x.marker = false := by
            cases hm : x.marker with
            | false => rfl
            | true => exact absurd ((I.claimed hm).1.symm.trans h0) hname
          obtain ⟨hno, hfirst⟩ := I.stored hm
          have hnone : x.returns = [] := by
            rcases hfirst with hf | hf
            · exact hf.2
            · exact absurd (hf.symm.trans h0) hsize
          refine ⟨I.unused, fun _ => ⟨rfl, hnone, fun j k hj hk => ?_⟩, nofun⟩
          rcases claiming_update hj with ⟨rfl, -⟩ | ⟨-, hj⟩
          · rcases claiming_update hk with ⟨rfl, -⟩ | ⟨-, hk⟩
            · rfl
            · exact absurd hk (hno _)
          · exact absurd hj (hno _)
      · cases h
        have hback : ∀ j, (Function.update x.calls i .waiting j).Claiming →
              (x.calls j).Claiming := by
          intro j hj
          rcases claiming_update hj with ⟨-, hj⟩ | ⟨-, hj⟩
          · exact hj.elim
          · exact hj
        refine ⟨I.unused, fun hm => ?_, fun hm => ?_⟩
        · obtain ⟨h1, h2, h3⟩ := I.claimed hm
          exact ⟨h1, h2, fun j k hj hk => h3 j k (hback j hj) (hback k hk)⟩
        · obtain ⟨h1, h2⟩ := I.stored hm
          exact ⟨fun j hj => h1 j (hback j hj), h2⟩
    · exact nomatch h
  | step i =>
    cases hpc : x.calls i with
    | out =>
      simp only [initStep, hpc] at h
      exact nomatch h
    | clearLbyte =>
      simp only [initStep, hpc] at h
      cases h
      exact I.moves (by rw [hpc]; trivial) rfl
    | clearFbyte =>
      simp only [initStep, hpc] at h
      cases h
      exact I.moves (by rw [hpc]; trivial) rfl
    | setSize =>
      simp only [initStep, hpc] at h
      cases h
      have hi : (x.calls i).Claiming := by rw [hpc]; trivial
      obtain ⟨-, hnone, honce⟩ := I.claimed (I.not_marked hi)
      refine ⟨nofun, nofun, fun _ => ⟨fun j hj => ?_, Or.inr rfl⟩⟩
      rcases claiming_update hj with ⟨-, hj⟩ | ⟨hne, hj⟩
      · exact hj
      · rcases claiming_update hj with ⟨rfl, -⟩ | ⟨-, hj⟩
        · exact hne rfl
        · exact hne (honce _ _ hj hi)
    | waiting =>
      simp only [initStep, hpc] at h
      split at h
      · cases h
        exact I
      · next hne =>
          cases h
          have hm : x.marker = false := hg hpc hne
          obtain ⟨hno, hfirst⟩ := I.stored hm
          refine ⟨nofun, fun hm' => ?_, fun _ => ⟨fun j hj => ?_, ?_⟩⟩
          · rw [show x.marker = true from hm'] at hm
            exact nomatch hm
          · rcases claiming_update hj with ⟨-, hj⟩ | ⟨-, hj⟩
            · exact hj
            · exact hno j hj
          · exact Or.inr (hfirst.resolve_left fun hf => hne hf.1)
    | back =>
      simp only [initStep, hpc] at h
      exact nomatch h
  | use a =>
    cases hr : x.returns with
    | nil =>
      simp only [initStep, hr] at h
      exact nomatch h
    | cons r rs =>
      simp only [initStep, hr] at h
      obtain ⟨⟨run, u⟩, hs, h⟩ := Option.bind_eq_some_iff.mp h
      cases h
      obtain ⟨h0, -, -⟩ := scbStep_words hs
      refine ⟨nofun, fun hm => ?_, fun hm => ?_⟩
      · rw [(I.claimed hm).2.1] at hr
        exact nomatch hr
      · obtain ⟨hno, hfirst⟩ := I.stored hm
        refine ⟨hno, Or.inr (h0.trans (hfirst.resolve_left fun hf => ?_))⟩
        rw [hf.2] at hr
        exact nomatch hr

theorem onceInv_zeroed (bytes : Int → UInt8) : OnceInv name size (zeroed bytes) :=
  ⟨fun _ => ⟨rfl, rfl⟩, nofun, fun _ => ⟨fun _ hi => hi, Or.inl ⟨rfl, rfl⟩⟩⟩

/-- A name with low bits is claimed once: then no index in use is cleared, and
    all that can go wrong is a waiting read that ends on the name. -/
theorem waitsForSize_of_endsOnSize (bytes : Int → UInt8)
    (hname : nameWord name ≠ 0) (hsize : (size + 1).toInt ≠ 0)
    (h : Reach (initStep name size) EndsOnSize (zeroed bytes) x) :
    Reach (initStep name size) (WaitsForSize name size) (zeroed bytes) x := by
  refine h.strengthen (I := OnceInv name size) (onceInv_zeroed bytes)
    (fun _ _ _ _ I hg hs => I.step hname hsize hg hs) ?_
  intro y a I hg
  cases a with
  | call i => trivial
  | use a => trivial
  | step i =>
    have hunused : (y.calls i).Claiming →
        y.fbyteStored = 0 ∧ y.lbyteStored = 0 := fun hi =>
      I.unused (I.claimed (I.not_marked hi)).2.1
    cases hpc : y.calls i with
    | clearLbyte =>
      simp only [WaitsForSize, hpc]
      exact (hunused (by rw [hpc]; trivial)).2
    | clearFbyte =>
      simp only [WaitsForSize, hpc]
      exact (hunused (by rw [hpc]; trivial)).1
    | waiting =>
      simp only [WaitsForSize, hpc]
      intro hne hm
      rw [hg hpc hne] at hm
      exact nomatch hm
    | out => simp only [WaitsForSize, hpc]
    | setSize => simp only [WaitsForSize, hpc]
    | back => simp only [WaitsForSize, hpc]

end Steps

/-- **EVERY CALL RETURNS TO A BUFFER THAT IS READY** as long as no waiting read
    ends on the name and no index in use is cleared. -/
theorem init_ready (name : UInt64) (size : Int32) (bytes : Int → UInt8) (x : InitRun)
    (h : Reach (initStep name size) (WaitsForSize name size) (zeroed bytes) x) :
    ∀ r ∈ x.returns, r.Ready size :=
  (h.invariant (zeroed_inv bytes) fun _ _ _ _ I hg hs => I.step hg hs).ready

instance (name : UInt64) (size : Int32) (x : InitRun) :
    (a : InitAction) → Decidable (WaitsForSize name size x a)
  | .call _ => inferInstanceAs (Decidable True)
  | .use _ => inferInstanceAs (Decidable True)
  | .step i =>
    match hpc : x.calls i with
    | .clearLbyte =>
      decidable_of_iff (x.lbyteStored = 0) (by simp only [WaitsForSize, hpc])
    | .clearFbyte =>
      decidable_of_iff (x.fbyteStored = 0) (by simp only [WaitsForSize, hpc])
    | .waiting =>
      decidable_of_iff (x.run.scb.size ≠ 0 → x.marker = true →
          nameWord name = (size + 1).toInt)
        (by simp only [WaitsForSize, hpc])
    | .out | .setSize | .back =>
      decidable_of_iff True (by simp only [WaitsForSize, hpc])

/-- Of two calls the second waits for the size. -/
theorem init_ready_both : ∃ x,
    Reach (initStep 5 99) (WaitsForSize 5 99) (zeroed fun _ => 0) x ∧
      x.returns.length = 2 ∧ ∀ r ∈ x.returns, r.Ready 99 := by
  obtain ⟨x, hplay, hl⟩ : ∃ x, play (initStep 5 99) (WaitsForSize 5 99) (zeroed fun _ => 0)
        [.call 0, .call 1, .step 0, .step 0, .step 0, .step 1] = some x ∧
      x.returns.length = 2 := ⟨_, rfl, rfl⟩
  exact ⟨x, reach_of_play hplay, hl, init_ready 5 99 (fun _ => 0) x (reach_of_play hplay)⟩

/-- **THE SECOND CALL RETURNS TO A BUFFER WHOSE SIZE IS THE NAME**. -/
theorem init_returns_early : ∃ x,
    Reach (initStep 5 99) (fun _ _ => True) (zeroed fun _ => 0) x ∧
      ¬ ∀ r ∈ x.returns, r.Ready 99 := by
  obtain ⟨x, hplay, r, hr, hs⟩ : ∃ x,
      play (initStep 5 99) (fun _ _ => True) (zeroed fun _ => 0)
        [.call 0, .call 1, .step 1] = some x ∧
      ∃ r ∈ x.returns, r.size = 5 :=
    ⟨_, rfl, _, List.mem_cons_self, rfl⟩
  refine ⟨x, reach_of_play hplay, fun h => ?_⟩
  have h100 := (h r hr).1
  rw [hs] at h100
  exact absurd h100 (by decide)

/-- **ONE CALL CLAIMS THE MEMORY** for a name with low bits, and every call
    returns to a buffer that is ready, as long as no waiting read ends on the
    name. -/
theorem init_ready_once (name : UInt64) (size : Int32) (bytes : Int → UInt8)
    (hname : nameWord name ≠ 0) (hsize : (size + 1).toInt ≠ 0) (x : InitRun)
    (h : Reach (initStep name size) EndsOnSize (zeroed bytes) x) :
    (∀ i j, (x.calls i).Claiming → (x.calls j).Claiming → i = j) ∧
      ∀ r ∈ x.returns, r.Ready size := by
  have I := h.invariant (onceInv_zeroed bytes) fun _ _ _ _ I hg hs => I.step hname hsize hg hs
  -- the size is marked as long as a call claims it
  refine ⟨fun i j hi hj => (I.claimed (I.not_marked hi)).2.2 i j hi hj, ?_⟩
  exact ((waitsForSize_of_endsOnSize bytes hname hsize h).invariant (zeroed_inv bytes)
    fun _ _ _ _ I hg hs => I.step hg hs).ready

instance (x : InitRun) (a : InitAction) : Decidable (EndsOnSize x a) := by
  unfold EndsOnSize
  split <;> infer_instance

/-- The first of two calls is about to store the size. -/
theorem init_ready_once_claiming : ∃ x : InitRun, (x.calls 0).Claiming ∧
    ∀ j, (x.calls j).Claiming → 0 = j := by
  obtain ⟨x, hplay, hc⟩ : ∃ x, play (initStep 5 99) EndsOnSize (zeroed fun _ => 0)
      [.call 0, .call 1, .step 0, .step 0] = some x ∧ (x.calls 0).Claiming :=
    ⟨_, rfl, trivial⟩
  exact ⟨x, hc, fun j hj => (init_ready_once 5 99 (fun _ => 0) (by decide) (by decide) x
    (reach_of_play hplay)).1 0 j hc hj⟩

end RtaiScbInit
