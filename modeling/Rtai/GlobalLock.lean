import Rtai.Runs

/-! # The global lock

    `rtai_cpu_lock[0]` has a bit for each CPU and one spinlock.  A CPU whose bit
    is set does not ask for the spinlock again, so that calls may nest.  The
    bits, the spinlock and the interrupt flag of the CPU are accessed one at a
    time; interrupts are off from the beginning of each call to its end. -/

namespace RtaiGlobalLock

open RtaiRuns

variable {C : Type} [decC : DecidableEq C]

/-- The word that the calls save and restore: `1 << RTAI_IFLAG` for the
    interrupts, and 1 for a lock that the CPU does not have. -/
abbrev Flags := BitVec 64

/-- `rtai_save_flags_irqbit` -/
def irqbit (interrupts : Bool) : Flags :=
  if interrupts then 1#64 <<< 9 else 0

/-- The calls. -/
inductive Op where
  /-- `rt_get_global_lock`, which is all of `rt_global_cli` -/
  | get
  /-- `rt_release_global_lock` -/
  | release
  /-- `rt_global_sti` -/
  | sti
  /-- `rt_global_save_flags_and_cli` -/
  | saveFlagsAndCli
  /-- `rt_global_save_flags` -/
  | saveFlags
  /-- `rt_global_restore_flags` -/
  | restoreFlags (flags : Flags)
  deriving DecidableEq

/-- A call, and how it has found its CPU: the interrupts on, the bit set. -/
structure Call where
  op : Op
  interrupts : Bool
  held : Bool
  deriving DecidableEq

/-- The next access of a call. -/
inductive Pc where
  | out
  | testAndSet (k : Call)
  | spinLock (k : Call)
  | testAndClear (k : Call)
  | spinUnlock (k : Call)
  | testBit (k : Call)
  deriving DecidableEq

/-- The first access: the way of `rt_global_restore_flags` depends on bit 0. -/
def Call.first (k : Call) : Pc :=
  match k.op with
  | .get | .saveFlagsAndCli => .testAndSet k
  | .release | .sti => .testAndClear k
  | .saveFlags => .testBit k
  | .restoreFlags flags =>
    if flags.getLsbD 0 then .testAndClear k else .testAndSet k

/-- Whether the call ends with an `rtai_sti`. -/
def Call.stis (k : Call) : Bool :=
  match k.op with
  | .get | .release | .saveFlagsAndCli => false
  | .sti => true
  | .saveFlags => irqbit k.interrupts ≠ 0
  | .restoreFlags flags => flags &&& ~~~1#64 ≠ 0

/-- The call returns flags. -/
def Call.saves (k : Call) : Bool :=
  k.op = .saveFlagsAndCli || k.op = .saveFlags

/-- The lock and its CPUs.  `saved` are the flags that calls have returned. -/
structure Machine (C : Type) where
  mask : C → Bool
  lock : Option C
  interrupts : C → Bool
  pc : C → Pc
  saved : List Flags

/-- A CPU moves. -/
def Machine.goto (s : Machine C) (c : C) (pc : Pc) : Machine C :=
  { s with pc := Function.update s.pc c pc }

/-- Its bit in the mask. -/
def Machine.setMask (s : Machine C) (c : C) (bit : Bool) : Machine C :=
  { s with mask := Function.update s.mask c bit }

/-- Its interrupts, on or off. -/
def Machine.setInterrupts (s : Machine C) (c : C) (on : Bool) : Machine C :=
  { s with interrupts := Function.update s.interrupts c on }

/-- The lock, taken or free. -/
def Machine.setLock (s : Machine C) (owner : Option C) : Machine C :=
  { s with lock := owner }

/-- The end of a call; only some of them return the flags. -/
def finish (s : Machine C) (c : C) (k : Call) (flags : Flags) :
    Machine C × Option (Call × Flags) :=
  ({ (s.goto c .out).setInterrupts c k.stis with
    saved := if k.saves then flags :: s.saved else s.saved }, some (k, flags))

/-- One access of the call that a CPU is in. -/
def access (s : Machine C) (c : C) : Option (Machine C × Option (Call × Flags)) :=
  match s.pc c with
  | .out => none
  | .testAndSet k =>
    if s.mask c then some (finish s c k (irqbit k.interrupts))
    else some ((s.setMask c true).goto c (.spinLock k), none)
  | .spinLock k =>
    match s.lock with
    | none => some (finish (s.setLock (some c)) c k (irqbit k.interrupts ||| 1))
    | some _ => some (s, none)
  | .testAndClear k =>
    if s.mask c then some ((s.setMask c false).goto c (.spinUnlock k), none)
    else some (finish s c k 0)
  | .spinUnlock k => some (finish (s.setLock none) c k 0)
  | .testBit k =>
    some (finish s c k (if s.mask c then irqbit k.interrupts
      else irqbit k.interrupts ||| 1))

/-- One access of a CPU. -/
inductive Action (C : Type) where
  | call (c : C) (op : Op)
  | go (c : C)
  /-- `rtai_cli` or an interrupt comes; `rtai_sti` or a handler returns. -/
  | interrupts (c : C) (on : Bool)
  deriving DecidableEq

/-- What an access does. -/
def step (s : Machine C) : Action C → Option (Machine C × Option (Call × Flags))
  | .call c op =>
    if s.pc c = .out then
      some ((s.goto c (Call.first ⟨op, s.interrupts c, s.mask c⟩)).setInterrupts c false, none)
    else none
  | .go c => access s c
  | .interrupts c on =>
    if s.pc c = .out then some (s.setInterrupts c on, none) else none

/-- Nobody has the lock, and interrupts are as they are. -/
def unlocked (interrupts : C → Bool) : Machine C where
  mask := fun _ => false
  lock := none
  interrupts := interrupts
  pc := fun _ => .out
  saved := []

/-- Flags are restored that a call has saved, on whatever CPU and however often.
    A handler does not return with the lock, and whoever has it does not switch
    the interrupts on by himself. -/
def Uses (s : Machine C) : Action C → Prop
  | .call _ (.restoreFlags flags) => flags ∈ s.saved
  | .interrupts c true => s.mask c = false
  | _ => True

/-! ## What is saved -/

/-- The flags that stand for a state of a CPU. -/
def encode (interrupts held : Bool) : Flags :=
  if held then irqbit interrupts else irqbit interrupts ||| 1

theorem irqbit_ne_zero (i : Bool) : irqbit i ≠ 0 ↔ i = true := by
  cases i <;> decide

theorem encode_lock (i h : Bool) : (encode i h).getLsbD 0 = !h := by
  cases i <;> cases h <;> decide

theorem encode_interrupts (i h : Bool) : encode i h &&& ~~~1#64 ≠ 0 ↔ i = true := by
  cases i <;> cases h <;> decide

theorem encode_inj {i h i' h' : Bool} (he : encode i h = encode i' h') : i = i' ∧ h = h' := by
  revert i h i' h'
  decide

/-- Flags of a CPU that does not have the lock with interrupts on. -/
def Sound (flags : Flags) : Prop :=
  ∃ i h, (h = true → i = false) ∧ flags = encode i h

/-! ## The invariant -/

/-- A call that was made as calls are made. -/
structure Call.Fits (k : Call) : Prop where
  quiet : k.held = true → k.interrupts = false
  restores : ∀ flags, k.op = .restoreFlags flags → Sound flags

/-- What is known of a CPU at an access. -/
def Place (s : Machine C) (c : C) : Pc → Prop
  | .out => (s.mask c = true → s.interrupts c = false) ∧ (s.mask c = true ↔ s.lock = some c)
  | .testAndSet k => k.Fits ∧ k.first = .testAndSet k ∧ s.mask c = k.held ∧
      (s.mask c = true ↔ s.lock = some c)
  | .spinLock k => k.Fits ∧ k.first = .testAndSet k ∧ k.held = false ∧
      s.mask c = true ∧ s.lock ≠ some c
  | .testAndClear k => k.Fits ∧ k.first = .testAndClear k ∧ s.mask c = k.held ∧
      (s.mask c = true ↔ s.lock = some c)
  | .spinUnlock k => k.Fits ∧ k.first = .testAndClear k ∧ s.mask c = false ∧ s.lock = some c
  | .testBit k => k.Fits ∧ k.op = .saveFlags ∧ s.mask c = k.held ∧
      (s.mask c = true ↔ s.lock = some c)

/-- Every CPU is where the lock allows. -/
structure LockInv (s : Machine C) : Prop where
  place : ∀ c, Place s c (s.pc c)
  off : ∀ c, s.pc c ≠ .out → s.interrupts c = false
  saved : ∀ flags ∈ s.saved, Sound flags

/-- What a call brings about on its CPU, and the flags it returns. -/
def Call.Promise (k : Call) (flags : Flags) (interrupts held : Bool) : Prop :=
  match k.op with
  | .get => interrupts = false ∧ held = true
  | .release => interrupts = false ∧ held = false
  | .sti => interrupts = true ∧ held = false
  | .saveFlagsAndCli => interrupts = false ∧ held = true ∧ flags = encode k.interrupts k.held
  | .saveFlags => interrupts = k.interrupts ∧ held = k.held ∧
      flags = encode k.interrupts k.held
  | .restoreFlags flags => encode interrupts held = flags

section Calls

variable {k : Call}

theorem Call.stis_restore {i h : Bool} (hop : k.op = .restoreFlags (encode i h)) :
    k.stis = i := by
  rw [Call.stis, hop, Bool.eq_iff_iff, decide_eq_true_eq]
  exact encode_interrupts i h

/-- A call that asks for the lock. -/
theorem Call.Fits.promise_get (hk : k.Fits) (hf : k.first = .testAndSet k) :
    k.Promise (encode k.interrupts k.held) k.stis true := by
  unfold Call.first at hf
  cases hop : k.op with
  | get | saveFlagsAndCli => simp only [Promise, stis, hop, and_self]
  | release | sti | saveFlags => rw [hop] at hf; exact nomatch hf
  | restoreFlags flags =>
    obtain ⟨i, h, hih, rfl⟩ := hk.restores flags hop
    rw [hop] at hf
    simp only [encode_lock] at hf
    cases h with
    | false => exact nomatch hf
    | true => simp only [Promise, hop, stis_restore hop]

/-- A call that gives the lock up. -/
theorem Call.Fits.promise_release (hk : k.Fits) (hf : k.first = .testAndClear k) :
    k.Promise 0 k.stis false := by
  unfold Call.first at hf
  cases hop : k.op with
  | release | sti => simp only [Promise, stis, hop, and_self]
  | get | saveFlagsAndCli | saveFlags => rw [hop] at hf; exact nomatch hf
  | restoreFlags flags =>
    obtain ⟨i, h, hih, rfl⟩ := hk.restores flags hop
    rw [hop] at hf
    simp only [encode_lock] at hf
    cases h with
    | true => exact nomatch hf
    | false => simp only [Promise, hop, stis_restore hop]

theorem Call.promise_save (hop : k.op = .saveFlags) :
    k.Promise (encode k.interrupts k.held) k.stis k.held := by
  simp only [Promise, stis, hop, and_self, and_true]
  rw [Bool.eq_iff_iff, decide_eq_true_eq]
  exact irqbit_ne_zero k.interrupts

/-- After a call whoever has the lock has interrupts off. -/
theorem Call.Fits.quiet_after (hk : k.Fits) {flags : Flags} {i h : Bool}
    (hp : k.Promise flags i h) : h = true → i = false := by
  intro hh
  cases hop : k.op with
  | get | saveFlagsAndCli => rw [Promise, hop] at hp; exact hp.1
  | release | sti => rw [Promise, hop] at hp; rw [hp.2] at hh; exact nomatch hh
  | saveFlags =>
    rw [Promise, hop] at hp
    rw [hp.1]
    exact hk.quiet (hp.2.1 ▸ hh)
  | restoreFlags f =>
    obtain ⟨i', h', hih, rfl⟩ := hk.restores f hop
    rw [Promise, hop] at hp
    obtain ⟨rfl, rfl⟩ := encode_inj hp
    exact hih hh

theorem Call.Fits.saves_sound (hk : k.Fits) {flags : Flags} {i h : Bool}
    (hp : k.Promise flags i h) (hs : k.saves = true) : Sound flags := by
  cases hop : k.op with
  | saveFlagsAndCli | saveFlags =>
    rw [Promise, hop] at hp
    exact ⟨_, _, hk.quiet, hp.2.2⟩
  | get | release | sti | restoreFlags => rw [saves, hop] at hs; exact nomatch hs

end Calls

/-! ## The steps -/

section Steps

variable {s s' : Machine C} {c : C}

/-- A step of one CPU: what the others see. -/
structure Elsewhere (c : C) (s s' : Machine C) : Prop where
  mask : ∀ d ≠ c, s'.mask d = s.mask d
  interrupts : ∀ d ≠ c, s'.interrupts d = s.interrupts d
  pc : ∀ d ≠ c, s'.pc d = s.pc d
  lock : ∀ d ≠ c, s'.lock = some d ↔ s.lock = some d

/-- A step that goes on: only its own CPU is to be looked at. -/
theorem LockInv.moves (I : LockInv s) (e : Elsewhere c s s') (hplace : Place s' c (s'.pc c))
    (hoff : s'.pc c ≠ .out → s'.interrupts c = false)
    (hsaved : ∀ flags ∈ s'.saved, Sound flags) : LockInv s' := by
  refine ⟨fun d => ?_, fun d hd => ?_, hsaved⟩
  · by_cases hdc : d = c
    · rw [hdc]
      exact hplace
    · have hd := I.place d
      rw [e.pc d hdc]
      cases hpc : s.pc d <;>
        simp only [hpc, Place, e.mask d hdc, e.interrupts d hdc, ne_eq,
          e.lock d hdc] at hd ⊢ <;>
        exact hd
  · by_cases hdc : d = c
    · rw [hdc] at hd ⊢
      exact hoff hd
    · rw [e.interrupts d hdc]
      exact I.off d (e.pc d hdc ▸ hd)

theorem Elsewhere.goto (e : Elsewhere c s s') (pc : Pc) : Elsewhere c s (s'.goto c pc) :=
  ⟨e.mask, e.interrupts, fun d hd => (Function.update_of_ne hd ..).trans (e.pc d hd), e.lock⟩

theorem Elsewhere.setMask (c : C) (s : Machine C) (bit : Bool) :
    Elsewhere c s (s.setMask c bit) :=
  ⟨fun _ hd => Function.update_of_ne hd .., fun _ _ => rfl, fun _ _ => rfl, fun _ _ => Iff.rfl⟩

theorem Elsewhere.setInterrupts (e : Elsewhere c s s') (on : Bool) :
    Elsewhere c s (s'.setInterrupts c on) :=
  ⟨e.mask, fun d hd => (Function.update_of_ne hd ..).trans (e.interrupts d hd), e.pc, e.lock⟩

omit decC in
theorem Elsewhere.refl (c : C) (s : Machine C) : Elsewhere c s s :=
  ⟨fun _ _ => rfl, fun _ _ => rfl, fun _ _ => rfl, fun _ _ => Iff.rfl⟩

/-- A call that ends and has kept its promise. -/
theorem LockInv.finish (I : LockInv s) {t : Machine C} {k : Call} {flags : Flags}
    {o : Option (Call × Flags)} (hk : k.Fits) (e : Elsewhere c s t)
    (hsame : t.saved = s.saved) (hp : k.Promise flags k.stis (t.mask c))
    (hlock : t.mask c = true ↔ t.lock = some c)
    (h : some (finish t c k flags) = some (s', o)) :
    LockInv s' ∧ ∀ k flags, o = some (k, flags) →
      k.Promise flags (s'.interrupts c) (s'.mask c) := by
  obtain ⟨rfl, rfl⟩ := Prod.mk.inj (Option.some.inj h)
  have hstis : ((t.goto c .out).setInterrupts c k.stis).interrupts c = k.stis :=
    Function.update_self ..
  have he := (e.goto .out).setInterrupts k.stis
  refine ⟨I.moves ⟨he.mask, he.interrupts, he.pc, he.lock⟩ ?_ ?_ ?_, ?_⟩
  · rw [show ((t.goto c .out).setInterrupts c k.stis).pc c = .out from
      Function.update_self ..]
    exact ⟨fun hm => hstis.trans (hk.quiet_after hp hm), hlock⟩
  · exact fun h => absurd (Function.update_self ..) h
  · intro f hf
    dsimp only at hf
    rw [hsame] at hf
    by_cases hs : k.saves = true
    · rw [if_pos hs] at hf
      rcases List.mem_cons.mp hf with rfl | hf
      · exact hk.saves_sound hp hs
      · exact I.saved f hf
    · rw [if_neg hs] at hf
      exact I.saved f hf
  · rintro _ _ ⟨rfl, rfl⟩
    rw [← hstis] at hp
    exact hp

/-- **ONE ACCESS** keeps the invariant, and a call that ends in it has kept its
    promise. -/
theorem LockInv.access (I : LockInv s) {o : Option (Call × Flags)}
    (h : access s c = some (s', o)) :
    LockInv s' ∧ ∀ k flags, o = some (k, flags) →
      k.Promise flags (s'.interrupts c) (s'.mask c) := by
  have hplace := I.place c
  unfold RtaiGlobalLock.access at h
  cases hpc : s.pc c with
  | out => rw [hpc] at h; exact nomatch h
  | testAndSet k =>
    rw [hpc] at h hplace
    obtain ⟨hk, hf, hm, hlock⟩ := hplace
    by_cases hbit : s.mask c = true
    · simp only [if_pos hbit] at h
      have hp := hk.promise_get hf
      rw [← hm, hbit] at hp
      exact I.finish hk (.refl c s) rfl (hbit ▸ hp) hlock h
    · simp only [if_neg hbit] at h
      cases h
      refine ⟨I.moves ((Elsewhere.setMask c s true).goto _) ?_ ?_ I.saved, nofun⟩
      · rw [show ((s.setMask c true).goto c (.spinLock k)).pc c = .spinLock k from
          Function.update_self ..]
        exact ⟨hk, hf, hm.symm.trans (Bool.eq_false_iff.mpr hbit),
          Function.update_self .., fun hl => hbit (hlock.mpr hl)⟩
      · exact fun _ => I.off c (hpc ▸ nofun)
  | spinLock k =>
    rw [hpc] at h hplace
    obtain ⟨hk, hf, hm, hbit, hno⟩ := hplace
    cases hl : s.lock with
    | none =>
      simp only [hl] at h
      have hp := hk.promise_get hf
      rw [hm] at hp
      rw [← hbit] at hp
      refine I.finish (t := s.setLock (some c)) hk ⟨fun _ _ => rfl, fun _ _ => rfl,
        fun _ _ => rfl, fun d hd => ?_⟩ rfl hp ⟨fun _ => rfl, fun _ => hbit⟩ h
      rw [hl]
      exact ⟨fun he => absurd (Option.some.inj he).symm hd, nofun⟩
    | some d =>
      simp only [hl] at h
      cases h
      exact ⟨I, nofun⟩
  | testAndClear k =>
    rw [hpc] at h hplace
    obtain ⟨hk, hf, hm, hlock⟩ := hplace
    by_cases hbit : s.mask c = true
    · simp only [if_pos hbit] at h
      cases h
      refine ⟨I.moves ((Elsewhere.setMask c s false).goto _) ?_ ?_ I.saved, nofun⟩
      · rw [show ((s.setMask c false).goto c (.spinUnlock k)).pc c = .spinUnlock k from
          Function.update_self ..]
        exact ⟨hk, hf, Function.update_self .., hlock.mp hbit⟩
      · exact fun _ => I.off c (hpc ▸ nofun)
    · simp only [if_neg hbit] at h
      have hp := hk.promise_release hf
      rw [← Bool.eq_false_iff.mpr hbit] at hp
      exact I.finish hk (.refl c s) rfl hp hlock h
  | spinUnlock k =>
    rw [hpc] at h hplace
    obtain ⟨hk, hf, hm, hl⟩ := hplace
    have hp := hk.promise_release hf
    rw [← hm] at hp
    refine I.finish (t := s.setLock none) hk ⟨fun _ _ => rfl, fun _ _ => rfl,
      fun _ _ => rfl, fun d hd => ?_⟩ rfl hp
      ⟨fun h => absurd (hm.symm.trans h) nofun, nofun⟩ h
    rw [hl]
    exact ⟨nofun, fun he => absurd (Option.some.inj he).symm hd⟩
  | testBit k =>
    rw [hpc] at h hplace
    obtain ⟨hk, hop, hm, hlock⟩ := hplace
    have hp := Call.promise_save hop
    rw [← hm] at hp
    exact I.finish hk (.refl c s) rfl hp hlock h

theorem LockInv.step (I : LockInv s) {a : Action C} {o : Option (Call × Flags)}
    (hu : Uses s a) (h : step s a = some (s', o)) : LockInv s' := by
  cases a with
  | go c => exact (I.access h).1
  | interrupts c on =>
    simp only [RtaiGlobalLock.step] at h
    split at h
    · next hpc =>
      cases h
      have hplace := I.place c
      rw [hpc] at hplace
      refine I.moves ((Elsewhere.refl c s).setInterrupts on) ?_ ?_ I.saved
      · rw [show (s.setInterrupts c on).pc c = .out from hpc]
        refine ⟨fun hm => (Function.update_self ..).trans ?_, hplace.2⟩
        cases on with
        | false => rfl
        | true => exact absurd (hm.symm.trans hu) nofun
      · exact fun hne => absurd hpc hne
    · exact nomatch h
  | call c op =>
    simp only [RtaiGlobalLock.step] at h
    split at h
    · next hpc =>
      cases h
      have hplace := I.place c
      rw [hpc] at hplace
      obtain ⟨hquiet, hlock⟩ := hplace
      have hk : (⟨op, s.interrupts c, s.mask c⟩ : Call).Fits := by
        refine ⟨hquiet, fun flags hop => ?_⟩
        cases hop
        exact I.saved flags hu
      refine I.moves (((Elsewhere.refl c s).goto _).setInterrupts false) ?_ ?_ I.saved
      · rw [show ((s.goto c (Call.first ⟨op, s.interrupts c, s.mask c⟩)).setInterrupts
          c false).pc c = Call.first ⟨op, s.interrupts c, s.mask c⟩ from
          Function.update_self ..]
        cases op with
        | restoreFlags flags =>
          simp only [Call.first]
          by_cases hb : flags.getLsbD 0 = true
          · rw [if_pos hb]
            exact ⟨hk, if_pos hb, rfl, hlock⟩
          · rw [if_neg hb]
            exact ⟨hk, if_neg hb, rfl, hlock⟩
        | _ => exact ⟨hk, rfl, rfl, hlock⟩
      · exact fun _ => Function.update_self ..
    · exact nomatch h

omit decC in
theorem lockInv_unlocked (interrupts : C → Bool) : LockInv (unlocked interrupts) :=
  ⟨fun _ => ⟨nofun, nofun, nofun⟩, fun _ h => absurd rfl h, nofun⟩

theorem lockInv_reach {interrupts : C → Bool}
    (h : Reach step Uses (unlocked interrupts) s) : LockInv s :=
  h.invariant (lockInv_unlocked interrupts) fun _ _ _ _ I hu hs => I.step hu hs

end Steps

/-! ## Over any run -/

/-- The CPU has come back from asking for the lock and not given it up. -/
def Inside (s : Machine C) (c : C) : Prop :=
  s.pc c = .out ∧ s.mask c = true

/-- The CPU waits for the spinlock. -/
def Waits (s : Machine C) (c : C) : Prop :=
  ∃ k, s.pc c = .spinLock k

/-- **ONE CPU AT A TIME HAS THE LOCK**, with its interrupts off, so that no
    handler comes between, and none waits for itself: while a CPU waits another
    one that does not wait has the spinlock, or it is free. -/
theorem global_lock_excludes (interrupts : C → Bool) (s : Machine C)
    (h : Reach step Uses (unlocked interrupts) s) :
    (∀ c d, Inside s c → Inside s d → c = d) ∧
      (∀ c, Inside s c → s.lock = some c ∧ s.interrupts c = false) ∧
      ∀ c, Waits s c → s.lock = none ∨ ∃ d ≠ c, s.lock = some d ∧ ¬ Waits s d := by
  have I := lockInv_reach h
  have hinside : ∀ c, Inside s c → s.lock = some c ∧ s.interrupts c = false := by
    intro c ⟨hpc, hm⟩
    have hplace := I.place c
    rw [hpc] at hplace
    exact ⟨hplace.2.mp hm, hplace.1 hm⟩
  refine ⟨fun c d hc hd => ?_, hinside, fun c ⟨k, hpc⟩ => ?_⟩
  · exact Option.some.inj ((hinside c hc).1.symm.trans (hinside d hd).1)
  · have hplace := I.place c
    rw [hpc] at hplace
    cases hl : s.lock with
    | none => exact Or.inl rfl
    | some d =>
      -- the owner is in no wait of its own
      refine Or.inr ⟨d, ?_, rfl, fun ⟨k', hpc'⟩ => ?_⟩
      · rintro rfl
        exact hplace.2.2.2.2 hl
      · have hplace' := I.place d
        rw [hpc'] at hplace'
        exact hplace'.2.2.2.2 hl

instance (s : Machine C) (a : Action C) : Decidable (Uses s a) :=
  match a with
  | .call _ (.restoreFlags flags) => inferInstanceAs (Decidable (flags ∈ s.saved))
  | .call _ .get | .call _ .release | .call _ .sti | .call _ .saveFlagsAndCli
  | .call _ .saveFlags | .go _ | .interrupts _ false => inferInstanceAs (Decidable True)
  | .interrupts c true => inferInstanceAs (Decidable (s.mask c = false))

/-- One CPU has the lock, and another one waits. -/
theorem global_lock_excludes_two : ∃ s : Machine (Fin 2), Inside s 0 ∧ Waits s 1 ∧
    s.lock = some 0 ∧ s.interrupts 0 = false := by
  obtain ⟨s, hs, h0, h1⟩ : ∃ s, play step Uses (unlocked fun _ : Fin 2 => true)
      [.call 0 .saveFlagsAndCli, .go 0, .go 0, .call 1 .get, .go 1] = some s ∧
      Inside s 0 ∧ Waits s 1 := ⟨_, rfl, ⟨rfl, rfl⟩, ⟨_, rfl⟩⟩
  exact ⟨s, h0, h1, (global_lock_excludes _ s (reach_of_play hs)).2.1 0 h0⟩

/-- **EVERY CALL KEEPS ITS PROMISE**, whatever the other CPUs do: flags that a
    call returns stand for the state in which it has found its CPU, and restoring
    them brings that state about.  The bit is set then if and only if the CPU
    has the spinlock. -/
theorem calls_keep_promises (interrupts : C → Bool) (s s' : Machine C)
    (h : Reach step Uses (unlocked interrupts) s) (c : C) (k : Call) (flags : Flags)
    (hs : step s (.go c) = some (s', some (k, flags))) :
    k.Promise flags (s'.interrupts c) (s'.mask c) ∧ s'.pc c = .out ∧
      (s'.mask c = true ↔ s'.lock = some c) := by
  obtain ⟨I, hp⟩ := (lockInv_reach h).access hs
  have hout : s'.pc c = .out := by
    unfold step RtaiGlobalLock.access at hs
    dsimp only at hs
    split at hs
    · exact nomatch hs
    all_goals (repeat' split at hs) <;> cases hs <;> exact Function.update_self ..
  have hplace := I.place c
  rw [hout] at hplace
  exact ⟨hp k flags rfl, hout, hplace.2⟩

/-- Interrupts that were on are on again when the outer flags are restored. -/
theorem calls_keep_promises_nested : ∃ s s' : Machine (Fin 1), s.saved = [0, 513] ∧
      step s (.go 0) = some (s', some (⟨.restoreFlags 513, false, true⟩, 0)) ∧
      encode (s'.interrupts 0) (s'.mask 0) = 513 := by
  obtain ⟨s, s', hs, hsaved, hgo⟩ : ∃ s s', play step Uses (unlocked fun _ : Fin 1 => true)
      [.call 0 .saveFlagsAndCli, .go 0, .go 0, .call 0 .saveFlagsAndCli, .go 0,
        .call 0 (.restoreFlags 0), .go 0, .call 0 (.restoreFlags 513), .go 0] = some s ∧
      s.saved = [0, 513] ∧
      step s (.go 0) = some (s', some (⟨.restoreFlags 513, false, true⟩, 0)) :=
    ⟨_, _, rfl, rfl, rfl⟩
  exact ⟨s, s', hsaved, hgo, (calls_keep_promises _ s s' (reach_of_play hs) 0 _ _ hgo).1⟩

end RtaiGlobalLock
