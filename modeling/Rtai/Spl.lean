import Rtai.Runs

/-! # Recursive spinlocks

    `owndby`, `count` and `flags` are three words of memory, and every access
    to one of them is a step.  An unlock stores 0 in `owndby` before it has
    cleared the count and read the flags. -/

namespace RtaiSpl

open RtaiRuns

variable {T F : Type} [decT : DecidableEq T]

/-- A value of type `int`. -/
def toInt (x : Int) : Int := x.bmod (2 ^ 32)

/-- `rt_spl_lock`, `rt_spl_lock_if` and `rt_spl_lock_timed` -/
inductive LockKind where
  | lock
  | lockIf
  | lockTimed
  deriving DecidableEq

/-- The next access of a task.  `flags` are those that the call has saved. -/
inductive SplPc (F : Type) where
  | out
  | lockTest (kind : LockKind) (flags : F)
  | countUp (flags : F)
  | storeUp (count : Int) (flags : F)
  | swap (kind : LockKind) (flags : F)
  | storeFlags (flags : F)
  | unlockTest (flags : F)
  | countTest
  | countDown
  | storeDown (count : Int)
  | release
  | clearCount
  | readFlags

/-- The lock and the tasks at it.  `depth` is how many times a task has locked
    it without unlocking it, counted where a call takes effect, and `saved` are
    the flags of the call by which it came to own it. -/
structure Spl (T F : Type) where
  owndby : Option T
  count : Int
  flags : F
  pc : T → SplPc F
  depth : T → Nat
  saved : T → F

/-- A task moves. -/
def Spl.goto (s : Spl T F) (t : T) (pc : SplPc F) : Spl T F :=
  { s with pc := Function.update s.pc t pc }

/-- What a call returns, and the flags that it restores. -/
abbrev SplOut (F : Type) := Option (Int × F)

/-- One access.  `late` is `rtai_rdtsc() >= end_time`. -/
def access (s : Spl T F) (t : T) (late : Bool) : Option (Spl T F × SplOut F) :=
  match s.pc t with
  | .out => none
  | .lockTest kind flags =>
    some (s.goto t (if s.owndby = some t then .countUp flags
      else .swap kind flags), none)
  | .countUp flags => some (s.goto t (.storeUp (toInt (s.count + 1)) flags), none)
  | .storeUp count flags =>
    some ({ s.goto t .out with
      count := count
      depth := Function.update s.depth t (s.depth t + 1) }, some (0, flags))
  | .swap kind flags =>
    match s.owndby with
    | none =>
      some ({ s.goto t (.storeFlags flags) with
        owndby := some t
        depth := Function.update s.depth t (s.depth t + 1)
        saved := Function.update s.saved t flags }, none)
    | some _ =>
      match kind with
      | .lock => some (s, none)
      | .lockIf => some (s.goto t .out, some (-1, flags))
      | .lockTimed =>
        if late then some (s.goto t .out, some (-1, flags))
        else some (s, none)
  | .storeFlags flags =>
    some ({ s.goto t .out with flags := flags }, some (0, flags))
  | .unlockTest flags =>
    if s.owndby = some t then some (s.goto t .countTest, none)
    else some (s.goto t .out, some (-1, flags))
  | .countTest =>
    some (s.goto t (if s.count ≠ 0 then .countDown else .release), none)
  | .countDown => some (s.goto t (.storeDown (toInt (s.count - 1))), none)
  | .storeDown count =>
    some ({ s.goto t .readFlags with
      count := count
      depth := Function.update s.depth t (s.depth t - 1) }, none)
  | .release =>
    some ({ s.goto t .clearCount with
      owndby := none
      depth := Function.update s.depth t (s.depth t - 1) }, none)
  | .clearCount => some ({ s.goto t .readFlags with count := 0 }, none)
  | .readFlags => some (s.goto t .out, some (0, s.flags))

/-- The sections. -/
inductive SplAction (T F : Type) where
  | lock (t : T) (kind : LockKind) (flags : F)
  | unlock (t : T) (flags : F)
  | go (t : T) (late : Bool)

/-- A task that is in no call makes one, or the call of a task goes on. -/
def splStep (s : Spl T F) : SplAction T F → Option (Spl T F × SplOut F)
  | .lock t kind flags =>
    match s.pc t with
    | .out => some (s.goto t (.lockTest kind flags), none)
    | _ => none
  | .unlock t flags =>
    match s.pc t with
    | .out => some (s.goto t (.unlockTest flags), none)
    | _ => none
  | .go t late => access s t late

/-- `rt_spl_init` sets the owner and the count. -/
def splInit (flags : F) : Spl T F where
  owndby := none
  count := 0
  flags := flags
  pc := fun _ => .out
  depth := fun _ => 0
  saved := fun _ => flags

/-! ## What a lock promises -/

/-- A task owns the lock as long as it has unlocked it less often than locked,
    and an unlock restores the flags that the task itself has saved. -/
structure SplOk (s : Spl T F) : Prop where
  holds : ∀ t, s.owndby = some t ↔ 0 < s.depth t
  restores : ∀ t, s.pc t = .readFlags → s.flags = s.saved t

/-- About to store a count that it has computed. -/
def storing : SplPc F → Bool
  | .storeUp .. | .storeDown _ => true
  | _ => false

/-- About to save its flags in the lock. -/
def saving : SplPc F → Bool
  | .storeFlags _ => true
  | _ => false

/-- Still to read the flags of the lock; it may have released it. -/
def leaving : SplPc F → Bool
  | .clearCount | .readFlags => true
  | _ => false

/-- An unlock that has released the lock clears a count of 0, or one that the
    new owner is about to store again.  The flags that a task saves are those
    that every other task still has to read.  The count does not come round
    to 0. -/
def Quiet (s : Spl T F) : SplAction T F → Prop
  | .go t _ =>
    match s.pc t with
    | .countUp _ => s.count ≠ -1
    | .clearCount =>
      s.count = 0 ∨ s.owndby.any fun u => storing (s.pc u)
    | .storeFlags flags =>
      ∀ u, u ≠ t → leaving (s.pc u) → s.saved u = flags
    | _ => True
  | _ => True

/-! ## The invariant -/

/-- What a task knows at an access. -/
def Place (s : Spl T F) (t : T) : SplPc F → Prop
  | .countUp _ | .countTest => s.owndby = some t
  | .storeUp count _ =>
    s.owndby = some t ∧ count = toInt (s.depth t) ∧ s.depth t < 2 ^ 32
  | .storeFlags flags => s.owndby = some t ∧ s.saved t = flags
  | .countDown => s.owndby = some t ∧ 2 ≤ s.depth t
  | .storeDown count =>
    s.owndby = some t ∧ count = toInt (s.depth t - 2) ∧ 2 ≤ s.depth t
  | .release => s.owndby = some t ∧ s.depth t = 1
  | _ => True

/-- The count is that of the holder. -/
structure SplInv (s : Spl T F) : Prop where
  holds : ∀ t, s.owndby = some t ↔ 0 < s.depth t
  place : ∀ t, Place s t (s.pc t)
  /-- The count is one less than the depth, except when a store is coming. -/
  counted : ∀ t, s.owndby = some t → storing (s.pc t) = false → s.count = toInt (s.depth t - 1)
  free : s.owndby = none → s.count = 0
  depths : ∀ t, s.depth t ≤ 2 ^ 32
  /-- The flags are those of the owner, and of every task that will read
      them. -/
  owner : ∀ t, s.owndby = some t → saving (s.pc t) = false → s.flags = s.saved t
  leaves : ∀ t, leaving (s.pc t) → s.flags = s.saved t

section Steps

variable {s s' : Spl T F} {t : T} {p : SplPc F}

omit decT in
/-- A task knows what it knew if it still owns the lock. -/
theorem Place.frame {u : T} (h : Place s u p) (hown : s.owndby = some u → s'.owndby = some u)
    (hdepth : s'.depth u = s.depth u) (hsaved : s'.saved u = s.saved u) :
    Place s' u p := by
  cases p with
  | countUp flags => exact hown h
  | countTest => exact hown h
  | storeUp count flags =>
    obtain ⟨ho, hc, hd⟩ := h
    refine ⟨hown ho, ?_, ?_⟩
    · rw [hdepth]
      exact hc
    · rw [hdepth]
      exact hd
  | storeFlags flags => exact ⟨hown h.1, hsaved.trans h.2⟩
  | countDown => exact ⟨hown h.1, hdepth ▸ h.2⟩
  | storeDown count =>
    obtain ⟨ho, hc, hd⟩ := h
    refine ⟨hown ho, ?_, ?_⟩
    · rw [hdepth]
      exact hc
    · rw [hdepth]
      exact hd
  | release => exact ⟨hown h.1, hdepth.trans h.2⟩
  | _ => trivial

/-- Another place of the same task. -/
theorem goto_pc (u : T) : (s.goto t p).pc u = if u = t then p else s.pc u := by
  show Function.update s.pc t p u = _
  by_cases hu : u = t
  · subst hu
    rw [Function.update_self, if_pos rfl]
  · rw [Function.update_of_ne hu, if_neg hu]

/-- **Only the place of a task changes**. -/
theorem SplInv.goto (I : SplInv s) (hplace : Place s t p)
    (hstoring : storing (s.pc t) = false) (hsaving : saving (s.pc t) = false)
    (hleaving : leaving p = false) : SplInv (s.goto t p) := by
  refine ⟨I.holds, fun u => ?_, fun u ho hs => ?_, I.free, I.depths,
    fun u ho hs => ?_, fun u hl => ?_⟩
  · rw [goto_pc]
    split
    · next hu =>
        subst hu
        exact hplace.frame (fun h => h) rfl rfl
    · exact (I.place u).frame (fun h => h) rfl rfl
  · rw [goto_pc] at hs
    by_cases hu : u = t
    · subst hu
      exact I.counted u ho hstoring
    · rw [if_neg hu] at hs
      exact I.counted u ho hs
  · rw [goto_pc] at hs
    by_cases hu : u = t
    · subst hu
      exact I.owner u ho hsaving
    · rw [if_neg hu] at hs
      exact I.owner u ho hs
  · rw [goto_pc] at hl
    by_cases hu : u = t
    · subst hu
      rw [if_pos rfl, hleaving] at hl
      exact nomatch hl
    · rw [if_neg hu] at hl
      exact I.leaves u hl

/-- **The owner counts**: it stores a new count and stays the owner. -/
theorem SplInv.recount (I : SplInv s) (ho : s.owndby = some t)
    (hsaving : saving (s.pc t) = false) {count : Int} {d : Nat} (h0 : 0 < d)
    (hd : d ≤ 2 ^ 32) (hc : count = toInt (d - 1))
    (hp : ∀ s' : Spl T F, Place s' t p) :
    SplInv { s.goto t p with
      count := count
      depth := Function.update s.depth t d } := by
  have hother : ∀ {u : T}, u ≠ t → s.owndby ≠ some u := by
    intro u hu h
    exact hu (Option.some.inj (h.symm.trans ho))
  refine ⟨fun u => ?_, fun u => ?_, fun u hu _ => ?_, fun h => ?_, fun u => ?_,
    fun u hu hs => ?_, fun u hl => ?_⟩
  · show s.owndby = some u ↔ 0 < Function.update s.depth t d u
    by_cases hu : u = t
    · subst hu
      rw [Function.update_self]
      exact ⟨fun _ => h0, fun _ => ho⟩
    · rw [Function.update_of_ne hu]
      exact I.holds u
  · show Place _ u ((s.goto t p).pc u)
    rw [goto_pc]
    split
    · next hu =>
        subst hu
        exact hp _
    · next hu =>
        exact (I.place u).frame (fun h => h) (Function.update_of_ne hu ..) rfl
  · show count = toInt ((Function.update s.depth t d u : Nat) - 1)
    have hut : u = t := by
      by_contra hut
      exact hother hut hu
    subst hut
    rw [Function.update_self]
    exact hc
  · exact nomatch ho.symm.trans h
  · show Function.update s.depth t d u ≤ 2 ^ 32
    by_cases hu : u = t
    · subst hu
      rw [Function.update_self]
      exact hd
    · rw [Function.update_of_ne hu]
      exact I.depths u
  · have hut : u = t := by
      by_contra hut
      exact hother hut hu
    subst hut
    exact I.owner u ho hsaving
  · replace hl : leaving ((s.goto t p).pc u) := hl
    rw [goto_pc] at hl
    by_cases hu : u = t
    · subst hu
      exact I.owner u ho hsaving
    · rw [if_neg hu] at hl
      exact I.leaves u hl

/-- **The lock is taken.** -/
theorem SplInv.swap (I : SplInv s) (hfree : s.owndby = none) (flags : F) :
    SplInv { s.goto t (.storeFlags flags) with
      owndby := some t
      depth := Function.update s.depth t (s.depth t + 1)
      saved := Function.update s.saved t flags } := by
  have hzero : ∀ u, s.depth u = 0 := by
    intro u
    refine Nat.eq_zero_of_not_pos fun hpos => ?_
    exact nomatch hfree.symm.trans ((I.holds u).mpr hpos)
  refine ⟨fun u => ?_, fun u => ?_, fun u hu hs => ?_, nofun, fun u => ?_,
    fun u hu hs => ?_, fun u hl => ?_⟩
  · show some t = some u ↔ 0 < Function.update s.depth t (s.depth t + 1) u
    by_cases hu : u = t
    · subst hu
      rw [Function.update_self]
      exact ⟨fun _ => Nat.succ_pos _, fun _ => rfl⟩
    · rw [Function.update_of_ne hu, hzero]
      exact ⟨fun h => absurd (Option.some.inj h).symm hu, fun h => absurd h (Nat.lt_irrefl 0)⟩
  · show Place _ u ((s.goto t (.storeFlags flags)).pc u)
    rw [goto_pc]
    split
    · next hu =>
        subst hu
        exact ⟨rfl, Function.update_self ..⟩
    · next hu =>
        refine (I.place u).frame (fun h => ?_) (Function.update_of_ne hu ..)
          (Function.update_of_ne hu ..)
        exact nomatch hfree.symm.trans h
  · show s.count = toInt ((Function.update s.depth t (s.depth t + 1) u : Nat) - 1)
    have hut : u = t := (Option.some.inj hu).symm
    subst hut
    rw [Function.update_self, hzero, I.free hfree]
    decide
  · show Function.update s.depth t (s.depth t + 1) u ≤ 2 ^ 32
    by_cases hu : u = t
    · subst hu
      rw [Function.update_self, hzero]
      decide
    · rw [Function.update_of_ne hu]
      exact I.depths u
  · have hut : u = t := (Option.some.inj hu).symm
    replace hs : saving ((s.goto t (.storeFlags flags)).pc u) = false := hs
    rw [goto_pc, if_pos hut] at hs
    exact nomatch hs
  · show s.flags = Function.update s.saved t flags u
    replace hl : leaving ((s.goto t (.storeFlags flags)).pc u) := hl
    rw [goto_pc] at hl
    by_cases hu : u = t
    · rw [if_pos hu] at hl
      exact nomatch hl
    · rw [if_neg hu] at hl
      rw [Function.update_of_ne hu]
      exact I.leaves u hl

/-- **The flags are saved.** -/
theorem SplInv.saves (I : SplInv s) {flags : F} (hpc : s.pc t = .storeFlags flags)
    (hguard : ∀ u, u ≠ t → leaving (s.pc u) → s.saved u = flags) :
    SplInv { s.goto t .out with flags := flags } := by
  obtain ⟨ho, hsaved⟩ : s.owndby = some t ∧ s.saved t = flags := by
    have h := I.place t
    rw [hpc] at h
    exact h
  refine ⟨I.holds, fun u => ?_, fun u hu _ => ?_, I.free, I.depths,
    fun u hu _ => ?_, fun u hl => ?_⟩
  · show Place _ u ((s.goto t .out).pc u)
    rw [goto_pc]
    split
    · trivial
    · exact (I.place u).frame (fun h => h) rfl rfl
  · have hut : u = t := Option.some.inj (hu.symm.trans ho)
    refine I.counted u hu ?_
    rw [hut, hpc]
    rfl
  · have hut : u = t := Option.some.inj (hu.symm.trans ho)
    subst hut
    exact hsaved.symm
  · show flags = s.saved u
    replace hl : leaving ((s.goto t .out).pc u) := hl
    rw [goto_pc] at hl
    by_cases hu : u = t
    · rw [if_pos hu] at hl
      exact nomatch hl
    · rw [if_neg hu] at hl
      exact (hguard u hu hl).symm

/-- **The lock is released.** -/
theorem SplInv.released (I : SplInv s) (hpc : s.pc t = .release) :
    SplInv { s.goto t .clearCount with
      owndby := none
      depth := Function.update s.depth t (s.depth t - 1) } := by
  obtain ⟨ho, hd⟩ : s.owndby = some t ∧ s.depth t = 1 := by
    have h := I.place t
    rw [hpc] at h
    exact h
  have hzero : ∀ u, Function.update s.depth t (s.depth t - 1) u = 0 := by
    intro u
    by_cases hu : u = t
    · subst hu
      rw [Function.update_self, hd]
    · rw [Function.update_of_ne hu]
      refine Nat.eq_zero_of_not_pos fun hpos => hu ?_
      exact Option.some.inj (((I.holds u).mpr hpos).symm.trans ho)
  refine ⟨fun u => ?_, fun u => ?_, nofun, fun _ => ?_, fun u => ?_, nofun, fun u hl => ?_⟩
  · show none = some u ↔ 0 < Function.update s.depth t (s.depth t - 1) u
    rw [hzero]
    exact ⟨fun h => (nomatch h), fun h => absurd h (Nat.lt_irrefl 0)⟩
  · show Place _ u ((s.goto t .clearCount).pc u)
    rw [goto_pc]
    split
    · trivial
    · next hu =>
        refine (I.place u).frame (fun h => ?_) (Function.update_of_ne hu ..) rfl
        exact absurd (Option.some.inj (h.symm.trans ho)) hu
  · show s.count = 0
    rw [I.counted t ho (by rw [hpc]; rfl), hd]
    decide
  · show Function.update s.depth t (s.depth t - 1) u ≤ 2 ^ 32
    rw [hzero]
    exact Nat.zero_le _
  · replace hl : leaving ((s.goto t .clearCount).pc u) := hl
    rw [goto_pc] at hl
    by_cases hu : u = t
    · subst hu
      exact I.owner u ho (by rw [hpc]; rfl)
    · rw [if_neg hu] at hl
      exact I.leaves u hl

/-- **The count is cleared** after the release. -/
theorem SplInv.clears (I : SplInv s) (hpc : s.pc t = .clearCount)
    (hguard : s.count = 0 ∨ s.owndby.any fun u => storing (s.pc u)) :
    SplInv { s.goto t .readFlags with count := 0 } := by
  refine ⟨I.holds, fun u => ?_, fun u hu hs => ?_, fun _ => rfl, I.depths,
    fun u hu hs => ?_, fun u hl => ?_⟩
  · show Place _ u ((s.goto t .readFlags).pc u)
    rw [goto_pc]
    split
    · trivial
    · exact (I.place u).frame (fun h => h) rfl rfl
  · replace hu : s.owndby = some u := hu
    replace hs : storing ((s.goto t .readFlags).pc u) = false := hs
    have hstored : storing (s.pc u) = false := by
      rw [goto_pc] at hs
      by_cases hut : u = t
      · rw [hut, hpc]
        rfl
      · rw [if_neg hut] at hs
        exact hs
    rcases hguard with hc | hany
    · exact hc.symm.trans (I.counted u hu hstored)
    · -- the owner is about to store, and is the one that is not
      rw [hu] at hany
      exact nomatch hstored.symm.trans hany
  · refine I.owner u hu ?_
    replace hs : saving ((s.goto t .readFlags).pc u) = false := hs
    rw [goto_pc] at hs
    by_cases hut : u = t
    · rw [hut, hpc]
      rfl
    · rw [if_neg hut] at hs
      exact hs
  · refine I.leaves u ?_
    replace hl : leaving ((s.goto t .readFlags).pc u) := hl
    rw [goto_pc] at hl
    by_cases hut : u = t
    · rw [hut, hpc]
      rfl
    · rw [if_neg hut] at hl
      exact hl

theorem toInt_up {d : Nat} : toInt (toInt (d - 1) + 1) = toInt d := by
  rw [toInt, toInt, toInt, Int.bmod_add_bmod]
  congr 1
  omega

theorem toInt_down {d : Nat} : toInt (toInt (d - 1) - 1) = toInt (d - 2) := by
  rw [toInt, toInt, toInt, Int.bmod_sub_bmod]
  congr 1
  omega

/-- A count of 0 is that of a lock which is locked once. -/
theorem eq_one_of_count {d : Nat} (hpos : 0 < d) (hd : d ≤ 2 ^ 32)
    (h : toInt (d - 1) = 0) : d = 1 := by
  have hmod := congrArg (· % ((2 ^ 32 : Nat) : Int)) h
  simp only [toInt, Int.bmod_emod] at hmod
  omega

/-- **ONE ACCESS**. -/
theorem SplInv.access (I : SplInv s) {late : Bool} {o : SplOut F}
    (hguard : Quiet s (.go t late)) (h : access s t late = some (s', o)) :
    SplInv s' := by
  have hplace := I.place t
  cases hpc : s.pc t with
  | out =>
    simp only [RtaiSpl.access, hpc] at h
    exact nomatch h
  | lockTest kind flags =>
    simp only [RtaiSpl.access, hpc] at h
    cases h
    refine I.goto ?_ (by rw [hpc]; rfl) (by rw [hpc]; rfl) (by split <;> rfl)
    split
    · next ho => exact ho
    · trivial
  -- the load and the store are two accesses
  | countUp flags =>
    simp only [RtaiSpl.access, hpc] at h
    cases h
    rw [hpc] at hplace
    have ho : s.owndby = some t := hplace
    have hcount := I.counted t ho (by rw [hpc]; rfl)
    have hne : s.count ≠ -1 := by
      simp only [Quiet, hpc] at hguard
      exact hguard
    refine I.goto ⟨ho, ?_, ?_⟩ (by rw [hpc]; rfl) (by rw [hpc]; rfl) rfl
    · rw [hcount]
      exact toInt_up
    · refine Nat.lt_of_le_of_ne (I.depths t) fun hd => hne ?_
      rw [hcount, hd]
      decide
  | storeUp count flags =>
    simp only [RtaiSpl.access, hpc] at h
    cases h
    rw [hpc] at hplace
    obtain ⟨ho, hc, hd⟩ := hplace
    refine I.recount ho (by rw [hpc]; rfl) (Nat.succ_pos _) hd ?_ fun _ => trivial
    rw [hc]
    congr 1
    omega
  | swap kind flags =>
    simp only [RtaiSpl.access, hpc] at h
    have hout : SplInv (s.goto t .out) :=
      I.goto trivial (by rw [hpc]; rfl) (by rw [hpc]; rfl) rfl
    cases ho : s.owndby with
    | none =>
      rw [ho] at h
      cases h
      exact I.swap ho flags
    | some u =>
      rw [ho] at h
      cases kind with
      | lock =>
        cases h
        exact I
      | lockIf =>
        cases h
        exact hout
      | lockTimed =>
        cases late with
        | true =>
          cases h
          exact hout
        | false =>
          cases h
          exact I
  -- nobody else takes the lock between these accesses
  | storeFlags flags =>
    simp only [RtaiSpl.access, hpc] at h
    cases h
    simp only [Quiet, hpc] at hguard
    exact I.saves hpc hguard
  | unlockTest flags =>
    simp only [RtaiSpl.access, hpc] at h
    split at h
    · next ho =>
        cases h
        exact I.goto ho (by rw [hpc]; rfl) (by rw [hpc]; rfl) rfl
    · cases h
      exact I.goto trivial (by rw [hpc]; rfl) (by rw [hpc]; rfl) rfl
  | countTest =>
    simp only [RtaiSpl.access, hpc] at h
    cases h
    rw [hpc] at hplace
    have ho : s.owndby = some t := hplace
    have hcount := I.counted t ho (by rw [hpc]; rfl)
    have hpos := (I.holds t).mp ho
    refine I.goto ?_ (by rw [hpc]; rfl) (by rw [hpc]; rfl) (by split <;> rfl)
    split
    · next hne =>
        refine ⟨ho, Nat.lt_of_le_of_ne hpos fun h1 => hne ?_⟩
        rw [hcount, ← h1]
        decide
    · next heq =>
        refine ⟨ho, eq_one_of_count hpos (I.depths t) ?_⟩
        rw [← hcount]
        exact not_not.mp heq
  | countDown =>
    simp only [RtaiSpl.access, hpc] at h
    cases h
    rw [hpc] at hplace
    obtain ⟨ho, hd⟩ := hplace
    refine I.goto ⟨ho, ?_, hd⟩ (by rw [hpc]; rfl) (by rw [hpc]; rfl) rfl
    rw [I.counted t ho (by rw [hpc]; rfl)]
    exact toInt_down
  | storeDown count =>
    simp only [RtaiSpl.access, hpc] at h
    cases h
    rw [hpc] at hplace
    obtain ⟨ho, hc, hd⟩ := hplace
    have hle := I.depths t
    refine I.recount ho (by rw [hpc]; rfl) (by omega) (by omega) ?_ fun _ => trivial
    rw [hc]
    congr 1
    omega
  | release =>
    simp only [RtaiSpl.access, hpc] at h
    cases h
    exact I.released hpc
  | clearCount =>
    simp only [RtaiSpl.access, hpc] at h
    cases h
    simp only [Quiet, hpc] at hguard
    exact I.clears hpc hguard
  | readFlags =>
    simp only [RtaiSpl.access, hpc] at h
    cases h
    exact I.goto trivial (by rw [hpc]; rfl) (by rw [hpc]; rfl) rfl

/-- **ONE STEP**. -/
theorem SplInv.step (I : SplInv s) {a : SplAction T F} {o : SplOut F}
    (hguard : Quiet s a) (h : splStep s a = some (s', o)) : SplInv s' := by
  cases a with
  | lock t kind flags =>
    cases hpc : s.pc t with
    | out =>
      simp only [splStep, hpc] at h
      cases h
      exact I.goto trivial (by rw [hpc]; rfl) (by rw [hpc]; rfl) rfl
    | _ =>
      simp only [splStep, hpc] at h
      exact nomatch h
  | unlock t flags =>
    cases hpc : s.pc t with
    | out =>
      simp only [splStep, hpc] at h
      cases h
      exact I.goto trivial (by rw [hpc]; rfl) (by rw [hpc]; rfl) rfl
    | _ =>
      simp only [splStep, hpc] at h
      exact nomatch h
  | go t late => exact I.access hguard h

omit decT in
theorem splInv_init (flags : F) : SplInv (splInit flags : Spl T F) where
  holds := fun _ => ⟨fun h => (nomatch h), fun h => absurd h (Nat.lt_irrefl 0)⟩
  place := fun _ => trivial
  counted := fun _ h => (nomatch h)
  free := fun _ => rfl
  depths := fun _ => Nat.zero_le _
  owner := fun _ h => (nomatch h)
  leaves := fun _ h => (nomatch h)

end Steps

/-- **A RECURSIVE SPINLOCK** keeps the others out until its owner has unlocked
    it as often as it has locked it, and every unlock restores the owner's
    flags, as long as unlocks and locks of different tasks stay clear of each
    other. -/
theorem spl_recursive (flags : F) {s : Spl T F}
    (h : Reach splStep Quiet (splInit flags) s) : SplOk s := by
  have I : SplInv s :=
    h.invariant (splInv_init flags) fun _ _ _ _ I hguard hs => I.step hguard hs
  refine ⟨I.holds, fun t hpc => I.leaves t ?_⟩
  rw [hpc]
  rfl

instance [Fintype T] [DecidableEq F] (s : Spl T F) : ∀ a, Decidable (Quiet s a)
  | .lock .. | .unlock .. => inferInstanceAs (Decidable True)
  | .go t _ =>
    match hpc : s.pc t with
    | .countUp _ => decidable_of_iff (s.count ≠ -1) (by simp only [Quiet, hpc])
    | .clearCount => decidable_of_iff (s.count = 0 ∨ s.owndby.any fun u => storing (s.pc u))
        (by simp only [Quiet, hpc])
    | .storeFlags flags => decidable_of_iff (∀ u, u ≠ t → leaving (s.pc u) → s.saved u = flags)
        (by simp only [Quiet, hpc])
    | .out | .lockTest .. | .storeUp .. | .swap .. | .unlockTest _
    | .countTest | .countDown | .storeDown _ | .release | .readFlags =>
      .isTrue (by simp only [Quiet, hpc])

/-- A task locks twice and unlocks once while another one tries, and the other
    one has the lock at last. -/
theorem spl_recursive_two : ∃ s t : Spl Bool Bool,
    Reach splStep Quiet (splInit true) s ∧ s.depth false = 1 ∧ SplOk s ∧
      Reach splStep Quiet (splInit true) t ∧ t.depth true = 1 ∧ SplOk t := by
  obtain ⟨s, hs, hds, t, ht, hdt⟩ : ∃ s : Spl Bool Bool, play splStep Quiet (splInit true)
        [.lock false .lock true, .go false false, .go false false,
          .go false false, .lock false .lock false, .go false false,
          .go false false, .go false false, .lock true .lockIf true,
          .go true false, .go true false, .unlock false false, .go false false,
          .go false false, .go false false, .go false false,
          .go false false] = some s ∧ s.depth false = 1 ∧
      ∃ t, play splStep Quiet s [.unlock false false, .go false false, .go false false,
          .go false false, .lock true .lockTimed true, .go true false,
          .go true false, .go false false, .go true false,
          .go false false] = some t ∧ t.depth true = 1 :=
    ⟨_, rfl, rfl, _, rfl, rfl⟩
  have hreach := reach_of_play hs
  have hreach' := hreach.trans (reach_of_play ht)
  exact ⟨s, t, hreach, hds, spl_recursive true hreach, hreach', hdt,
    spl_recursive true hreach'⟩

/-- **INSIDE THE UNLOCK**: a task that has locked twice loses the lock at its
    first unlock, since the task before it has cleared the count; and a task
    restores the flags of the one after it. -/
theorem unlock_meets_lock :
    (∃ s : Spl Bool Bool, Reach splStep (fun _ _ => True) (splInit true) s ∧
      s.depth true = 1 ∧ s.owndby = none ∧ ¬ SplOk s) ∧
    ∃ s : Spl Bool Bool, Reach splStep (fun _ _ => True) (splInit true) s ∧
      s.pc false = .readFlags ∧ s.flags ≠ s.saved false ∧ ¬ SplOk s := by
  constructor
  · obtain ⟨s, hs, hd, ho⟩ : ∃ s : Spl Bool Bool, play splStep (fun _ _ => True) (splInit true)
          [.lock false .lock true, .go false false, .go false false,
            .go false false, .unlock false false, .go false false,
            .go false false, .go false false,
            .lock true .lock true, .go true false, .go true false,
            .go true false, .lock true .lock false, .go true false,
            .go true false, .go true false, .go false false,
            .unlock true false, .go true false, .go true false,
            .go true false] = some s ∧ s.depth true = 1 ∧ s.owndby = none :=
      ⟨_, rfl, rfl, rfl⟩
    refine ⟨s, reach_of_play hs, hd, ho, fun h => ?_⟩
    have hown := (h.holds true).mpr (hd ▸ Nat.one_pos)
    exact nomatch ho.symm.trans hown
  · obtain ⟨s, hs, hpc, hf, hsaved⟩ : ∃ s : Spl Bool Bool,
        play splStep (fun _ _ => True) (splInit true)
          [.lock false .lock true, .go false false, .go false false,
            .go false false, .unlock false false, .go false false,
            .go false false, .go false false,
            .lock true .lock false, .go true false, .go true false,
            .go true false, .go false false] = some s ∧
        s.pc false = .readFlags ∧ s.flags = false ∧ s.saved false = true :=
      ⟨_, rfl, rfl, rfl, rfl⟩
    have hne : s.flags ≠ s.saved false := by
      rw [hf, hsaved]
      decide
    exact ⟨s, reach_of_play hs, hpc, hne, fun h => hne (h.restores false hpc)⟩

end RtaiSpl
