import Rtai.Services

/-! # The steps of a system of semaphores

    A semaphore service is called, goes on, or is signalled from Linux; with
    the other services these are all the steps of a system whose tasks only
    synchronise through semaphores. -/

namespace RtaiSemSteps

open RtaiKernel RtaiSched RtaiSteps RtaiFrames RtaiWaitQueues
  RtaiControl RtaiSemEffects RtaiSemControl RtaiServices

variable {T S : Type} [decT : DecidableEq T] [decS : DecidableEq S] [finT : Fintype T]
  [finS : Fintype S]

/-- The semaphore a service waits for, and whether it only tries. -/
def entersWait {T S : Type} : Op T S → Option (S × Bool)
  | .semWait s => some (s, false)
  | .semWaitIf s => some (s, true)
  | .semWaitUntil s _ => some (s, false)
  | _ => none

/-- The semaphore a service signals. -/
def signalsOp {T S : Type} : Op T S → Option S
  | .semSignal s => some s
  | _ => none

/-- The semaphore an action signals. -/
def signalled {T S : Type} : Action T S → Option S
  | .call _ op => signalsOp op
  | .linux op => signalsOp op
  | _ => none

/-- The semaphore an action begins to wait for. -/
def entered {T S : Type} : Action T S → Option S
  | .call _ op => (entersWait op).map Prod.fst
  | _ => none

/-- An action about semaphores. -/
def aboutSem (k : Kernel T S) : Action T S → Bool
  | .call _ op => (entersWait op).isSome || (signalsOp op).isSome
  | .cont c => (waitsOn (k.pc c)).isSome
  | .linux op => (signalsOp op).isSome
  | _ => false

/-- A wait robs an owner only of what it has been granted in a wait it has not
    come back from. -/
def ActionRobsGranted (k : Kernel T S) : Action T S → Prop
  | .call c op =>
    match entersWait op with
    | some (s, _) => RobsGranted k c s
    | none => True
  | _ => True

/-- A wait of the owner finds room for one nested wait more in `type`, which is
    an `int`. -/
def ActionNestsInRange (k : Kernel T S) : Action T S → Prop
  | .call c op =>
    match entersWait op with
    | some (s, _) => k.owndby s = some c → k.type s < 2 ^ 31 - 1
    | none => True
  | _ => True

/-- The effect of an action about semaphores. -/
inductive SemStep (k : Kernel T S) (L : Head T S → List T) (a : Action T S)
    (k' : Kernel T S) (L' : Head T S → List T) (o : Option (Ret T)) :
    Prop where
  | waits (c : T) (op : Op T S) (s : S) (tries : Bool) (ha : a = .call c op)
      (hop : entersWait op = some (s, tries)) (hc : mayCall k c = true)
      (W : Waits tries k L c s k' L' o)
  | ends (c : T) (s : S) (ha : a = .cont c) (hpc : waitsOn (k.pc c) = some s)
      (hex : executes k c = true) (W : WaitEnds k L c s k' L' o)
  | signals (c : T) (s : S) (k₁ : Kernel T S) (ha : a = .call c (.semSignal s))
      (hc : mayCall k c = true) (G : Signals k L (some c) s k₁ L' o)
      (hk : k' = returned k₁ c)
  | linux (s : S) (ha : a = .linux (.semSignal s)) (G : Signals k L none s k' L' o)

/-- No task that signals has a negative suspension depth. -/
def SignalsUndeleted (k : Kernel T S) : Action T S → Prop
  | .call c (.semSignal s) => 0 < k.type s → 0 ≤ k.suspdepth c
  | _ => True

theorem rtSemSignal_returns {k k' : Kernel T S} {L L' : Head T S → List T}
    {c : Option T} {s : S} {o : Option (Ret T)}
    (G : Signals k L c s k' L' o) : ∃ v, o = some v := by
  cases G with
  | refuse _ _ _ _ _ ho => exact ⟨_, ho⟩
  | unnest _ _ _ _ ho => exact ⟨_, ho⟩
  | give _ _ _ _ ho => exact ⟨_, ho⟩
  | grant _ _ _ _ _ _ _ _ ho => exact ⟨_, ho⟩
  | release _ _ _ _ _ _ _ _ _ _ _ ho => exact ⟨_, ho⟩
  | handOver _ _ _ _ _ _ _ _ _ _ _ _ _ _ _ _ _ ho => exact ⟨_, ho⟩

/-- **Every action about semaphores has one of these effects.** -/
theorem exec_sem {k k' : Kernel T S} {L : Head T S → List T} {a : Action T S}
    {o : Option (Ret T)} (ha : aboutSem k a = true)
    (h : exec k a = some (k', o)) (C : Control k L)
    (hrob : ActionRobsGranted k a) (hsd : SignalsUndeleted k a) :
    ∃ L', SemStep k L a k' L' o := by
  cases a with
  | call c op =>
    obtain ⟨hc, r, hr, hf⟩ := exec_call h
    have hcall := C.caller hc
    cases op with
    | semWait s =>
      have hun := RobsGranted.unlinked (s := s) (c := c) hrob C
      obtain ⟨L', W⟩ := rtSemWait_effect hr hf C hcall hun
      exact ⟨L', .waits c _ s false rfl rfl hc W⟩
    | semWaitIf s =>
      have hun := RobsGranted.unlinked (s := s) (c := c) hrob C
      obtain ⟨L', W⟩ := rtSemWaitIf_effect hr hf C hun
      exact ⟨L', .waits c _ s true rfl rfl hc W⟩
    | semWaitUntil s time =>
      have hun := RobsGranted.unlinked (s := s) (c := c) hrob C
      obtain ⟨L', W⟩ := rtSemWaitUntil_effect hr hf C hcall hun
      exact ⟨L', .waits c _ s false rfl rfl hc W⟩
    | semSignal s =>
      obtain ⟨k₁, o₁⟩ := r
      obtain ⟨L', G⟩ := rtSemSignal_effect hr C (fun ht c' hc' => by cases hc'; exact hsd ht)
      obtain ⟨v, hv⟩ := rtSemSignal_returns G
      rw [hv] at hf G
      cases hf
      exact ⟨L', .signals c s k₁ rfl hc G rfl⟩
    | _ => exact nomatch ha
  | cont c =>
    obtain ⟨hex, r, hr, hf⟩ := exec_cont h
    have ha' : (waitsOn (k.pc c)).isSome = true := ha
    unfold contOp at hr
    cases hp : k.pc c with
    | semWait s =>
      rw [hp] at hr
      have hw : waitsOn (k.pc c) = some s := by rw [hp]; rfl
      obtain ⟨L', W⟩ := rtSemWaitTail_effect C hw (Or.inl hr) hf
      exact ⟨L', .ends c s rfl hw hex W⟩
    | semWaitUntil s =>
      rw [hp] at hr
      have hw : waitsOn (k.pc c) = some s := by rw [hp]; rfl
      obtain ⟨L', W⟩ := rtSemWaitTail_effect C hw (Or.inr hr) hf
      exact ⟨L', .ends c s rfl hw hex W⟩
    | _ => rw [hp] at ha'; exact nomatch ha'
  | linux op =>
    cases op with
    | semSignal s =>
      obtain ⟨L', G⟩ := rtSemSignal_effect h C (fun _ c' hc' => nomatch hc')
      exact ⟨L', .linux s rfl G⟩
    | _ => exact nomatch ha
  | _ => exact nomatch ha

/-- **THE SEMAPHORES KEEP THE CONTROL STATE.** -/
theorem SemStep.control {k k' : Kernel T S} {L L' : Head T S → List T}
    {a : Action T S} {o : Option (Ret T)} (h : SemStep k L a k' L' o)
    (C : Control k L) (hrob : ActionRobsGranted k a) : Control k' L' := by
  cases h with
  | waits c op s tries ha hop hc W =>
    subst ha
    unfold ActionRobsGranted at hrob
    dsimp only at hrob
    rw [hop] at hrob
    exact Waits.control W C (C.caller hc) hrob
  | ends c s _ hpc hex W => exact WaitEnds.control W C hpc hex
  | signals c s k₁ _ hc G hk =>
    rw [hk]
    exact control_caller_returned (Signals.control G C) (Signals.caller G C (C.caller hc))
  | linux s _ G => exact Signals.control G C

/-! ## Success -/

/-- A value that tells of success: for `rt_sem_wait_if` a positive one, for
    the other waits any that is no error. -/
def successValue (k : Kernel T S) (n : Int) (s : S) : Action T S → Bool
  | .call _ op =>
    match entersWait op with
    | some (s', tries) => s' = s && (!tries || 0 < n)
    | none => false
  | .cont c => waitsOn (k.pc c) = some s
  | _ => false

/-- A wait call returns success. -/
def waitSucceeds (k : Kernel T S) (a : Action T S) (o : Option (Ret T)) (s : S) :
    Bool :=
  match o with
  | some (.val n) => successValue k n s a
  | _ => false

omit decT finT finS in
theorem waitSucceeds_enter {k : Kernel T S} {c : T} {op : Op T S} {s s₀ : S}
    {tries : Bool} {n : Int} (hop : entersWait op = some (s₀, tries)) :
    waitSucceeds k (.call c op) (some (.val n)) s =
      (decide (s₀ = s) && (!tries || decide (0 < n))) := by
  unfold waitSucceeds successValue
  dsimp only
  rw [hop]

omit decT finT finS in
theorem waitSucceeds_error {k : Kernel T S} {s : S} {a : Action T S} {o : Option (Ret T)}
    (ho : ∀ n, o ≠ some (.val n)) : waitSucceeds k a o s = false := by
  unfold waitSucceeds
  split
  · exact absurd rfl (ho _)
  · rfl

omit decT decS finT finS in
theorem entered_call {c : T} {op : Op T S} {s : S} {tries : Bool}
    (hop : entersWait op = some (s, tries)) :
    entered (.call c op) = some s := by
  unfold entered
  dsimp only
  rw [hop]
  rfl

/-- The other actions wait for nothing and signal nothing. -/
theorem delays_silent {k : Kernel T S} {a : Action T S} {o : Option (Ret T)}
    {s : S} (hd : delays k a = true) :
    signalled a = none ∧ entered a = none ∧ waitSucceeds k a o s = false := by
  have hno : signalled a = none ∧ entered a = none ∧ ∀ n, successValue k n s a = false := by
    cases a with
    | call c op =>
      have hop : delaysOp op = true := hd
      have hen : entersWait op = none ∧ signalsOp op = none := by
        cases op <;> first | exact ⟨rfl, rfl⟩ | cases hop
      refine ⟨hen.2, ?_, fun n => ?_⟩
      · unfold entered
        dsimp only
        rw [hen.1]
        rfl
      · unfold successValue
        dsimp only
        rw [hen.1]
    | linux op =>
      have hop : delaysOp op = true := hd
      refine ⟨?_, rfl, fun _ => rfl⟩
      cases op <;> first | rfl | cases hop
    | cont c =>
      refine ⟨rfl, rfl, fun n => ?_⟩
      have hw := (quiet_of_delayed (p := k.pc c) hd).1
      unfold successValue
      dsimp only
      rw [hw]
      rfl
    | _ => exact ⟨rfl, rfl, fun _ => rfl⟩
  refine ⟨hno.1, hno.2.1, ?_⟩
  unfold waitSucceeds
  split
  · exact hno.2.2 _
  · rfl

/-! ## What has been granted -/

/-- Granted a semaphore, and not come back from the wait. -/
def Granted (k : Kernel T S) (s : S) (t : T) : Prop :=
  waitsOn (k.pc t) = some s ∧ k.blockedOn t = .null

instance (k : Kernel T S) (s : S) : DecidablePred (Granted k s) :=
  fun _ => inferInstanceAs (Decidable (_ ∧ _))

omit decT decS finT finS in
theorem not_granted_of_quiet {k : Kernel T S} {s : S} {t : T}
    (h : waitsOn (k.pc t) = none) : ¬ Granted k s t :=
  fun hg => nomatch h.symm.trans hg.1

omit decS finT finS in
/-- Only one task moves, and it is not granted before or after. -/
theorem granted_others {k k' : Kernel T S} {s : S} {c : T}
    (hc : ¬ Granted k s c) (hc' : ¬ Granted k' s c)
    (hpc : ∀ t, t ≠ c → k'.pc t = k.pc t)
    (hb : ∀ t, t ≠ c → k'.blockedOn t = k.blockedOn t) (t : T) :
    Granted k' s t ↔ Granted k s t := by
  by_cases ht : t = c
  · subst ht
    exact ⟨fun h => absurd h hc', fun h => absurd h hc⟩
  · unfold Granted
    rw [hpc t ht, hb t ht]

omit decS finT finS in
/-- A task that leaves its wait. -/
theorem granted_leaves {k k' : Kernel T S} {s : S} {c : T} (hc' : waitsOn (k'.pc c) = none)
    (hpc : ∀ t, t ≠ c → k'.pc t = k.pc t)
    (hb : ∀ t, t ≠ c → k'.blockedOn t = k.blockedOn t) (t : T) :
    Granted k' s t ↔ Granted k s t ∧ t ≠ c := by
  by_cases ht : t = c
  · subst ht
    exact ⟨fun h => absurd h (not_granted_of_quiet hc'), fun h => absurd rfl h.2⟩
  · unfold Granted
    rw [hpc t ht, hb t ht]
    exact ⟨fun h => ⟨h, ht⟩, fun h => h.1⟩

omit decS finT finS in
/-- A waiter that is granted what it waits for. -/
theorem granted_joins {k k' : Kernel T S} {s : S} {u : T}
    (hu : waitsOn (k.pc u) = some s) (hbu : k'.blockedOn u = .null)
    (hpc : k'.pc = k.pc)
    (hb : ∀ t, t ≠ u → k'.blockedOn t = k.blockedOn t) (t : T) :
    Granted k' s t ↔ Granted k s t ∨ t = u := by
  unfold Granted
  rw [hpc]
  by_cases ht : t = u
  · subst ht
    exact ⟨fun _ => Or.inr rfl, fun _ => ⟨hu, hbu⟩⟩
  · rw [hb t ht]
    exact ⟨Or.inl, fun h => h.resolve_right ht⟩

section Kept

variable {k k' : Kernel T S} {a : Action T S} {s : S}

omit decS finT finS in
/-- A service grants nothing and takes nothing back, as long as it keeps what
    was granted. -/
theorem Serves.granted {op : Op T S} (h : Serves k op k')
    (hkeep : KeepsGrants k op) (t : T) : Granted k' s t ↔ Granted k s t := by
  have hsame : ∀ {k₁ : Kernel T S} {u : T} {b : BlockedOn T S},
      k₁.pc = k.pc → k₁.blockedOn = Function.update k.blockedOn u b →
      (waitsOn (k.pc u) ≠ none → (b = .null ↔ k.blockedOn u = .null)) →
      (Granted k₁ s t ↔ Granted k s t) := by
    intro k₁ u b hpc hb hiff
    unfold Granted
    rw [hpc, hb]
    by_cases hu : t = u
    · subst hu
      rw [Function.update_self]
      refine and_congr_right fun h => hiff ?_
      rw [h]
      exact nofun
    · rw [Function.update_of_ne hu]
  cases h with
  | still h =>
    obtain ⟨_, _, _, _, _, _, _, _, _, _, _, rfl, -, -⟩ := h
    exact Iff.rfl
  | owed _ _ _ h => rw [h]; exact Iff.rfl
  | resumed u hop hd hs h =>
    subst hop
    obtain ⟨_, _, _, _, _, _, _, _, _, _, _, rfl, -, -⟩ := h
    exact hsame (u := u) (b := .null) rfl rfl
      (fun hw => ⟨fun _ => hkeep hd hs hw, fun _ => rfl⟩)
  | unblocked u mask hop hne hs h =>
    subst hop
    obtain ⟨_, _, _, _, _, _, _, _, _, _, _, rfl, -, -⟩ := h
    exact hsame (u := u) (b := .unblkd) rfl rfl (fun hw => ⟨fun h => (nomatch h),
        fun h => absurd h (hkeep hne hs hw)⟩)

/-- Neither do the other actions. -/
theorem Delays.granted (h : Delays k a k') (hkeep : ActionKeepsGrants k a)
    (t : T) : Granted k' s t ↔ Granted k s t := by
  have hidle : ∀ {k₁ : Kernel T S} {c : T} {p : Pc T S}, Quiet p →
      k₁.pc c = p → ¬ Granted k₁ s c := by
    intro k₁ c p hp hk
    exact not_granted_of_quiet (by rw [hk]; exact hp.1)
  cases h with
  | linux op ha hs =>
    subst ha
    exact Serves.granted hs hkeep t
  | call c op k₁ ha hc hs hk =>
    subst ha
    rw [hk, ← Serves.granted hs hkeep]
    refine granted_others (c := c) ?_ ?_ (fun t ht => ?_) ?_ t
    · exact hidle (quiet_of_mayCall hc) (congrFun (Serves.pc hs) c)
    · exact hidle (p := .idle) ⟨rfl, rfl, rfl⟩ (Function.update_self ..)
    · exact Function.update_of_ne ht ..
    · exact fun _ _ => rfl
  | blocks c op b p _ hc _ hp hk =>
    obtain ⟨_, _, _, _, _, _, _, _, _, _, _, rfl, -, -⟩ := hk
    refine granted_others (c := c) ?_ ?_ (fun t ht => ?_) (fun t ht => ?_) t
    · exact hidle (quiet_of_mayCall hc) rfl
    · exact hidle (quiet_of_delayed hp) (Function.update_self ..)
    · exact Function.update_of_ne ht ..
    · exact Function.update_of_ne ht ..
  | ends c _ _ hp hk =>
    rw [hk]
    refine granted_others (c := c) ?_ ?_ (fun t ht => ?_) ?_ t
    · exact hidle (quiet_of_delayed hp) rfl
    · exact hidle (p := .idle) ⟨rfl, rfl, rfl⟩ (Function.update_self ..)
    · exact Function.update_of_ne ht ..
    · exact fun _ _ => rfl
  | dispatch _ _ _ hk => rw [hk]; exact Iff.rfl
  | starts u _ _ hp hk =>
    obtain ⟨_, _, _, _, _, _, _, _, _, _, _, rfl, -, -⟩ := hk
    refine granted_others (c := u) ?_ ?_ (fun t ht => ?_) ?_ t
    · exact hidle (p := .idle) ⟨rfl, rfl, rfl⟩ hp
    · exact hidle (p := .start) ⟨rfl, rfl, rfl⟩ (Function.update_self ..)
    · exact Function.update_of_ne ht ..
    · exact fun _ _ => rfl
  | still hk =>
    obtain ⟨_, _, _, _, _, _, _, _, _, _, _, rfl, -, -⟩ := hk
    exact Iff.rfl

omit decS finT finS in
/-- The other services leave the semaphores alone. -/
theorem Serves.sems {op : Op T S} (h : Serves k op k') :
    k'.count = k.count ∧ k'.type = k.type ∧ k'.restype = k.restype ∧ k'.owndby = k.owndby := by
  cases h with
  | still h =>
    obtain ⟨_, _, _, _, _, _, _, _, _, _, _, rfl, -, -⟩ := h
    exact ⟨rfl, rfl, rfl, rfl⟩
  | owed _ _ _ h => rw [h]; exact ⟨rfl, rfl, rfl, rfl⟩
  | resumed _ _ _ _ h =>
    obtain ⟨_, _, _, _, _, _, _, _, _, _, _, rfl, -, -⟩ := h
    exact ⟨rfl, rfl, rfl, rfl⟩
  | unblocked _ _ _ _ _ h =>
    obtain ⟨_, _, _, _, _, _, _, _, _, _, _, rfl, -, -⟩ := h
    exact ⟨rfl, rfl, rfl, rfl⟩

omit finT finS in
theorem Delays.sems (h : Delays k a k') :
    k'.count = k.count ∧ k'.type = k.type ∧ k'.restype = k.restype ∧ k'.owndby = k.owndby := by
  cases h with
  | linux _ _ hs => exact Serves.sems hs
  | call _ _ _ _ _ hs hk =>
    have hsame := Serves.sems hs
    rw [hk]
    exact hsame
  | blocks _ _ _ _ _ _ _ _ hk =>
    obtain ⟨_, _, _, _, _, _, _, _, _, _, _, rfl, -, -⟩ := hk
    exact ⟨rfl, rfl, rfl, rfl⟩
  | ends _ _ _ _ hk => rw [hk]; exact ⟨rfl, rfl, rfl, rfl⟩
  | dispatch _ _ _ hk => rw [hk]; exact ⟨rfl, rfl, rfl, rfl⟩
  | starts _ _ _ _ hk =>
    obtain ⟨_, _, _, _, _, _, _, _, _, _, _, rfl, -, -⟩ := hk
    exact ⟨rfl, rfl, rfl, rfl⟩
  | still hk =>
    obtain ⟨_, _, _, _, _, _, _, _, _, _, _, rfl, -, -⟩ := hk
    exact ⟨rfl, rfl, rfl, rfl⟩

end Kept

/-! ## Where they leave the tasks -/

section Places

variable {k k' : Kernel T S} {L L' : Head T S → List T} {a : Action T S}
  {o : Option (Ret T)} {c : T} {s : S}

omit decT decS finT finS in
/-- The places of the tasks in their calls, and how resources may be used. -/
theorem Still.fixed (h : Still k k') : k'.pc = k.pc ∧ k'.restype = k.restype := by
  obtain ⟨_, _, _, _, _, _, _, _, _, _, _, rfl, -, -⟩ := h
  exact ⟨rfl, rfl⟩

omit decS finT finS in
theorem Prepared.fixed {k₀ : Kernel T S} (h : Prepared k c s k₀) :
    k₀.pc = k.pc ∧ k₀.restype = k.restype := by
  rcases h with h | h
  · exact Still.fixed h
  · have hfixed := Still.fixed h
    exact hfixed

omit finT finS in
theorem Passes.fixed {p : Int} {d : TaskPtr T} (P : Passes p k L d k' L') :
    k'.pc = k.pc ∧ k'.restype = k.restype := by
  induction P with
  | null _ _ => exact ⟨rfl, rfl⟩
  | stop _ _ _ _ => exact ⟨rfl, rfl⟩
  | step _ G R _ ih =>
    obtain ⟨_, _, -, -, _, _, _, _, _, _, _, _, _, _, _, rfl, -, -⟩ :=
      G.shuffles R
    exact ih

theorem Recomputes.fixed (h : Recomputes k s k') : k'.pc = k.pc ∧ k'.restype = k.restype := by
  cases h with
  | none _ h => exact Still.fixed h
  | owner _ _ _ _ _ h =>
    have hfixed := Still.fixed h
    exact hfixed

/-- A wait leaves only its caller elsewhere: outside, or in the wait. -/
theorem Waits.pc {tries : Bool} (W : Waits tries k L c s k' L' o) :
    ∃ p, k'.pc = Function.update k.pc c p ∧ (p = .idle ∨ waitsOn p = some s) := by
  have hret : ∀ {x : Kernel T S}, x.pc = k.pc →
      ∃ p, (returned x c).pc = Function.update k.pc c p ∧
        (p = .idle ∨ waitsOn p = some s) := by
    intro x hk
    refine ⟨.idle, ?_, Or.inl rfl⟩
    unfold returned
    rw [hk]
  cases W with
  | refuse k₀ r hP _ hk _ _ _ => rw [hk]; exact hret ((Prepared.fixed hP).1)
  | take _ hk _ _ =>
    obtain ⟨ow, rq, he⟩ := takeOwnership_eq { k with
      count := Function.update k.count s (k.count s - 1) } c s
    rw [hk, he]
    exact hret rfl
  | nested k₀ hP _ _ _ hk _ _ =>
    have hpc := (Prepared.fixed hP).1
    rw [hk]
    exact hret hpc
  | rob k₀ u l₁ l₂ q hP _ _ _ _ _ _ _ _ _ _ hk _ =>
    have hpc₀ := (Prepared.fixed hP).1
    have hpc := hret (x := robbed k₀ c s u q) hpc₀
    obtain ⟨_, _, _, _, _, _, _, _, _, _, _, rfl, -, -⟩ := hk
    exact hpc
  | expire k₁ k₂ q _ hk₁ _ hre hk _ _ =>
    rw [hk]
    refine hret (((Recomputes.fixed hre).1).trans ?_)
    obtain ⟨_, _, _, _, _, _, _, _, _, _, _, rfl, -, -⟩ := hk₁
    rfl
  | block k₀ k₁ L₁ l₁ l₂ q p hP _ _ hpass R₁ _ _ _ _ hp hk _ =>
    have hpc : k₁.pc = k.pc := ((Passes.fixed hpass).1).trans ((Prepared.fixed hP).1)
    refine ⟨p, ?_, Or.inr (by rcases hp with rfl | rfl <;> rfl)⟩
    obtain ⟨_, _, _, _, _, _, _, _, _, _, _, rfl, -, -⟩ := hk
    show Function.update k₁.pc c p = _
    rw [hpc]

theorem WaitEnds.pc (W : WaitEnds k L c s k' L' o) : k'.pc = Function.update k.pc c .idle := by
  cases W with
  | granted _ hk _ _ =>
    obtain ⟨ow, rq, he⟩ := takeOwnership_eq k c s
    rw [hk, he]
    rfl
  | failed k₂ _ _ q _ _ _ _ hre hk _ =>
    have hpc : k₂.pc = (unqueued k c s q).pc := (Recomputes.fixed hre).1
    rw [hk]
    unfold returned
    rw [hpc]
    rfl

theorem Signals.fixed {who : Option T} (G : Signals k L who s k' L' o) :
    k'.pc = k.pc ∧ k'.restype = k.restype := by
  cases G with
  | refuse _ _ _ hk _ _ => rw [hk]; exact ⟨rfl, rfl⟩
  | unnest _ _ hk _ _ => rw [hk]; exact ⟨rfl, rfl⟩
  | give _ _ hk _ _ => rw [hk]; exact ⟨rfl, rfl⟩
  | grant _ _ _ _ _ _ _ hk _ =>
    have hfixed := Still.fixed hk
    exact hfixed
  | release _ _ _ _ _ _ k₁ hk₁ _ hk _ _ =>
    subst hk₁
    have hfixed := Still.fixed hk
    exact hfixed
  | handOver _ _ _ _ _ _ _ _ _ _ _ _ _ k₁ hk₁ _ hk _ =>
    subst hk₁
    have hfixed := Still.fixed hk
    exact hfixed

theorem Signals.pc {who : Option T} (G : Signals k L who s k' L' o) : k'.pc = k.pc :=
  (Signals.fixed G).1

/-- An action about semaphores moves at most its caller, into the wait it
    begins or out of its call. -/
theorem SemStep.pc (h : SemStep k L a k' L' o) (t : T) : k'.pc t = k.pc t ∨ k'.pc t = .idle ∨
      ∃ c op s tries, a = .call c op ∧ entersWait op = some (s, tries) ∧
        waitsOn (k'.pc t) = some s := by
  cases h with
  | waits c op s tries ha hop _ W =>
    obtain ⟨p, hk, hp⟩ := Waits.pc W
    rw [hk]
    by_cases ht : t = c
    · subst ht
      rw [Function.update_self]
      rcases hp with rfl | hp
      · exact Or.inr (Or.inl rfl)
      · exact Or.inr (Or.inr ⟨t, op, s, tries, ha, hop, hp⟩)
    · exact Or.inl (Function.update_of_ne ht ..)
  | ends c s _ _ _ W =>
    rw [WaitEnds.pc W]
    by_cases ht : t = c
    · subst ht
      exact Or.inr (Or.inl (Function.update_self ..))
    · exact Or.inl (Function.update_of_ne ht ..)
  | signals c s k₁ _ _ G hk =>
    rw [hk]
    by_cases ht : t = c
    · subst ht
      exact Or.inr (Or.inl (Function.update_self ..))
    · refine Or.inl ((Function.update_of_ne ht ..).trans ?_)
      exact congrFun (Signals.pc G) t
  | linux s _ G => exact Or.inl (congrFun (Signals.pc G) t)

/-! ## The kinds of the semaphores -/

theorem Waits.restype {tries : Bool} (W : Waits tries k L c s k' L' o) :
    k'.restype = k.restype := by
  cases W with
  | refuse k₀ r hP _ hk _ _ _ =>
    have hrt := (Prepared.fixed hP).2
    rw [hk]
    exact hrt
  | take _ hk _ _ =>
    obtain ⟨ow, rq, he⟩ := takeOwnership_eq { k with
      count := Function.update k.count s (k.count s - 1) } c s
    rw [hk, he]
    rfl
  | nested k₀ hP _ _ _ hk _ _ =>
    have hrt := (Prepared.fixed hP).2
    rw [hk]
    exact hrt
  | rob k₀ u l₁ l₂ q hP _ _ _ _ _ _ _ _ _ _ hk _ =>
    have hrt := (Prepared.fixed hP).2
    obtain ⟨_, _, _, _, _, _, _, _, _, _, _, rfl, -, -⟩ := hk
    exact hrt
  | expire k₁ k₂ q _ hk₁ _ hre hk _ _ =>
    have hrt := (Recomputes.fixed hre).2
    obtain ⟨_, _, _, _, _, _, _, _, _, _, _, rfl, -, -⟩ := hk₁
    rw [hk]
    exact hrt
  | block k₀ k₁ L₁ l₁ l₂ q p hP _ _ hpass _ _ _ _ _ _ hk _ =>
    have hrt := ((Passes.fixed hpass).2).trans ((Prepared.fixed hP).2)
    obtain ⟨_, _, _, _, _, _, _, _, _, _, _, rfl, -, -⟩ := hk
    exact hrt

theorem WaitEnds.restype (W : WaitEnds k L c s k' L' o) : k'.restype = k.restype := by
  cases W with
  | granted _ hk _ _ =>
    obtain ⟨ow, rq, he⟩ := takeOwnership_eq k c s
    rw [hk, he]
    rfl
  | failed k₂ _ _ q _ _ _ _ hre hk _ =>
    have hrt : k₂.restype = (unqueued k c s q).restype :=
      (Recomputes.fixed hre).2
    rw [hk]
    exact hrt

/-- No service changes how a resource may be used. -/
theorem SemStep.restype (h : SemStep k L a k' L' o) : k'.restype = k.restype := by
  cases h with
  | waits _ _ _ _ _ _ _ W => exact Waits.restype W
  | ends _ _ _ _ _ W => exact WaitEnds.restype W
  | signals c s k₁ _ _ G hk =>
    have hrt := (Signals.fixed G).2
    rw [hk]
    exact hrt
  | linux s _ G => exact (Signals.fixed G).2

/-! ## The places of a system of semaphores -/

/-- Outside any call, delayed, or waiting for a semaphore. -/
def SemPc (p : Pc T S) : Prop :=
  p = .idle ∨ p = .start ∨ delayed p = true ∨ ∃ s, waitsOn p = some s

theorem SemStep.semPc (h : SemStep k L a k' L' o) (hp : ∀ t, SemPc (k.pc t))
    (t : T) : SemPc (k'.pc t) := by
  rcases h.pc t with h | h | ⟨_, _, s, _, _, _, hw⟩
  · rw [h]; exact hp t
  · exact Or.inl h
  · exact Or.inr (Or.inr (Or.inr ⟨s, hw⟩))

theorem Delays.semPc (h : Delays k a k') (hp : ∀ t, SemPc (k.pc t)) (t : T) :
    SemPc (k'.pc t) := by
  rcases Delays.pc h t with h | ⟨-, h | h | h⟩
  · rw [h]; exact hp t
  · exact Or.inl h
  · exact Or.inr (Or.inl h)
  · exact Or.inr (Or.inr (Or.inl h))

/-- A task that goes on with its call goes on with a delay or a wait. -/
theorem cont_cases {r : Kernel T S × Option (Ret T)} (hp : SemPc (k.pc c))
    (he : exec k (.cont c) = some r) :
    delays k (.cont c) = true ∨ aboutSem k (.cont c) = true := by
  obtain ⟨-, r, hr, -⟩ := exec_cont he
  unfold contOp at hr
  rcases hp with hp | hp | hp | ⟨s, hp⟩
  · rw [hp] at hr
    exact nomatch hr
  · rw [hp] at hr
    exact nomatch hr
  · exact Or.inl hp
  · refine Or.inr ?_
    show (waitsOn (k.pc c)).isSome = true
    rw [hp]
    rfl

/-! ## The suspension depths -/

omit decS finT finS in
theorem Prepared.deep {k₀ : Kernel T S} (h : Prepared k c s k₀) (hd : Deep k) : Deep k₀ := by
  rcases h with h | h
  · exact h.deep hd
  · exact h.deep hd

omit finT finS in
theorem Passes.deep {p : Int} {d : TaskPtr T} (P : Passes p k L d k' L')
    (hd : Deep k) : Deep k' := by
  induction P with
  | null _ _ => exact hd
  | stop _ _ _ _ => exact hd
  | step _ G R _ ih =>
    obtain ⟨_, _, -, -, hst⟩ := G.shuffles R
    exact ih (hst.deep hd)

theorem Recomputes.deep (h : Recomputes k s k') (hd : Deep k) : Deep k' := by
  cases h with
  | none _ h => exact h.deep hd
  | owner _ _ _ _ _ h => exact h.deep hd

theorem Waits.deep {tries : Bool} (W : Waits tries k L c s k' L' o)
    (hd : Deep k) : Deep k' := by
  cases W with
  | refuse k₀ r hP _ hk _ _ _ =>
    have hd₀ := Prepared.deep hP hd
    rw [hk]
    exact hd₀
  | take _ hk _ _ =>
    obtain ⟨ow, rq, he⟩ := takeOwnership_eq { k with
      count := Function.update k.count s (k.count s - 1) } c s
    rw [hk, he]
    exact hd
  | nested k₀ hP _ _ _ hk _ _ =>
    have hd₀ := Prepared.deep hP hd
    rw [hk]
    exact hd₀
  | rob k₀ u l₁ l₂ q hP _ _ _ _ _ _ _ _ _ _ hk _ =>
    have hd₀ := Prepared.deep hP hd
    exact hk.deep hd₀
  | expire k₁ k₂ q _ hk₁ _ hre hk _ _ =>
    have hd₁ := hk₁.deep hd
    have hd₂ : Deep k₂ := Recomputes.deep hre hd₁
    rw [hk]
    exact hd₂
  | block k₀ k₁ L₁ l₁ l₂ q p hP _ _ hpass _ _ _ _ _ _ hk _ =>
    have hd₁ := Passes.deep hpass (Prepared.deep hP hd)
    exact hk.deep hd₁

theorem WaitEnds.deep (W : WaitEnds k L c s k' L' o) (hd : Deep k) :
    Deep k' := by
  cases W with
  | granted _ hk _ _ =>
    obtain ⟨ow, rq, he⟩ := takeOwnership_eq k c s
    rw [hk, he]
    exact hd
  | failed k₂ _ _ q _ _ _ _ hre hk _ =>
    have hd₂ : Deep k₂ := Recomputes.deep hre hd
    rw [hk]
    exact hd₂

theorem Signals.deep {who : Option T} (G : Signals k L who s k' L' o)
    (hd : Deep k) : Deep k' := by
  cases G with
  | refuse _ _ _ hk _ _ => rw [hk]; exact hd
  | unnest _ _ hk _ _ => rw [hk]; exact hd
  | give _ _ hk _ _ => rw [hk]; exact hd
  | grant _ _ _ _ _ _ _ hk _ => exact hk.deep hd
  | release _ _ _ _ _ _ k₁ hk₁ _ hk _ _ => subst hk₁; exact hk.deep hd
  | handOver _ _ _ _ _ _ _ _ _ _ _ _ _ k₁ hk₁ _ hk _ =>
    subst hk₁
    exact hk.deep hd

/-- The semaphore services leave the suspension depths alone. -/
theorem SemStep.deep (h : SemStep k L a k' L' o) (hd : Deep k) : Deep k' := by
  cases h with
  | waits _ _ _ _ _ _ _ W => exact Waits.deep W hd
  | ends _ _ _ _ _ W => exact WaitEnds.deep W hd
  | signals c s k₁ _ _ G hk =>
    have hd₁ := Signals.deep G hd
    rw [hk]
    exact hd₁
  | linux s _ G => exact Signals.deep G hd

end Places

end RtaiSemSteps
