import Rtai.Rwl
import Rtai.ChangePrio

/-! # What the sections of a readers-writer lock do

    A section of a lock call is made of sections of its three semaphores: it
    may begin with the end of a wait, and it ends with at most one wait or one
    signal.  `Effect` lists what it can do, and `Core` is what holds of the
    three semaphores between the sections. -/

namespace RtaiRwlEffects

open RtaiKernel RtaiPrioInher RtaiTaskApi RtaiSched RtaiSem RtaiSteps
  RtaiFrames RtaiControl RtaiSemEffects RtaiSemControl RtaiServices
  RtaiSemSteps RtaiHolders RtaiBroadcast RtaiNoToken RtaiChangePrio
  RtaiRwl

variable {T R : Type} [decT : DecidableEq T] [decR : DecidableEq R] [finT : Fintype T]
  [finR : Fintype R]

/-! ## What holds between the sections -/

/-- The semaphore that a place in a call waits for. -/
def semOf : RwlPc R → Option (RwlSem R)
  | .rdsem r _ => some (.rdsem r)
  | .wrsem r _ => some (.wrsem r)
  | .wrmtx r _ => some (.wrmtx r)
  | .unlock _ => none

/-- The task is in the wait that its place in the call tells of, or in
    none. -/
def Sits (k : Kernel T (RwlSem R)) (c : T) (p : RwlPc R) : Prop :=
  match semOf p with
  | some s => waitsOn (k.pc c) = some s
  | none => Quiet (k.pc c)

/-- The holders of the locks for writing are holders of `wrmtx`. -/
def writing (k : Kernel T (RwlSem R)) (writes : T → R → Nat) :
    Holding T (RwlSem R) where
  kernel := k
  depth := fun t s =>
    match s with
    | .wrmtx r => writes t r
    | _ => 0

/-- **THE THREE SEMAPHORES OF EVERY LOCK**: `wrmtx` is a resource that is
    owned by the writer, the other two never have a token. -/
structure Sems (k : Kernel T (RwlSem R)) (L : Head T (RwlSem R) → List T)
    (writes : T → R → Nat) : Prop where
  control : Control k L
  deep : Deep k
  wrmtx : ∀ r, 0 < k.type (.wrmtx r) ∧ Owned (writing k writes) L (.wrmtx r)
  wrsem : ∀ r, NoToken k L (.wrsem r)
  rdsem : ∀ r, NoToken k L (.rdsem r)

/-- What holds between the sections. -/
structure Core (x : Locking T R) (L : Head T (RwlSem R) → List T) : Prop where
  sems : Sems x.rwl.kernel L x.writes
  sits : ∀ c p, x.rwl.call c = some p → Sits x.rwl.kernel c p

/-! ## The beginning of a section -/

/-- A section begins with a call, or with the end of a wait that has been
    granted. -/
inductive Enters (k : Kernel T (RwlSem R)) (c : T) :
    Option (RwlSem R) → Kernel T (RwlSem R) → Prop where
  | call (hc : mayCall k c = true) : Enters k c none k
  | woken (s : RwlSem R) (hw : waitsOn (k.pc c) = some s)
      (hb : k.blockedOn c = .null) (hex : executes k c = true)
      (ht : k.type s = 0) : Enters k c (some s) (returned k c)

section Enters

variable {k k₁ : Kernel T (RwlSem R)} {L : Head T (RwlSem R) → List T} {c : T}
  {e : Option (RwlSem R)}

omit finT finR in
/-- A semaphore that is no resource gets no owner. -/
theorem takeOwnership_none {s : RwlSem R} (h : k.type s = 0) : takeOwnership k c s = k := by
  unfold takeOwnership
  rw [if_neg (by omega)]

/-- The end of a wait that has been granted. -/
theorem woken_ends {s : RwlSem R} (hb : k.blockedOn c = .null) (ht : k.type s = 0) :
    WaitEnds k L c s (returned k c) L (some (.val (k.count s))) := by
  have hk : returned k c = returned (takeOwnership k c s) c := by
    rw [takeOwnership_none ht]
  exact .granted hb hk rfl rfl

/-- **A task that has come back from a wait may wait again.** -/
theorem Enters.caller (E : Enters k c e k₁) (C : Control k L) :
    Control k₁ L ∧ Caller k₁ c := by
  cases E with
  | call hc => exact ⟨C, C.caller hc⟩
  | woken s hw hb hex ht =>
    obtain ⟨hm, hret, hbits⟩ := C.waiter hw
    refine ⟨WaitEnds.control (woken_ends hb ht) C hw hex, ?_, ?_, hm, hret, ?_⟩
    · show waitsOn (Function.update k.pc c .idle c) = none
      rw [Function.update_self]
      rfl
    · show sendsTo (Function.update k.pc c .idle c) = none
      rw [Function.update_self]
      rfl
    · -- no bit tells of a wait that has been granted
      refine Finset.disjoint_left.mpr fun f hf hm => ?_
      unfold blocking at hm
      rw [Finset.mem_insert] at hm
      rcases hm with rfl | hm
      · rcases (C.stands c).semBit hf with ⟨s', -, hb'⟩ | ⟨-, hp, -⟩
        · rw [hb] at hb'
          exact nomatch hb'
        · rw [hp] at hw
          exact nomatch hw
      · exact Finset.disjoint_left.mp hbits hf hm

omit finT finR in
/-- The beginning of a section changes nothing but the place of its task. -/
theorem Enters.fields (E : Enters k c e k₁) :
    k₁.owndby = k.owndby ∧ k₁.type = k.type ∧ k₁.count = k.count ∧
      k₁.priority = k.priority ∧ k₁.running = k.running ∧
      k₁.blockedOn = k.blockedOn ∧ k₁.restype = k.restype ∧
      k₁.queue = k.queue ∧ k₁.suspdepth = k.suspdepth ∧
      ∀ t, t ≠ c → k₁.pc t = k.pc t := by
  cases E with
  | call _ => exact ⟨rfl, rfl, rfl, rfl, rfl, rfl, rfl, rfl, rfl, fun _ _ => rfl⟩
  | woken _ _ _ _ _ =>
    exact ⟨rfl, rfl, rfl, rfl, rfl, rfl, rfl, rfl, rfl,
      fun t ht => Function.update_of_ne ht ..⟩

/-- Whom a wait may rob does not change. -/
theorem Enters.robsGranted {s : RwlSem R} (E : Enters k c e k₁)
    (h : RobsGranted k c s) : RobsGranted k₁ c s := by
  obtain ⟨h1, h2, -, h4, h5, h6, -, -, -, h10⟩ := E.fields
  intro u ht hu hp hr
  rw [h2] at ht
  rw [h1] at hu
  rw [h4] at hp
  rw [h5] at hr
  obtain ⟨hw, hb⟩ := h u ht hu hp hr
  have hne : u ≠ c := by
    rintro rfl
    exact lt_irrefl _ hp
  rw [h10 u hne, h6]
  exact ⟨hw, hb⟩

theorem Enters.noToken {s : RwlSem R} (E : Enters k c e k₁)
    (N : NoToken k L s) : NoToken k₁ L s := by
  obtain ⟨h1, h2, h3, -⟩ := E.fields
  exact ⟨(congrFun h2 s).trans N.type, (congrFun h1 s).trans N.owndby,
    (congrFun h3 s).trans N.count⟩

end Enters

omit finT finR in
/-- Where the test of a reader looks does not change when a section begins. -/
theorem readerWaits_enters {k k₁ : Kernel T (RwlSem R)} {c : T} {r : R}
    {e : Option (RwlSem R)} (E : Enters k c e k₁) :
    readerWaits k₁ c r = readerWaits k c r := by
  cases E with
  | call _ => rfl
  | woken _ _ _ _ _ => rfl

omit decT decR finT finR in
/-- A wait for no resource robs nobody. -/
theorem NoToken.robsGranted {k : Kernel T (RwlSem R)}
    {L : Head T (RwlSem R) → List T} {s : RwlSem R} (N : NoToken k L s)
    (c : T) : RobsGranted k c s := by
  intro u ht
  rw [N.type] at ht
  exact absurd ht (lt_irrefl _)

/-! ## The loops -/

section Loops

variable {x x' : Rwl T R} {L : Head T (RwlSem R) → List T} {c : T} {r : R}
  {time : Option Int} {o : Option (RwlRet T)}

/-- The state in which the call of `c` has returned. -/
def callOver (x : Rwl T R) (c : T) : Rwl T R where
  kernel := returned x.kernel c
  readers := x.readers
  call := Function.update x.call c none

/-- A wait that has been called, with what becomes of the lock call. -/
def Waited (x : Rwl T R) (c : T) (p : RwlPc R) (k : Kernel T (RwlSem R))
    (o₁ : Option (Ret T)) (x' : Rwl T R) (o : Option (RwlRet T)) : Prop :=
  (o₁ = none ∧ o = none ∧ x' = { x with
    kernel := k
    call := Function.update x.call c (some p) }) ∨
  (∃ v, o₁ = some v ∧ o = some (.other v) ∧ x' = { x with
    kernel := k
    call := Function.update x.call c none })

omit decR finT finR in
/-- A task that is outside any call may return again. -/
theorem returned_idle {k : Kernel T (RwlSem R)} (h : k.pc c = .idle) :
    returned k c = k := by
  unfold returned
  rw [← h, Function.update_eq_self]

/-- A wait that has returned leaves its task outside any call. -/
theorem Waits.idle {tries : Bool} {k k' : Kernel T (RwlSem R)}
    {L' : Head T (RwlSem R) → List T} {s : RwlSem R} {v : Ret T}
    (W : Waits tries k L c s k' L' (some v)) : k'.pc c = .idle := by
  cases W with
  | refuse _ _ _ _ hk _ _ _ => rw [hk]; exact Function.update_self ..
  | take _ hk _ _ => rw [hk]; exact Function.update_self ..
  | nested _ _ _ _ _ hk _ _ => rw [hk]; exact Function.update_self ..
  | rob _ _ _ _ _ _ _ _ _ _ _ _ _ _ _ _ hk _ =>
    obtain ⟨_, _, _, _, _, _, _, _, _, _, _, rfl, -, -⟩ := hk
    exact Function.update_self ..
  | expire _ _ _ _ _ _ _ hk _ _ => rw [hk]; exact Function.update_self ..
  | block _ _ _ _ _ _ _ _ _ _ _ _ _ _ _ _ _ _ ho => exact nomatch ho

/-- A wait that has not returned is under way. -/
theorem Waits.sleeps {tries : Bool} {k k' : Kernel T (RwlSem R)}
    {L' : Head T (RwlSem R) → List T} {s : RwlSem R}
    (W : Waits tries k L c s k' L' none) : waitsOn (k'.pc c) = some s := by
  cases W with
  | refuse _ _ _ _ _ _ ho _ => exact nomatch ho
  | take _ _ _ ho => exact nomatch ho
  | nested _ _ _ _ _ _ _ ho => exact nomatch ho
  | rob _ _ _ _ _ _ _ _ _ _ _ _ _ _ _ _ _ ho => exact nomatch ho
  | expire _ _ _ _ _ _ _ _ _ ho => exact nomatch ho
  | block _ _ _ _ _ _ p _ _ _ _ _ _ _ _ _ hp hk _ =>
    have hpc : k'.pc c = p := by
      obtain ⟨_, _, _, _, _, _, _, _, _, _, _, rfl, -, -⟩ := hk
      exact Function.update_self ..
    rw [hpc]
    rcases hp with rfl | rfl <;> rfl

/-- A wait moves nobody but its caller. -/
theorem Waits.others {tries : Bool} {k k' : Kernel T (RwlSem R)}
    {L' : Head T (RwlSem R) → List T} {s : RwlSem R} {o₁ : Option (Ret T)}
    (W : Waits tries k L c s k' L' o₁) (t : T) (ht : t ≠ c) :
    k'.pc t = k.pc t := by
  obtain ⟨p, hp, -⟩ := Waits.pc W
  rw [hp, Function.update_of_ne ht]

/-- **The waits of the lock calls** -/
theorem semWait_effect {k k' : Kernel T (RwlSem R)} {s : RwlSem R}
    {o₁ : Option (Ret T)} (h : RtaiRwl.semWait k c s time = some (k', o₁))
    (C : Control k L) (hcall : Caller k c) (hrob : RobsGranted k c s) :
    ∃ L', Waits false k L c s k' L' o₁ := by
  have hun := RobsGranted.unlinked hrob C
  cases time with
  | none =>
    obtain ⟨r, hr, hf⟩ := Option.map_eq_some_iff.mp h
    exact rtSemWait_effect hr hf C hcall hun
  | some time =>
    obtain ⟨r, hr, hf⟩ := Option.map_eq_some_iff.mp h
    exact rtSemWaitUntil_effect hr hf C hcall hun

/-- **The loop of `rt_rwl_rdlock`**: the task reads, owns the lock already, or
    waits. -/
theorem rdlockLoop_cases {fuel : Nat} (C : Control x.kernel L)
    (hcall : Caller x.kernel c) (N : NoToken x.kernel L (.rdsem r))
    (h : rdlockLoop c r time fuel x = some (x', o)) :
    (readerWaits x.kernel c r = some false ∧ x.kernel.owndby (.wrmtx r) = none ∧
      x' = callOver (addReader x r) c ∧ o = some .ok) ∨
    (x.kernel.owndby (.wrmtx r) = some c ∧ x' = callOver x c ∧ o = some .rwlinv) ∨
    (readerWaits x.kernel c r = some true ∧ ∃ k' L' o₁,
      Waits false x.kernel L c (.rdsem r) k' L' o₁ ∧
      Waited x c (.rdsem r time) k' o₁ x' o) := by
  cases fuel with
  | zero => exact nomatch h
  | succ fuel =>
    obtain ⟨b, hb, h⟩ := Option.bind_eq_some_iff.mp h
    cases b with
    | false =>
      cases h
      refine Or.inl ⟨hb, ?_, rfl, rfl⟩
      by_contra hne
      unfold readerWaits at hb
      rw [if_pos hne] at hb
      exact nomatch hb
    | true =>
      rw [if_pos rfl] at h
      by_cases hown : x.kernel.owndby (.wrmtx r) = some c
      · rw [if_pos hown] at h
        cases h
        exact Or.inr (Or.inl ⟨hown, rfl, rfl⟩)
      · rw [if_neg hown] at h
        refine Or.inr (Or.inr ⟨hb, ?_⟩)
        obtain ⟨⟨k', o₁⟩, hw, h⟩ := Option.bind_eq_some_iff.mp h
        obtain ⟨L', W⟩ := semWait_effect hw C hcall (NoToken.robsGranted N c)
        rcases Waits.sleeps_or_expires W N with rfl | rfl
        · cases h
          exact ⟨k', L', none, W, Or.inl ⟨rfl, rfl, rfl⟩⟩
        · cases h
          refine ⟨k', L', _, W, Or.inr ⟨_, rfl, rfl, ?_⟩⟩
          have hidle := returned_idle (Waits.idle W)
          unfold returned at hidle
          dsimp only
          rw [hidle]

omit decR finT finR in
/-- What is made of the value of the wait on `wrmtx`: only success is 0. -/
theorem wrmtxResult_cases {w : Outcome T (RwlSem R)}
    (h : wrmtxResult x c r time w = some (x', o)) :
    (w.2 = none ∧ o = none ∧ x' = { x with
      kernel := w.1
      call := Function.update x.call c (some (.wrmtx r time)) }) ∨
    (∃ v, w.2 = some v ∧ o ≠ none ∧ (o = some .ok ↔ ∃ n, v = .val n) ∧
      x' = callOver { x with kernel := w.1 } c) := by
  obtain ⟨k, o₁⟩ := w
  unfold wrmtxResult at h
  dsimp only at h
  cases o₁ with
  | none =>
    cases h
    exact Or.inl ⟨rfl, rfl, rfl⟩
  | some v =>
    refine Or.inr ⟨v, rfl, ?_⟩
    cases v with
    | val n =>
      cases h
      exact ⟨nofun, ⟨fun _ => ⟨n, rfl⟩, fun _ => rfl⟩, rfl⟩
    | _ =>
      cases h
      exact ⟨nofun, ⟨fun h => (nomatch h), fun h => nomatch h.choose_spec⟩,
        rfl⟩

/-- What becomes of a lock call in its wait on `wrmtx`. -/
def Contends (x : Rwl T R) (c : T) (r : R) (time : Option Int)
    (k : Kernel T (RwlSem R)) (o₁ : Option (Ret T)) (x' : Rwl T R)
    (o : Option (RwlRet T)) : Prop :=
  (o₁ = none ∧ o = none ∧ x' = { x with
    kernel := k
    call := Function.update x.call c (some (.wrmtx r time)) }) ∨
  (∃ v, o₁ = some v ∧ o ≠ none ∧ (o = some .ok ↔ ∃ n, v = .val n) ∧
    x' = { x with
      kernel := k
      call := Function.update x.call c none })

/-- **The loop of `rt_rwl_wrlock`**: the task waits for the readers, or for
    the writer. -/
theorem wrlockLoop_cases {fuel : Nat} (C : Control x.kernel L)
    (hcall : Caller x.kernel c) (N : NoToken x.kernel L (.wrsem r))
    (hrob : RobsGranted x.kernel c (.wrmtx r))
    (h : wrlockLoop c r time fuel x = some (x', o)) :
    (x.readers r ≠ 0 ∧ ∃ k' L' o₁, Waits false x.kernel L c (.wrsem r) k' L' o₁ ∧
      Waited x c (.wrsem r time) k' o₁ x' o) ∨
    (x.readers r = 0 ∧ ∃ k' L' o₁, Waits false x.kernel L c (.wrmtx r) k' L' o₁ ∧
      Contends x c r time k' o₁ x' o) := by
  cases fuel with
  | zero => exact nomatch h
  | succ fuel =>
    unfold wrlockLoop at h
    by_cases hr : x.readers r ≠ 0
    · rw [if_pos hr] at h
      refine Or.inl ⟨hr, ?_⟩
      obtain ⟨⟨k', o₁⟩, hw, h⟩ := Option.bind_eq_some_iff.mp h
      obtain ⟨L', W⟩ := semWait_effect hw C hcall (NoToken.robsGranted N c)
      rcases Waits.sleeps_or_expires W N with rfl | rfl
      · cases h
        exact ⟨k', L', none, W, Or.inl ⟨rfl, rfl, rfl⟩⟩
      · cases h
        refine ⟨k', L', _, W, Or.inr ⟨_, rfl, rfl, ?_⟩⟩
        have hidle := returned_idle (Waits.idle W)
        unfold returned at hidle
        dsimp only
        rw [hidle]
    · rw [if_neg hr] at h
      refine Or.inr ⟨not_not.mp hr, ?_⟩
      obtain ⟨⟨k', o₁⟩, hw, h⟩ := Option.bind_eq_some_iff.mp h
      obtain ⟨L', W⟩ := semWait_effect hw C hcall hrob
      refine ⟨k', L', o₁, W, ?_⟩
      rcases wrmtxResult_cases h with ⟨h1, h2, h3⟩ | ⟨v, h1, h2, h3, h4⟩
      · exact Or.inl ⟨h1, h2, h3⟩
      · dsimp only at h1
        subst h1
        refine Or.inr ⟨v, rfl, h2, h3, ?_⟩
        have hidle := returned_idle (Waits.idle W)
        rw [h4]
        unfold callOver
        dsimp only
        rw [hidle]

/-- The end of a wait of a lock call. -/
theorem contOp_waitEnds {k : Kernel T (RwlSem R)} {s : RwlSem R}
    {w : Outcome T (RwlSem R)} (C : Control k L)
    (hpc : waitsOn (k.pc c) = some s)
    (h : (contOp k c).map (finish c) = some w) :
    ∃ L', WaitEnds k L c s w.1 L' w.2 := by
  obtain ⟨r, hr, hf⟩ := Option.map_eq_some_iff.mp h
  unfold contOp at hr
  cases hp : k.pc c with
  | semWait s' =>
    rw [hp] at hr hpc
    cases hpc
    have hw : waitsOn (k.pc c) = some s := by rw [hp]; rfl
    exact rtSemWaitTail_effect C hw (Or.inl hr) hf
  | semWaitUntil s' =>
    rw [hp] at hr hpc
    cases hpc
    have hw : waitsOn (k.pc c) = some s := by rw [hp]; rfl
    exact rtSemWaitTail_effect C hw (Or.inr hr) hf
  | _ => rw [hp] at hpc; exact nomatch hpc

end Loops

/-! ## The runs -/

/-- The services that come in between: unblocks and changes of priority; tasks
    are started with `rt_task_resume`. -/
def RwlServes (k : Kernel T (RwlSem R)) : Op T (RwlSem R) → Prop
  | .unblock _ _ => True
  | .changePrio _ _ => True
  | .resume t => 0 < k.suspdepth t ∧ k.pc t = .idle
  | _ => False

/-- The steps of the readers and writers. -/
def RwlRuns (x : Rwl T R) : RwlAction T R → Prop
  | .kernel (.call _ op) => RwlServes x.kernel op
  | .kernel (.linux op) => RwlServes x.kernel op
  | _ => True

/-- A wait for `wrmtx` robs an owner only of what it has been granted in a
    wait it has not come back from. -/
def RwlRobsGranted (x : Rwl T R) : RwlAction T R → Prop
  | .call c (.wrlock r) => RobsGranted x.kernel c (.wrmtx r)
  | .call c (.wrlockUntil r _) => RobsGranted x.kernel c (.wrmtx r)
  | .call c (.wrlockIf r) => RobsGranted x.kernel c (.wrmtx r)
  | .go c =>
    match x.call c with
    | some (.wrsem r _) => RobsGranted x.kernel c (.wrmtx r)
    | _ => True
  | _ => True

/-- A task that becomes a reader, or waits for the lock it writes, finds room in
    `readers` or in the depth of its nested calls, which are `int`s. -/
def RwlCountsInRange (x : Rwl T R) (a : RwlAction T R) : Prop :=
  match takes x a with
  | some (c, r, false) =>
    readerWaits x.kernel c r = some false → x.readers r < 2 ^ 31 - 1
  | some (c, r, true) =>
    x.kernel.owndby (.wrmtx r) = some c → x.kernel.type (.wrmtx r) < 2 ^ 31 - 1
  | none => True

omit decT decR finT finR in
theorem RwlCountsInRange.readers {x : Rwl T R} {a : RwlAction T R} {c : T} {r : R}
    (h : RwlCountsInRange x a) (ha : takes x a = some (c, r, false))
    (hno : readerWaits x.kernel c r = some false) : x.readers r < 2 ^ 31 - 1 := by
  unfold RwlCountsInRange at h
  rw [ha] at h
  exact h hno

omit decT decR finT finR in
theorem RwlCountsInRange.nests {x : Rwl T R} {a : RwlAction T R} {c : T} {r : R}
    (h : RwlCountsInRange x a) (ha : takes x a = some (c, r, true))
    (hown : x.kernel.owndby (.wrmtx r) = some c) :
    x.kernel.type (.wrmtx r) < 2 ^ 31 - 1 := by
  unfold RwlCountsInRange at h
  rw [ha] at h
  exact h hown

/-- A resume and an unblock leave what has been granted. -/
def RwlKeepsGrants (x : Rwl T R) : RwlAction T R → Prop
  | .kernel a => ActionKeepsGrants x.kernel a
  | _ => True

/-- Nobody has the lock. -/
def Free (x : Rwl T R) (r : R) : Prop :=
  x.kernel.owndby (.wrmtx r) = none ∧ x.readers r = 0

/-! ## Effects -/

/-- What one section of the system does. -/
inductive Effect (x : Rwl T R) (L : Head T (RwlSem R) → List T)
    (a : RwlAction T R) (x' : Rwl T R) (L' : Head T (RwlSem R) → List T)
    (o : Option (RwlRet T)) : Prop where
  /-- The task becomes a reader. -/
  | reads (c : T) (r : R) (e : Option (RwlSem R)) (k₁ : Kernel T (RwlSem R))
      (ha : takes x a = some (c, r, false)) (E : Enters x.kernel c e k₁)
      (he : e = none ∨ e = some (.rdsem r))
      (hno : readerWaits x.kernel c r = some false)
      (hfree : x.kernel.owndby (.wrmtx r) = none)
      (hx : x' = callOver (addReader { x with kernel := k₁ } r) c) (hL : L' = L)
      (ho : o = some .ok)
  /-- The call returns without the lock. -/
  | quits (c : T) (r : R) (w : Bool) (e : Option (RwlSem R))
      (k₁ : Kernel T (RwlSem R)) (ha : takes x a = some (c, r, w))
      (E : Enters x.kernel c e k₁)
      (he : e = none ∨ e = some (.rdsem r) ∧ x.kernel.owndby (.wrmtx r) = some c)
      (hx : x' = callOver { x with kernel := k₁ } c) (hL : L' = L)
      (ho : ∃ v, o = some v ∧ v ≠ .ok)
  /-- A reader that a writer goes before, or a writer that waits for readers. -/
  | queues (c : T) (r : R) (w : Bool) (e : Option (RwlSem R)) (s : RwlSem R)
      (p : RwlPc R) (k₁ k' : Kernel T (RwlSem R)) (o₁ : Option (Ret T))
      (ha : takes x a = some (c, r, w)) (E : Enters x.kernel c e k₁)
      (he : e = none ∨ e = some s)
      (hs : s = .rdsem r ∧ readerWaits k₁ c r = some true ∨ s = .wrsem r ∧ x.readers r ≠ 0)
      (hp : semOf p = some s) (W : Waits false k₁ L c s k' L' o₁)
      (hx : Waited x c p k' o₁ x' o)
  /-- A wait for `wrmtx`, when there are no readers. -/
  | contends (c : T) (r : R) (e : Option (RwlSem R)) (p : RwlPc R)
      (op : Op T (RwlSem R)) (tries : Bool) (k₁ k' : Kernel T (RwlSem R))
      (o₁ : Option (Ret T)) (ha : takes x a = some (c, r, true))
      (E : Enters x.kernel c e k₁) (he : e = none ∨ e = some (.wrsem r))
      (hr : x.readers r = 0) (hrob : RobsGranted x.kernel c (.wrmtx r))
      (hop : entersWait op = some (.wrmtx r, tries))
      (W : Waits tries k₁ L c (.wrmtx r) k' L' o₁)
      (hp : semOf p = some (.wrmtx r))
      (hx : x' = { x with
        kernel := k'
        call := Function.update x.call c (if o₁ = none then some p else none) })
      (hn : o = none ↔ o₁ = none)
      (ho : o = some .ok ↔ waitSucceeds k₁ (.call c op) o₁ (.wrmtx r) = true)
  /-- A wait has failed, or the one for `wrmtx` is over. -/
  | ends (c : T) (r : R) (w : Bool) (s : RwlSem R)
      (k' : Kernel T (RwlSem R)) (o₁ : Option (Ret T))
      (ha : takes x a = some (c, r, w))
      (hw : waitsOn (x.kernel.pc c) = some s)
      (hex : executes x.kernel c = true)
      (W : WaitEnds x.kernel L c s k' L' o₁)
      (hs : s = .wrmtx r ∧ w = true ∨
        (s = .rdsem r ∨ s = .wrsem r) ∧ x.kernel.blockedOn c ≠ .null)
      (hx : x' = { x with
        kernel := k'
        call := Function.update x.call c none })
      (hn : o ≠ none)
      (ho : o = some .ok ↔ s = .wrmtx r ∧ ∃ n, o₁ = some (.val n))
  | unlocksWrite (c : T) (r : R) (k₁ : Kernel T (RwlSem R))
      (o₁ : Option (Ret T)) (ha : a = .call c (.unlock r))
      (hc : mayCall x.kernel c = true)
      (hown : x.kernel.owndby (.wrmtx r) = some c)
      (G : Signals x.kernel L (some c) (.wrmtx r) k₁ L' o₁)
      (hv : ∃ n, o₁ = some (.val n))
      (hx : x' = { x with
        kernel := returned k₁ c
        call := Function.update x.call c (some (.unlock r)) })
      (ho : o = none)
  | unlocksRead (c : T) (r : R) (ha : a = .call c (.unlock r)) (hc : mayCall x.kernel c = true)
      (hown : x.kernel.owndby (.wrmtx r) ≠ some c) (hr : x.readers r ≠ 0)
      (hx : x' = { x with
        kernel := returned x.kernel c
        readers := Function.update x.readers r (decr (x.readers r))
        call := Function.update x.call c (some (.unlock r)) }) (hL : L' = L)
      (ho : o = none)
  | refuses (c : T) (r : R) (ha : a = .call c (.unlock r)) (hc : mayCall x.kernel c = true)
      (hown : x.kernel.owndby (.wrmtx r) ≠ some c)
      (hx : x' = callOver x c) (hL : L' = L) (ho : o = some .perm)
  /-- The lock is free, and the first writer is woken up. -/
  | offers (c : T) (r : R) (k₁ : Kernel T (RwlSem R)) (o₁ : Option (Ret T))
      (ha : a = .go c) (hcall : x.call c = some (.unlock r))
      (hl : L (.sem (.wrsem r)) ≠ [])
      (G : Signals x.kernel L (some c) (.wrsem r) k₁ L' o₁)
      (hx : x' = callOver { x with kernel := k₁ } c) (ho : o = some .ok)
  /-- The lock is free, and the readers are woken up. -/
  | announces (c : T) (r : R) (k₁ k₂ : Kernel T (RwlSem R)) (ha : a = .go c)
      (hcall : x.call c = some (.unlock r))
      (hl : L (.sem (.rdsem r)) ≠ [])
      (D : Served (.rdsem r) (L (.sem (.rdsem r))) x.kernel L k₁ L')
      (hL : L' = Function.update L (.sem (.rdsem r)) [])
      (hk : k₂ = { k₁ with
        count := Function.update k₁.count (.rdsem r) 0 })
      (hx : x' = callOver { x with kernel := k₂ } c) (ho : o = some .ok)
  /-- The lock is taken again, or nobody waits for it. -/
  | passes (c : T) (r : R) (ha : a = .go c) (hcall : x.call c = some (.unlock r))
      (hl : Free x r → L (.sem (.wrsem r)) = [] ∧ L (.sem (.rdsem r)) = [])
      (hx : x' = callOver x c) (hL : L' = L) (ho : o = some .ok)
  | delays (a₀ : Action T (RwlSem R)) (k' : Kernel T (RwlSem R))
      (ha : a = .kernel a₀) (hout : outside x a₀ = true)
      (hd : delays x.kernel a₀ = true) (D : Delays x.kernel a₀ k')
      (hx : x' = { x with kernel := k' }) (hL : L' = L)
  | reorders (a₀ : Action T (RwlSem R)) (who : Option T)
      (k₁ : Kernel T (RwlSem R)) (ha : a = .kernel a₀)
      (hq : ∀ c, who = some c → mayCall x.kernel c = true ∧ x.call c = none)
      (D : Reorders x.kernel L k₁ L')
      (hx : x' = { x with
        kernel := who.elim k₁ (returned k₁) })

section Effects

variable {x x' : Rwl T R} {L : Head T (RwlSem R) → List T}
  {writes : T → R → Nat} {a : RwlAction T R} {o : Option (RwlRet T)} {c : T}
  {r : R}

/-- A section that goes on as a reader. -/
theorem rdlockLoop_effect {e : Option (RwlSem R)} {k₁ : Kernel T (RwlSem R)}
    {time : Option Int} {fuel : Nat} (C : Control x.kernel L)
    (N : NoToken x.kernel L (.rdsem r))
    (ha : takes x a = some (c, r, false)) (E : Enters x.kernel c e k₁)
    (he : e = none ∨ e = some (.rdsem r))
    (h : rdlockLoop c r time fuel { x with kernel := k₁ } = some (x', o)) :
    ∃ L', Effect x L a x' L' o := by
  obtain ⟨C₁, hcall⟩ := E.caller C
  obtain ⟨hown, -⟩ := E.fields
  have N₁ := E.noToken N
  rcases rdlockLoop_cases C₁ hcall N₁ h with
    ⟨hno, hfree, hx, ho⟩ | ⟨hmine, hx, ho⟩ | ⟨hwait, k', L', o₁, W, hx⟩
  · dsimp only at hno hfree
    rw [readerWaits_enters E] at hno
    rw [hown] at hfree
    exact ⟨L, .reads c r e k₁ ha E he hno hfree hx rfl ho⟩
  · dsimp only at hmine
    rw [hown] at hmine
    refine ⟨L, .quits c r false e k₁ ha E ?_ hx rfl ⟨_, ho, nofun⟩⟩
    exact he.imp id fun he => ⟨he, hmine⟩
  · exact ⟨L', .queues c r false e (.rdsem r) (.rdsem r time) k₁ k' o₁ ha E he
      (Or.inl ⟨rfl, hwait⟩) rfl W hx⟩

/-- A section that goes on as a writer. -/
theorem wrlockLoop_effect {e : Option (RwlSem R)} {k₁ : Kernel T (RwlSem R)}
    {time : Option Int} {fuel : Nat} (C : Control x.kernel L)
    (N : NoToken x.kernel L (.wrsem r))
    (ha : takes x a = some (c, r, true)) (E : Enters x.kernel c e k₁)
    (he : e = none ∨ e = some (.wrsem r))
    (hrob : RobsGranted x.kernel c (.wrmtx r))
    (h : wrlockLoop c r time fuel { x with kernel := k₁ } = some (x', o)) :
    ∃ L', Effect x L a x' L' o := by
  obtain ⟨C₁, hcall⟩ := E.caller C
  have N₁ := E.noToken N
  rcases wrlockLoop_cases C₁ hcall N₁ (E.robsGranted hrob) h with
    ⟨hr, k', L', o₁, W, hx⟩ | ⟨hr, k', L', o₁, W, hx⟩
  · exact ⟨L', .queues c r true e (.wrsem r) (.wrsem r time) k₁ k' o₁ ha E he
      (Or.inr ⟨rfl, hr⟩) rfl W hx⟩
  · refine ⟨L', ?_⟩
    have hop : entersWait (.semWait (.wrmtx r) : Op T (RwlSem R)) =
        some (.wrmtx r, false) := rfl
    rcases hx with ⟨rfl, rfl, rfl⟩ | ⟨v, rfl, hn, ho, rfl⟩
    · exact .contends c r e (.wrmtx r time) _ false k₁ k' none ha E he hr hrob
        hop W rfl rfl ⟨fun _ => rfl, fun _ => rfl⟩
        ⟨fun h => (nomatch h), fun h => (nomatch h)⟩
    · refine .contends c r e (.wrmtx r time) _ false k₁ k' (some v) ha E he hr
        hrob hop W rfl rfl ⟨fun h => absurd h hn, fun h => (nomatch h)⟩ ?_
      rw [ho]
      constructor
      · rintro ⟨n, rfl⟩
        rw [waitSucceeds_enter hop]
        simp
      · intro hs
        cases v with
        | val n => exact ⟨n, rfl⟩
        | _ => exact nomatch hs

omit decT decR finT finR in
/-- The first task of a queue. -/
theorem resqelTask_eq {k : Kernel T (RwlSem R)} (C : Control k L) (s : RwlSem R) :
    resqelTask k s = match L (.sem s) with
      | [] => .null
      | u :: _ => .task u := by
  unfold resqelTask
  rw [C.rings.next_head]
  cases L (.sem s) with
  | nil => rfl
  | cons u l => rfl

/-- **The second section of `rt_rwl_unlock`** -/
theorem rwlUnlockTail_effect (C : Control x.kernel L) (N : NoToken x.kernel L (.wrsem r))
    (hcall : x.call c = some (.unlock r))
    (h : rwlUnlockTail x c r = some (x', o)) :
    ∃ L', Effect x L (.go c) x' L' o := by
  have hwriter : L (.sem (.wrsem r)) ≠ [] →
      wakeWriter x c r = some (x', o) → ∃ L', Effect x L (.go c) x' L' o := by
    intro hl hw
    obtain ⟨⟨k₁, o₁⟩, hs, hw⟩ := Option.bind_eq_some_iff.mp hw
    cases hw
    obtain ⟨L', G⟩ := rtSemSignal_effect hs C fun ht => by
      rw [N.type] at ht
      exact absurd ht (lt_irrefl _)
    exact ⟨L', .offers c r k₁ o₁ rfl hcall hl G rfl rfl⟩
  have hreaders : L (.sem (.rdsem r)) ≠ [] →
      wakeReaders x c r = some (x', o) → ∃ L', Effect x L (.go c) x' L' o := by
    intro hl hw
    obtain ⟨⟨k₂, o₁⟩, hs, hw⟩ := Option.bind_eq_some_iff.mp hw
    cases hw
    obtain ⟨-, k₁, D, hk⟩ := rtSemBroadcast_effect hs C
    exact ⟨_, .announces c r k₁ k₂ rfl hcall hl D rfl hk rfl rfl⟩
  unfold rwlUnlockTail at h
  rw [resqelTask_eq C, resqelTask_eq C] at h
  by_cases hfree : x.kernel.owndby (.wrmtx r) = none ∧ x.readers r = 0
  · rw [if_pos hfree] at h
    cases hw : L (.sem (.wrsem r)) with
    | nil =>
      rw [hw] at h
      cases hr : L (.sem (.rdsem r)) with
      | nil =>
        rw [hr] at h
        cases h
        exact ⟨L, .passes c r rfl hcall (fun _ => ⟨hw, hr⟩) rfl rfl rfl⟩
      | cons u l =>
        rw [hr] at h
        exact hreaders (by rw [hr]; exact nofun) h
    | cons w m =>
      have hne : L (.sem (.wrsem r)) ≠ [] := by rw [hw]; exact nofun
      rw [hw] at h
      cases hr : L (.sem (.rdsem r)) with
      | nil =>
        rw [hr] at h
        exact hwriter hne h
      | cons u l =>
        rw [hr] at h
        dsimp only at h
        split at h
        · exact hwriter hne h
        · exact hreaders (by rw [hr]; exact nofun) h
  · rw [if_neg hfree] at h
    cases h
    exact ⟨L, .passes c r rfl hcall (fun hf => absurd hf hfree) rfl rfl rfl⟩

/-- A call that returns from a wait changes nothing but its place. -/
theorem over_ended {k' : Kernel T (RwlSem R)} {s : RwlSem R}
    {L' : Head T (RwlSem R) → List T} {o₁ : Option (Ret T)}
    (W : WaitEnds x.kernel L c s k' L' o₁) :
    callOver { x with kernel := k' } c = { x with
      kernel := k'
      call := Function.update x.call c none } := by
  have hidle : k'.pc c = .idle := by
    rw [WaitEnds.pc W]
    exact Function.update_self ..
  unfold callOver
  rw [returned_idle hidle]

/-- A wait for `rdsem` or `wrsem` is over: the section goes on, or the call
    has failed. -/
theorem queueEnds_cases {s : RwlSem R} {k' : Kernel T (RwlSem R)}
    {L' : Head T (RwlSem R) → List T} {o₁ : Option (Ret T)}
    (W : WaitEnds x.kernel L c s k' L' o₁) (N : NoToken x.kernel L s) :
    (x.kernel.blockedOn c = .null ∧ k' = returned x.kernel c ∧ ∃ n, o₁ = some (.val n)) ∨
    (x.kernel.blockedOn c ≠ .null ∧ (o₁ = some .timout ∨ o₁ = some .unblkd)) := by
  cases W with
  | granted hb hk _ ho =>
    rw [takeOwnership_none N.type] at hk
    exact Or.inl ⟨hb, hk, _, ho⟩
  | failed _ _ _ _ hb _ _ _ _ _ ho => exact Or.inr ⟨hb, ho⟩

/-- **A task goes on with its call.** -/
theorem goOn_effect (C : Control x.kernel L) (hwr : ∀ r, NoToken x.kernel L (.wrsem r))
    (hrd : ∀ r, NoToken x.kernel L (.rdsem r))
    (hsits : ∀ p, x.call c = some p → Sits x.kernel c p)
    (hex : executes x.kernel c = true) (hrob : RwlRobsGranted x (.go c))
    (h : goOn x c = some (x', o)) : ∃ L', Effect x L (.go c) x' L' o := by
  unfold goOn at h
  simp only [RwlRobsGranted] at hrob
  cases hp : x.call c with
  | none => rw [hp] at h; exact nomatch h
  | some p =>
    rw [hp] at h hrob
    have hat := hsits p hp
    cases p with
    | rdsem r time =>
      have hw : waitsOn (x.kernel.pc c) = some (.rdsem r) := hat
      have ha : takes x (.go c) = some (c, r, false) := by
        unfold takes
        dsimp only
        rw [hp]
      obtain ⟨⟨k', o₁⟩, hcont, h⟩ := Option.bind_eq_some_iff.mp h
      obtain ⟨L', W⟩ := contOp_waitEnds C hw hcont
      rcases queueEnds_cases W (hrd r) with ⟨hb, hk, n, ho⟩ | ⟨hb, ho⟩
      · dsimp only at hk ho
        subst hk ho
        have E : Enters x.kernel c (some (.rdsem r)) _ :=
          .woken (.rdsem r) hw hb hex (hrd r).type
        exact rdlockLoop_effect C (hrd r) ha E (Or.inr rfl) h
      · have hret : x' = callOver { x with kernel := k' } c ∧ o ≠ none ∧ o ≠ some .ok := by
          rcases ho with rfl | rfl <;> cases h <;>
            exact ⟨rfl, nofun, nofun⟩
        refine ⟨L', .ends c r false (.rdsem r) k' o₁ ha hw hex W
          (Or.inr ⟨Or.inl rfl, hb⟩) ?_ hret.2.1 ?_⟩
        · rw [hret.1, over_ended W]
        · exact ⟨fun h => absurd h hret.2.2, fun h => nomatch h.1⟩
    | wrsem r time =>
      have hw : waitsOn (x.kernel.pc c) = some (.wrsem r) := hat
      have ha : takes x (.go c) = some (c, r, true) := by
        unfold takes
        dsimp only
        rw [hp]
      obtain ⟨⟨k', o₁⟩, hcont, h⟩ := Option.bind_eq_some_iff.mp h
      obtain ⟨L', W⟩ := contOp_waitEnds C hw hcont
      rcases queueEnds_cases W (hwr r) with ⟨hb, hk, n, ho⟩ | ⟨hb, ho⟩
      · dsimp only at hk ho
        subst hk ho
        have E : Enters x.kernel c (some (.wrsem r)) _ :=
          .woken (.wrsem r) hw hb hex (hwr r).type
        exact wrlockLoop_effect C (hwr r) ha E (Or.inr rfl) hrob h
      · have hret : x' = callOver { x with kernel := k' } c ∧ o ≠ none ∧ o ≠ some .ok := by
          rcases ho with rfl | rfl <;> cases h <;>
            exact ⟨rfl, nofun, nofun⟩
        refine ⟨L', .ends c r true (.wrsem r) k' o₁ ha hw hex W
          (Or.inr ⟨Or.inr rfl, hb⟩) ?_ hret.2.1 ?_⟩
        · rw [hret.1, over_ended W]
        · exact ⟨fun h => absurd h hret.2.2, fun h => nomatch h.1⟩
    | wrmtx r time =>
      have hw : waitsOn (x.kernel.pc c) = some (.wrmtx r) := hat
      have ha : takes x (.go c) = some (c, r, true) := by
        unfold takes
        dsimp only
        rw [hp]
      obtain ⟨⟨k', o₁⟩, hcont, h⟩ := Option.bind_eq_some_iff.mp h
      obtain ⟨L', W⟩ := contOp_waitEnds C hw hcont
      have hsome : o₁ ≠ none := by
        cases W with
        | granted _ _ _ ho => dsimp only at ho; rw [ho]; exact nofun
        | failed _ _ _ _ _ _ _ _ _ _ ho =>
          rcases ho with ho | ho <;> dsimp only at ho <;> rw [ho] <;>
            exact nofun
      rcases wrmtxResult_cases h with ⟨h1, -⟩ | ⟨v, h1, h2, h3, h4⟩
      · exact absurd h1 hsome
      · dsimp only at h1 h4
        subst h1
        refine ⟨L', .ends c r true (.wrmtx r) k' (some v) ha hw hex W
          (Or.inl ⟨rfl, rfl⟩) ?_ h2 ?_⟩
        · rw [h4, over_ended W]
        · rw [h3]
          exact ⟨fun ⟨n, hn⟩ => ⟨rfl, n, congrArg some hn⟩,
            fun ⟨_, n, hn⟩ => ⟨n, Option.some.inj hn⟩⟩
    | unlock r => exact rwlUnlockTail_effect C (hwr r) hp h

/-- `rt_sem_wait_if` never blocks. -/
theorem rtSemWaitIf_returns {k : Kernel T (RwlSem R)} {s : RwlSem R}
    {w : Outcome T (RwlSem R)} (h : rtSemWaitIf k c s = some w) :
    ∃ v, w.2 = some v := by
  unfold rtSemWaitIf at h
  split at h
  · cases h
    exact ⟨_, rfl⟩
  · split at h
    · cases hv : (if k.type s > 0 then ubiMaiorVictim k c s else none) with
      | some u =>
        have h' : ubiMaiorRob k c s u = some w := by
          rw [hv] at h
          exact h
        unfold ubiMaiorRob at h'
        split at h' <;> try split at h'
        all_goals
          obtain ⟨k₁, -, h'⟩ := Option.bind_eq_some_iff.mp h'
          obtain ⟨k₂, -, h'⟩ := Option.bind_eq_some_iff.mp h'
          cases h'
          exact ⟨_, rfl⟩
      | none =>
        rw [hv] at h
        dsimp only at h
        split at h
        · unfold nestedWait at h
          split at h <;> cases h <;> exact ⟨_, rfl⟩
        · cases h
          exact ⟨_, rfl⟩
    · cases h
      exact ⟨_, rfl⟩

/-- `rt_rwl_rdlock_if` -/
theorem rtRwlRdlockIf_effect (hc : mayCall x.kernel c = true)
    (h : rtRwlRdlockIf x c r = some (x', o)) :
    ∃ L', Effect x L (.call c (.rdlockIf r)) x' L' o := by
  have E : Enters x.kernel c none x.kernel := .call hc
  obtain ⟨b, hb, h⟩ := Option.bind_eq_some_iff.mp h
  cases b with
  | false =>
    cases h
    refine ⟨L, .reads c r none x.kernel rfl E (Or.inl rfl) hb ?_ rfl rfl rfl⟩
    by_contra hne
    unfold readerWaits at hb
    rw [if_pos hne] at hb
    exact nomatch hb
  | true =>
    cases h
    exact ⟨L, .quits c r false none x.kernel rfl E (Or.inl rfl) rfl rfl ⟨_, rfl, nofun⟩⟩

/-- `rt_rwl_wrlock_if` -/
theorem rtRwlWrlockIf_effect (C : Control x.kernel L) (hc : mayCall x.kernel c = true)
    (hrob : RobsGranted x.kernel c (.wrmtx r))
    (h : rtRwlWrlockIf x c r = some (x', o)) :
    ∃ L', Effect x L (.call c (.wrlockIf r)) x' L' o := by
  have E : Enters x.kernel c none x.kernel := .call hc
  unfold rtRwlWrlockIf at h
  by_cases hr : x.readers r = 0
  · rw [if_pos hr] at h
    obtain ⟨⟨k', o₁⟩, hw, h⟩ := Option.bind_eq_some_iff.mp h
    obtain ⟨w, hw, hf⟩ := Option.map_eq_some_iff.mp hw
    have hun := RobsGranted.unlinked hrob C
    obtain ⟨L', W⟩ := rtSemWaitIf_effect hw hf C hun
    obtain ⟨v, hv⟩ := rtSemWaitIf_returns hw
    have ho₁ : o₁ = some v := by
      obtain ⟨k, o⟩ := w
      dsimp only at hv
      subst hv
      cases hf
      rfl
    subst ho₁
    have hop : entersWait (.semWaitIf (.wrmtx r) : Op T (RwlSem R)) =
        some (.wrmtx r, true) := rfl
    have hidle := returned_idle (Waits.idle W)
    have hret : x' = callOver { x with kernel := k' } c ∧ o ≠ none ∧
        (o = some .ok ↔ ∃ n, v = .val n ∧ 0 < n) := by
      cases v with
      | val n =>
        dsimp only at h
        by_cases hn : n > 0
        · rw [if_pos hn] at h
          cases h
          exact ⟨rfl, nofun, fun _ => ⟨n, rfl, hn⟩, fun _ => rfl⟩
        · rw [if_neg hn] at h
          cases h
          refine ⟨rfl, nofun, nofun, ?_⟩
          rintro ⟨m, hm, hpos⟩
          cases hm
          exact absurd hpos hn
      | _ =>
        cases h
        exact ⟨rfl, nofun, fun h => (nomatch h), fun h => nomatch h.choose_spec.1⟩
    obtain ⟨hx, hne, hok⟩ := hret
    refine ⟨L', .contends c r none (.wrmtx r none) _ true x.kernel k' (some v)
      rfl E (Or.inl rfl) hr hrob hop W rfl ?_ ⟨fun h => absurd h hne, nofun⟩
      ?_⟩
    · rw [hx]
      unfold callOver
      dsimp only
      rw [hidle]
      rfl
    · rw [hok]
      constructor
      · rintro ⟨n, rfl, hn⟩
        rw [waitSucceeds_enter hop]
        simpa using hn
      · intro hs
        cases v with
        | val n =>
          rw [waitSucceeds_enter hop] at hs
          exact ⟨n, rfl, by simpa using hs⟩
        | _ => exact nomatch hs
  · rw [if_neg hr] at h
    cases h
    exact ⟨L, .quits c r true none x.kernel rfl E (Or.inl rfl) rfl rfl ⟨_, rfl, nofun⟩⟩

/-- The first section of `rt_rwl_unlock`. -/
theorem rtRwlUnlock_effect (C : Control x.kernel L) (hd : Deep x.kernel)
    (hc : mayCall x.kernel c = true)
    (h : rtRwlUnlock x c r = some (x', o)) :
    ∃ L', Effect x L (.call c (.unlock r)) x' L' o := by
  unfold rtRwlUnlock at h
  by_cases hown : x.kernel.owndby (.wrmtx r) = some c
  · rw [if_pos hown] at h
    obtain ⟨⟨k₁, o₁⟩, hs, h⟩ := Option.bind_eq_some_iff.mp h
    cases h
    obtain ⟨L', G⟩ := rtSemSignal_effect hs C fun _ c' _ => hd c'
    refine ⟨L', .unlocksWrite c r k₁ o₁ rfl hc hown G ?_ rfl rfl⟩
    cases G with
    | refuse _ _ hno _ _ _ =>
      rcases hno with hno | hno
      · rw [hown] at hno
        exact nomatch hno
      · exact absurd hown hno
    | unnest _ _ _ _ ho => exact ⟨0, ho⟩
    | give _ _ _ _ ho => exact ⟨0, ho⟩
    | grant _ _ _ _ _ _ _ _ ho => exact ⟨0, ho⟩
    | release _ _ _ _ _ _ _ _ _ _ _ ho => exact ⟨0, ho⟩
    | handOver _ _ _ _ _ _ _ _ _ _ _ _ _ _ _ _ _ ho => exact ⟨0, ho⟩
  · rw [if_neg hown] at h
    by_cases hr : x.readers r ≠ 0
    · rw [if_pos hr] at h
      cases h
      exact ⟨L, .unlocksRead c r rfl hc hown hr rfl rfl rfl⟩
    · rw [if_neg hr] at h
      cases h
      exact ⟨L, .refuses c r rfl hc hown rfl rfl rfl⟩

/-- **The other services and the scheduler** -/
theorem kernel_effect {a₀ : Action T (RwlSem R)} {k' : Kernel T (RwlSem R)}
    {o₁ : Option (Ret T)} (C : Control x.kernel L)
    (hruns : RwlRuns x (.kernel a₀)) (hout : outside x a₀ = true)
    (h : exec x.kernel a₀ = some (k', o₁)) :
    ∃ L', Effect x L (.kernel a₀) { x with kernel := k' } L' o := by
  have hdelay : delays x.kernel a₀ = true →
      ∃ L', Effect x L (.kernel a₀) { x with kernel := k' } L' o := fun hd =>
    ⟨L, .delays a₀ k' rfl hout hd (exec_delays hd h) rfl rfl⟩
  cases a₀ with
  | call c op =>
    have hop : RwlServes x.kernel op := hruns
    cases op with
    | changePrio t p =>
      obtain ⟨hc, ⟨k₁, o₂⟩, hr, hf⟩ := exec_call h
      obtain ⟨L', v, hv, D⟩ := rtChangePrio_reorders hr C
      dsimp only at hv
      subst hv
      cases hf
      refine ⟨L', .reorders _ (some c) k₁ rfl ?_ D rfl⟩
      intro u hu
      cases hu
      exact ⟨hc, of_decide_eq_true hout⟩
    | unblock _ _ => exact hdelay rfl
    | resume _ => exact hdelay rfl
    | _ => exact hop.elim
  | linux op =>
    have hop : RwlServes x.kernel op := hruns
    cases op with
    | changePrio t p =>
      obtain ⟨L', v, hv, D⟩ := rtChangePrio_reorders h C
      exact ⟨L', .reorders _ none k' rfl nofun D rfl⟩
    | unblock _ _ => exact hdelay rfl
    | resume _ => exact hdelay rfl
    | _ => exact hop.elim
  | cont c => exact nomatch hout
  | _ => exact hdelay rfl

end Effects

/-- **EVERY SECTION HAS ONE OF THESE EFFECTS.** -/
theorem rwlStep_effect {y : Locking T R} {L : Head T (RwlSem R) → List T}
    (I : Core y L) {x' : Rwl T R} {a : RwlAction T R} {o : Option (RwlRet T)}
    (hruns : RwlRuns y.rwl a) (hrob : RwlRobsGranted y.rwl a)
    (h : rwlStep y.rwl a = some (x', o)) :
    ∃ L', Effect y.rwl L a x' L' o := by
  unfold rwlStep at h
  cases a with
  | call c op =>
    dsimp only at h
    split at h
    · next hcond =>
        rw [Bool.and_eq_true, decide_eq_true_eq] at hcond
        have hc := hcond.1
        have E : Enters y.rwl.kernel c none y.rwl.kernel := .call hc
        cases op with
        | rdlock r =>
          exact rdlockLoop_effect I.sems.control (I.sems.rdsem r) rfl E (Or.inl rfl) h
        | rdlockUntil r time =>
          exact rdlockLoop_effect I.sems.control (I.sems.rdsem r) rfl E (Or.inl rfl) h
        | rdlockIf r => exact rtRwlRdlockIf_effect hc h
        | wrlock r =>
          exact wrlockLoop_effect I.sems.control (I.sems.wrsem r) rfl E (Or.inl rfl) hrob h
        | wrlockUntil r time =>
          exact wrlockLoop_effect I.sems.control (I.sems.wrsem r) rfl E (Or.inl rfl) hrob h
        | wrlockIf r => exact rtRwlWrlockIf_effect I.sems.control hc hrob h
        | unlock r => exact rtRwlUnlock_effect I.sems.control I.sems.deep hc h
    · exact nomatch h
  | go c =>
    dsimp only at h
    split at h
    · next hex =>
        exact goOn_effect I.sems.control I.sems.wrsem I.sems.rdsem (fun p hp => I.sits c p hp)
          hex hrob h
    · exact nomatch h
  | kernel a₀ =>
    dsimp only at h
    split at h
    · next hout =>
        obtain ⟨⟨k', o₁⟩, he, h⟩ := Option.bind_eq_some_iff.mp h
        cases h
        exact kernel_effect I.sems.control hruns hout he
    · exact nomatch h

/-! ## The semaphores between the sections -/

section Sems

variable {k k' : Kernel T (RwlSem R)} {L L' : Head T (RwlSem R) → List T}
  {w w' : T → R → Nat} {c : T} {s : RwlSem R} {o : Option (Ret T)}

/-- Every semaphore keeps to its kind. -/
theorem Sems.of_steps (I : Sems k L w) {a : Action T (RwlSem R)}
    (C : Control k' L') (hd : Deep k')
    (hown : ∀ r, OwnerStep k L a o k' L' (.wrmtx r))
    (hD : ∀ r, Deepens (writing k w) (writing k' w') a o (.wrmtx r))
    (hq : ∀ s', NoToken k L s' → QueueStep k L k' L' s' ∧
      k'.type s' = k.type s' ∧ k'.owndby s' = k.owndby s') :
    Sems k' L' w' where
  control := C
  deep := hd
  wrmtx := by
    intro r
    obtain ⟨ht, O⟩ := I.wrmtx r
    refine ⟨(hown r).type_pos ht, OwnerStep.kept ?_ (hD r) O⟩
    exact hown r
  wrsem := by
    intro r
    obtain ⟨h1, h2, h3⟩ := hq _ (I.wrsem r)
    exact h1.noToken h2 h3 (I.wrsem r)
  rdsem := by
    intro r
    obtain ⟨h1, h2, h3⟩ := hq _ (I.rdsem r)
    exact h1.noToken h2 h3 (I.rdsem r)

theorem Sems.waits {tries : Bool} {op : Op T (RwlSem R)} (I : Sems k L w)
    (hcall : Caller k c) (hrob : RobsGranted k c s)
    (hfits : k.owndby s = some c → k.type s < 2 ^ 31 - 1)
    (hop : entersWait op = some (s, tries))
    (W : Waits tries k L c s k' L' o)
    (hD : ∀ r, Deepens (writing k w) (writing k' w') (.call c op) o
      (.wrmtx r)) : Sems k' L' w' := by
  refine I.of_steps (Waits.control W I.control hcall hrob) (Waits.deep W I.deep)
    (fun r => Waits.ownerStep W hop hcall hrob hfits (I.wrmtx r).1) hD fun s' N => ?_
  exact ⟨Waits.queueStep W hcall hrob N, Waits.owner_same W (Or.inr ⟨N.type, N.owndby⟩)⟩

theorem Sems.ends (I : Sems k L w) (hpc : waitsOn (k.pc c) = some s)
    (hex : executes k c = true) (W : WaitEnds k L c s k' L' o)
    (hD : ∀ r, Deepens (writing k w) (writing k' w') (.cont c) o
      (.wrmtx r)) : Sems k' L' w' := by
  refine I.of_steps (WaitEnds.control W I.control hpc hex) (WaitEnds.deep W I.deep)
    (fun r => WaitEnds.ownerStep W hpc (I.wrmtx r).1) hD fun s' N => ?_
  exact ⟨WaitEnds.queueStep W hpc N, WaitEnds.owner_same W (Or.inr N.type)⟩

/-- The beginning of a section holds nothing more. -/
theorem Sems.enters {e : Option (RwlSem R)} (I : Sems k L w)
    (E : Enters k c e k') : Sems k' L w := by
  cases E with
  | call _ => exact I
  | woken s hw hb hex ht =>
    refine I.ends hw hex (woken_ends hb ht) fun r t => ?_
    have hno : waitSucceeds (writing k w).kernel (.cont c)
        (some (.val (k.count s))) (.wrmtx r) = false := by
      refine decide_eq_false ?_
      intro h
      have hs : s = .wrmtx r := Option.some.inj (hw.symm.trans h)
      have hpos := (I.wrmtx r).1
      rw [← hs, ht] at hpos
      exact lt_irrefl _ hpos
    rw [hno]
    split <;> rfl

/-- **A signal that a task sends to a lock it owns, or to a writer that
    waits.** -/
theorem Sems.signals {k₁ : Kernel T (RwlSem R)} (I : Sems k L w)
    (hq : Quiet (k.pc c)) (G : Signals k L (some c) s k₁ L' o)
    (hs : (∃ r, s = .wrmtx r ∧ k.owndby s = some c) ∨ (∃ r, s = .wrsem r) ∧ L (.sem s) ≠ [])
    (hD : ∀ r, Deepens (writing k w) (writing (returned k₁ c) w')
      (.call c (.semSignal s)) o (.wrmtx r)) : Sems (returned k₁ c) L' w' := by
  have C := Signals.control G I.control
  have hd := Signals.deep G I.deep
  have hq₁ : Quiet (k₁.pc c) := by
    rw [Signals.pc G]
    exact hq
  refine I.of_steps (Control.quiet_returned C hq₁) hd (fun r => ?_) hD fun s' N => ?_
  · -- only its owner signals `wrmtx`
    refine Signals.ownerStep G rfl I.control hq (I.wrmtx r).1 fun h => ?_
    rcases hs with ⟨r', rfl, hown⟩ | ⟨⟨r', rfl⟩, -⟩
    · rw [h] at hown
      exact Or.inr hown
    · exact nomatch h
  · have hne : s ≠ s' ∨ L (.sem s') ≠ [] := by
      rcases hs with ⟨r', rfl, hown⟩ | ⟨-, hl⟩
      · refine Or.inl ?_
        rintro rfl
        rw [N.owndby] at hown
        exact nomatch hown
      · by_cases h : s = s'
        · exact Or.inr (h ▸ hl)
        · exact Or.inl h
    obtain ⟨h1, h2⟩ := Signals.owner_same G (Or.inr N.type)
    exact ⟨QueueStep.returned (Signals.queueStep G I.control N hne).1 hq₁.1, h1, h2⟩

/-- A section that changes no holder. -/
theorem Sems.same (I : Sems k L w) (C : Control k' L') (hd : Deep k')
    (hown : ∀ r, OwnerStep k L (.wake 0) none k' L' (.wrmtx r))
    (hq : ∀ s', NoToken k L s' → QueueStep k L k' L' s' ∧
      k'.type s' = k.type s' ∧ k'.owndby s' = k.owndby s') :
    Sems k' L' w :=
  I.of_steps C hd hown (fun _ _ => rfl) hq

/-- **The readers are woken up.** -/
theorem Sems.served {r : R} {k₁ : Kernel T (RwlSem R)} (I : Sems k L w)
    (D : Served (.rdsem r) (L (.sem (.rdsem r))) k L k₁ L')
    (hL : L' = Function.update L (.sem (.rdsem r)) [])
    (hk : k' = { k₁ with
      count := Function.update k₁.count (.rdsem r) 0 }) : Sems k' L' w := by
  subst hL
  obtain ⟨-, h2, h3, -, h5, -, -, -⟩ := Served.fields D
  have C := Served.control D I.control
  have hsame : ∀ s', k'.type s' = k.type s' ∧ k'.owndby s' = k.owndby s' := by
    intro s'
    rw [hk]
    exact ⟨congrFun h3 s', congrFun h2 s'⟩
  have hqueue : ∀ s', QueueStep k L k' (Function.update L (.sem (.rdsem r)) []) s' :=
    fun s' => Served.queueStep D hk I.control
  refine I.same ?_ ?_ (fun r' => ?_) fun s' N => ⟨hqueue s', hsame s'⟩
  · rw [hk]
    exact C.data k₁.priority k₁.basePriority _ k₁.type k₁.owndby k₁.resq
  · have hd := Served.deep D I.deep
    rw [hk]
    exact hd
  · have hne : RwlSem.rdsem r ≠ RwlSem.wrmtx r' := nofun
    have hg := Served.granted_other D hk I.control hne
    refine .same (hsame _).2 ?_ (hsame _).1 ?_ hg rfl rfl
    · rw [hk]
      dsimp only
      rw [Function.update_of_ne hne.symm]
      exact congrFun h5 _
    · rw [Function.update_of_ne (sem_ne hne)]

/-- **The other services and the scheduler** -/
theorem Sems.delays {a : Action T (RwlSem R)} (I : Sems k L w)
    (D : Delays k a k') (hkeep : ActionKeepsGrants k a)
    (hres : StaysDeep k a) : Sems k' L w := by
  obtain ⟨-, h2, -, h4⟩ := Delays.sems D
  refine I.same (Delays.control D I.control hkeep) (Delays.deep D hres I.deep)
    (fun r => ?_) fun s' N =>
      ⟨Delays.queueStep D hkeep, congrFun h2 s', congrFun h4 s'⟩
  obtain ⟨h1, h2, -, h4⟩ := Delays.sems D
  exact .same (congrFun h4 _) (congrFun h1 _) (congrFun h2 _) rfl
    (Delays.granted D hkeep) rfl rfl

/-- **A new priority** -/
theorem Sems.reorders (I : Sems k L w) (D : Reorders k L k' L') :
    Sems k' L' w := by
  obtain ⟨-, -, h3, h4, -, h6, h7⟩ := Reorders.fields D
  refine I.same (Reorders.control D I.control) (Reorders.deep D I.deep)
    (fun r => ?_) fun s' N =>
      ⟨Reorders.queueStep D, congrFun h4 s', congrFun h6 s'⟩
  exact .same (congrFun h6 _) (congrFun h3 _) (congrFun h4 _) (h7 _)
    (Reorders.granted D) rfl rfl

/-- **A call returns** that has not slept. -/
theorem Sems.returned (I : Sems k L w) (hq : Quiet (k.pc c)) :
    Sems (RtaiSemEffects.returned k c) L w := by
  refine I.same (Control.quiet_returned I.control hq) I.deep (fun r => ?_)
    fun s' N => ⟨QueueStep.returned (.same rfl rfl fun _ => Iff.rfl) hq.1,
      rfl, rfl⟩
  exact .same rfl rfl rfl rfl (granted_returned hq.1) rfl rfl

end Sems

/-! ## Every section keeps them -/

section Core

variable {y y' : Locking T R} {L L' : Head T (RwlSem R) → List T}
  {a : RwlAction T R} {o : Option (RwlRet T)} {c : T}

omit decR finT finR in
/-- An action that may take a lock gives none up. -/
theorem gives_of_takes {x : Rwl T R} {p : T × R × Bool}
    (h : takes x a = some p) : gives x a = none := by
  cases a with
  | call c op => cases op <;> first | rfl | exact nomatch h
  | go c => rfl
  | kernel a => rfl

omit finT finR in
/-- An action that takes no lock and gives none up holds what was held. -/
theorem held_same {x : Rwl T R} {w : Bool} {holds : T → R → Nat}
    (ht : takes x a = none ∨ o ≠ some .ok)
    (hg : gives x a = none ∨ o = some .perm) :
    held x a o w holds = holds := by
  funext t r
  unfold held
  rw [if_neg, if_neg]
  · omega
  · rintro ⟨h1, h2⟩
    rcases hg with hg | hg
    · rw [hg] at h1
      exact nomatch h1
    · exact h2 hg
  · rintro ⟨h1, h2⟩
    rcases ht with ht | ht
    · rw [ht] at h1
      exact nomatch h1
    · exact ht h2

omit decT decR finT finR in
/-- The places of the other tasks are not changed. -/
theorem Sits.other {k k' : Kernel T (RwlSem R)} {p : RwlPc R}
    (h : Sits k c p) (hpc : k'.pc c = k.pc c) : Sits k' c p := by
  unfold Sits
  rw [hpc]
  exact h

/-- Only one task moves in its call. -/
theorem sits_update {k k' : Kernel T (RwlSem R)} {call : T → Option (RwlPc R)}
    {q : Option (RwlPc R)} (h : ∀ t p, call t = some p → Sits k t p)
    (hpc : ∀ t, t ≠ c → k'.pc t = k.pc t) (hq : ∀ p, q = some p → Sits k' c p) :
    ∀ t p, Function.update call c q t = some p → Sits k' t p := by
  intro t p hp
  by_cases ht : t = c
  · subst ht
    rw [Function.update_self] at hp
    exact hq p hp
  · rw [Function.update_of_ne ht] at hp
    exact (h t p hp).other (hpc t ht)

/-- What an action that may take a lock does to the holds. -/
theorem held_takes {x : Rwl T R} {r r' : R} {w w₀ : Bool}
    {holds : T → R → Nat} {t : T} (h : takes x a = some (c, r, w₀)) :
    held x a o w holds t r' = holds t r' +
      if c = t ∧ r = r' ∧ w₀ = w ∧ o = some .ok then 1 else 0 := by
  unfold held
  rw [gives_of_takes h, h]
  simp [and_assoc]

omit finT finR in
/-- What an unlock does to the holds. -/
theorem held_gives {x : Rwl T R} {r r' : R} {w : Bool}
    {holds : T → R → Nat} {t : T} (ho : o ≠ some .perm) :
    held x (.call c (.unlock r)) o w holds t r' = holds t r' -
      if c = t ∧ r = r' ∧
        decide (x.kernel.owndby (.wrmtx r) = some c) = w then 1 else 0 := by
  unfold held takes gives
  simp [ho]

omit decT finT finR in
/-- Another semaphore is not waited for with success. -/
theorem waitSucceeds_other {k : Kernel T (RwlSem R)} {op : Op T (RwlSem R)}
    {s s' : RwlSem R} {tries : Bool} {o₁ : Option (Ret T)}
    (hop : entersWait op = some (s, tries)) (hne : s ≠ s') :
    waitSucceeds k (.call c op) o₁ s' = false := by
  unfold waitSucceeds successValue
  dsimp only
  rw [hop]
  split
  · simp [hne]
  · rfl

omit decT finT finR in
theorem signalExecutes_other {s s' : RwlSem R} {o₁ : Option (Ret T)} (hne : s ≠ s') :
    signalExecutes (.call c (.semSignal s)) o₁ s' = false := by
  unfold signalExecutes
  split
  · exact decide_eq_false fun h => hne (Option.some.inj h)
  · rfl

/-- A wait for another semaphore changes no holder of `wrmtx`. -/
theorem deepens_queue {k k' : Kernel T (RwlSem R)} {writes : T → R → Nat}
    {op : Op T (RwlSem R)} {s : RwlSem R} {tries : Bool} {o₁ : Option (Ret T)}
    (hop : entersWait op = some (s, tries)) (hs : ∀ r, s ≠ .wrmtx r) (r : R) :
    Deepens (writing k writes) (writing k' writes) (.call c op) o₁ (.wrmtx r) := by
  intro t
  rw [waitSucceeds_other hop (hs r), signalExecutes_enter hop]
  split <;> rfl

omit decT decR finT finR in
/-- A task that sleeps in a wait sits where the wait is. -/
theorem sits_of_sem {k : Kernel T (RwlSem R)} {p : RwlPc R} {s : RwlSem R}
    (hp : semOf p = some s) (hw : waitsOn (k.pc c) = some s) : Sits k c p := by
  unfold Sits
  rw [hp]
  exact hw

omit decR finT finR in
/-- A task between the sections of its unlock is in no wait. -/
theorem sits_idle {k : Kernel T (RwlSem R)} {r : R} : Sits (returned k c) c (.unlock r) := by
  show Quiet (Function.update k.pc c .idle c)
  rw [Function.update_self]
  exact ⟨rfl, rfl, rfl⟩

omit decT decR finT finR in
/-- The second section of an unlock takes no lock. -/
theorem takes_unlock {x : Rwl T R} {r : R} (h : x.call c = some (.unlock r)) :
    takes x (.go c) = none := by
  unfold takes
  dsimp only
  rw [h]

omit decT finT finR in
/-- The end of a wait succeeds on the semaphore that it waits for. -/
theorem waitSucceeds_cont {k : Kernel T (RwlSem R)} {s : RwlSem R} {o₁ : Option (Ret T)} :
    waitSucceeds k (.cont c) o₁ s = true ↔
      (∃ n, o₁ = some (.val n)) ∧ waitsOn (k.pc c) = some s := by
  cases o₁ with
  | none => exact ⟨nofun, fun h => nomatch h.1.choose_spec⟩
  | some v =>
    cases v with
    | val n =>
      show decide (waitsOn (k.pc c) = some s) = true ↔ _
      rw [decide_eq_true_eq]
      exact ⟨fun h => ⟨⟨n, rfl⟩, h⟩, fun h => h.2⟩
    | _ => exact ⟨nofun, fun h => nomatch h.1.choose_spec⟩

omit decT decR finT finR in
theorem RwlServes.deep {k : Kernel T (RwlSem R)} {op : Op T (RwlSem R)}
    (h : RwlServes k op) : DeepOp k op := by
  cases op with
  | resume t => exact ⟨fun _ ht => by cases ht; exact h.1, nofun⟩
  | _ => first | exact h.elim | exact ⟨nofun, nofun⟩

/-- Only a task that has not been started is resumed, and none is suspended. -/
theorem runs_deep {x : Rwl T R} {a₀ : Action T (RwlSem R)}
    (h : RwlRuns x (.kernel a₀)) : StaysDeep x.kernel a₀ := by
  cases a₀ with
  | call c op => exact RwlServes.deep h
  | linux op => exact RwlServes.deep h
  | _ => trivial

/-- **EVERY SECTION KEEPS THE THREE SEMAPHORES**, as long as waits rob and
    unblocks keep what they may. -/
theorem Effect.core (D : Effect y.rwl L a y'.rwl L' o)
    (hw : y'.writes = held y.rwl a o true y.writes) (I : Core y L)
    (hruns : RwlRuns y.rwl a) (hcnt : RwlCountsInRange y.rwl a)
    (hkeep : RwlKeepsGrants y.rwl a) : Core y' L' := by
  obtain ⟨x', reads', writes'⟩ := y'
  dsimp only at D hw
  subst hw
  -- a task that enters a wait stands in no other one
  have hmoved : ∀ {e : Option (RwlSem R)} {k₁ : Kernel T (RwlSem R)} {c : T},
      Enters y.rwl.kernel c e k₁ → Quiet (k₁.pc c) := by
    intro e k₁ c E
    cases E with
    | call hc => exact quiet_of_mayCall hc
    | woken _ _ _ _ _ =>
      show Quiet (Function.update y.rwl.kernel.pc c .idle c)
      rw [Function.update_self]
      exact ⟨rfl, rfl, rfl⟩
  cases D with
  -- the lock is read: `wrmtx` is not touched
  | reads c r e k₁ ha E he _ hfree hx hL ho =>
    have hpc := E.fields.2.2.2.2.2.2.2.2.2
    subst hx hL
    have hsame : held y.rwl a o true y.writes = y.writes := by
      funext t r'
      rw [held_takes ha]
      simp
    rw [hsame]
    refine ⟨(I.sems.enters E).returned (hmoved E), ?_⟩
    refine sits_update I.sits (fun t ht => ?_) nofun
    exact (Function.update_of_ne ht ..).trans (hpc t ht)
  | quits c r w e k₁ ha E he hx hL ho =>
    have hpc := E.fields.2.2.2.2.2.2.2.2.2
    obtain ⟨v, hv, hne⟩ := ho
    subst hx hL
    have hok : o ≠ some .ok := by
      rw [hv]
      exact fun h => hne (Option.some.inj h)
    rw [held_same (Or.inr hok) (Or.inl (gives_of_takes ha))]
    refine ⟨(I.sems.enters E).returned (hmoved E), ?_⟩
    refine sits_update I.sits (fun t ht => ?_) nofun
    exact (Function.update_of_ne ht ..).trans (hpc t ht)
  -- `rdsem` and `wrsem` have no owner
  | queues c r w e s p k₁ k' o₁ ha E he hs hp W hx =>
    have hpc := E.fields.2.2.2.2.2.2.2.2.2
    obtain ⟨C₁, hcall⟩ := E.caller I.sems.control
    have I₁ := I.sems.enters E
    have hok : o ≠ some .ok := by
      rcases hx with ⟨-, ho, -⟩ | ⟨v, -, ho, -⟩ <;> rw [ho] <;> exact nofun
    rw [held_same (Or.inr hok) (Or.inl (gives_of_takes ha))]
    have hop : entersWait (.semWait s : Op T (RwlSem R)) = some (s, false) :=
      rfl
    have hne : ∀ r', s ≠ .wrmtx r' := by
      rcases hs with ⟨rfl, -⟩ | ⟨rfl, -⟩ <;> exact fun _ => nofun
    have N : NoToken k₁ L s := by
      rcases hs with ⟨rfl, -⟩ | ⟨rfl, -⟩
      · exact I₁.rdsem r
      · exact I₁.wrsem r
    have I₂ : Sems k' L' y.writes :=
      I₁.waits hcall (NoToken.robsGranted N c)
        (fun h => nomatch N.owndby.symm.trans h) hop W (deepens_queue hop hne)
    have hoth : ∀ t, t ≠ c → k'.pc t = y.rwl.kernel.pc t :=
      fun t ht => (Waits.others W t ht).trans (hpc t ht)
    rcases hx with ⟨hn, -, rfl⟩ | ⟨v, -, -, rfl⟩
    · subst hn
      refine ⟨I₂, sits_update I.sits hoth ?_⟩
      intro p' hp'
      cases hp'
      exact sits_of_sem hp (Waits.sleeps W)
    · exact ⟨I₂, sits_update I.sits hoth nofun⟩
  | contends c r e p op tries k₁ k' o₁ ha E he hr hrob hop W hp hx hn ho =>
    have hpc := E.fields.2.2.2.2.2.2.2.2.2
    obtain ⟨C₁, hcall⟩ := E.caller I.sems.control
    have I₁ := I.sems.enters E
    subst hx
    have I₂ : Sems k' L' (held y.rwl a o true y.writes) := by
      obtain ⟨hown, htype, -⟩ := E.fields
      have hfits : k₁.owndby (.wrmtx r) = some c → k₁.type (.wrmtx r) < 2 ^ 31 - 1 := by
        rw [hown, htype]
        exact hcnt.nests ha
      refine I₁.waits hcall (E.robsGranted hrob) hfits hop W fun r' t => ?_
      show held y.rwl a o true y.writes t r' = _
      rw [held_takes ha, signalExecutes_enter hop]
      by_cases hr' : r = r'
      · subst hr'
        by_cases ht : c = t
        · subst ht
          simp [ho, actor, writing]
          rfl
        · simp [ht, actor, writing]
      · have hne : RwlSem.wrmtx r ≠ RwlSem.wrmtx r' :=
          fun h => hr' (RwlSem.wrmtx.inj h)
        rw [waitSucceeds_other hop hne]
        simp [hr', writing]
    have hoth : ∀ t, t ≠ c → k'.pc t = y.rwl.kernel.pc t :=
      fun t ht => (Waits.others W t ht).trans (hpc t ht)
    refine ⟨I₂, sits_update I.sits hoth ?_⟩
    intro p' hp'
    split at hp'
    · next hnone =>
        cases hp'
        subst hnone
        exact sits_of_sem hp (Waits.sleeps W)
    · exact nomatch hp'
  | ends c r w s k' o₁ ha hwait hex W hs hx hn ho =>
    subst hx
    have I₂ : Sems k' L' (held y.rwl a o true y.writes) := by
      refine I.sems.ends hwait hex W fun r' t => ?_
      have hr : signalExecutes (.cont c : Action T (RwlSem R)) o₁ (.wrmtx r') = false := by
        unfold signalExecutes
        split <;> rfl
      show held y.rwl a o true y.writes t r' = _
      rw [held_takes ha, hr]
      have hiff : waitSucceeds (writing y.rwl.kernel y.writes).kernel
          (.cont c) o₁ (.wrmtx r') = true ↔ r = r' ∧ w = true ∧ o = some .ok := by
        rw [waitSucceeds_cont, ho]
        show _ ∧ waitsOn (y.rwl.kernel.pc c) = some (.wrmtx r') ↔ _
        rw [hwait]
        rcases hs with ⟨rfl, rfl⟩ | ⟨rfl | rfl, -⟩
        · constructor
          · rintro ⟨hv, h⟩
            exact ⟨RwlSem.wrmtx.inj (Option.some.inj h), rfl, rfl, hv⟩
          · rintro ⟨rfl, -, -, hv⟩
            exact ⟨hv, rfl⟩
        · exact ⟨fun h => (nomatch h.2), fun h => absurd h.2.2.1 nofun⟩
        · exact ⟨fun h => (nomatch h.2), fun h => absurd h.2.2.1 nofun⟩
      by_cases ht : c = t
      · subst ht
        simp [← hiff, actor, writing]
        rfl
      · simp [ht, actor, writing]
    have hoth : ∀ t, t ≠ c → k'.pc t = y.rwl.kernel.pc t := by
      intro t ht
      rw [WaitEnds.pc W, Function.update_of_ne ht]
    exact ⟨I₂, sits_update I.sits hoth nofun⟩
  | unlocksWrite c r k₁ o₁ ha hc hown G hv hx ho =>
    subst hx ha
    obtain ⟨n, rfl⟩ := hv
    have hq := quiet_of_mayCall hc
    have I₂ : Sems (returned k₁ c) L' (held y.rwl (.call c (.unlock r)) o true y.writes) := by
      refine I.sems.signals hq G (Or.inl ⟨r, rfl, hown⟩) fun r' t => ?_
      have hop : signalsOp (.semSignal (.wrmtx r) : Op T (RwlSem R)) = some (.wrmtx r) := rfl
      have hw : waitSucceeds (writing y.rwl.kernel y.writes).kernel
          (.call c (.semSignal (.wrmtx r))) (some (.val n)) (.wrmtx r') =
            false := waitSucceeds_signal hop
      show held y.rwl (.call c (.unlock r)) o true y.writes t r' = _
      rw [held_gives (by rw [ho]; exact nofun), hw, hown]
      by_cases ht : c = t
      · subst ht
        simp [actor, writing, signalExecutes, signalled, signalsOp]
      · simp [ht, actor, writing]
    have hoth : ∀ t, t ≠ c → (returned k₁ c).pc t = y.rwl.kernel.pc t := by
      intro t ht
      show Function.update k₁.pc c .idle t = _
      rw [Function.update_of_ne ht, Signals.pc G]
    refine ⟨I₂, sits_update I.sits hoth ?_⟩
    intro p' hp'
    cases hp'
    exact sits_idle
  | unlocksRead c r ha hc hown hr hx hL ho =>
    subst hx hL ha
    have hsame : held y.rwl (.call c (.unlock r)) o true y.writes =
        y.writes := by
      funext t r'
      rw [held_gives (by rw [ho]; exact nofun)]
      simp [hown]
    rw [hsame]
    refine ⟨I.sems.returned (quiet_of_mayCall hc),
      sits_update I.sits (fun t ht => Function.update_of_ne ht ..) ?_⟩
    intro p' hp'
    cases hp'
    exact sits_idle
  | refuses c r ha hc hown hx hL ho =>
    subst hx hL ha
    rw [held_same (Or.inl rfl) (Or.inr ho)]
    exact ⟨I.sems.returned (quiet_of_mayCall hc),
      sits_update I.sits (fun t ht => Function.update_of_ne ht ..) nofun⟩
  | offers c r k₁ o₁ ha hcall hl G hx ho =>
    subst hx ha
    have hq : Quiet (y.rwl.kernel.pc c) := I.sits c _ hcall
    rw [held_same (Or.inl (takes_unlock hcall)) (Or.inl rfl)]
    refine ⟨?_, sits_update I.sits (fun t ht => ?_) nofun⟩
    · refine I.sems.signals hq G (Or.inr ⟨⟨r, rfl⟩, hl⟩) fun r' t => ?_
      have hop : signalsOp (.semSignal (.wrsem r) : Op T (RwlSem R)) = some (.wrsem r) := rfl
      have hw : waitSucceeds (writing y.rwl.kernel y.writes).kernel
          (.call c (.semSignal (.wrsem r))) o₁ (.wrmtx r') = false :=
        waitSucceeds_signal hop
      have hne : RwlSem.wrsem r ≠ RwlSem.wrmtx r' := nofun
      rw [hw, signalExecutes_other hne]
      split <;> rfl
    · show Function.update k₁.pc c .idle t = _
      rw [Function.update_of_ne ht, Signals.pc G]
  -- the readers are woken all at once
  | announces c r k₁ k₂ ha hcall hl D hL hk hx ho =>
    have hq : Quiet (y.rwl.kernel.pc c) := I.sits c _ hcall
    have I₁ := I.sems.served D hL hk
    have hpc : k₂.pc = y.rwl.kernel.pc := by
      rw [hk]
      exact (Served.fields D).1
    subst hx ha
    rw [held_same (Or.inl (takes_unlock hcall)) (Or.inl rfl)]
    refine ⟨I₁.returned (by rw [hpc]; exact hq), sits_update I.sits (fun t ht => ?_) nofun⟩
    show Function.update k₂.pc c .idle t = _
    rw [Function.update_of_ne ht, hpc]
  | passes c r ha hcall hl hx hL ho =>
    have hq : Quiet (y.rwl.kernel.pc c) := I.sits c _ hcall
    subst hx hL ha
    rw [held_same (Or.inl (takes_unlock hcall)) (Or.inl rfl)]
    exact ⟨I.sems.returned hq,
      sits_update I.sits (fun t ht => Function.update_of_ne ht ..) nofun⟩
  -- the sections below belong to no call of a lock
  | delays a₀ k' ha hout hd D hx hL =>
    subst hx hL ha
    rw [held_same (Or.inl rfl) (Or.inl rfl)]
    refine ⟨I.sems.delays D hkeep (runs_deep hruns), fun t p hp => ?_⟩
    have hat := I.sits t p hp
    rcases Delays.pc D t with h | ⟨hq, h⟩
    · exact hat.other h
    · -- a task that moves is in no wait
      unfold Sits at hat ⊢
      cases hs : semOf p with
      | some s =>
        rw [hs] at hat
        exact nomatch hat.symm.trans hq.1
      | none =>
        show Quiet (k'.pc t)
        rcases h with h | h | h
        · rw [h]; exact ⟨rfl, rfl, rfl⟩
        · rw [h]; exact ⟨rfl, rfl, rfl⟩
        · exact quiet_of_delayed h
  | reorders a₀ who k₁ ha hq D hx =>
    have I₁ := I.sems.reorders D
    obtain ⟨hpc, -⟩ := Reorders.fields D
    subst hx ha
    rw [held_same (Or.inl rfl) (Or.inl rfl)]
    cases who with
    | none => exact ⟨I₁, fun t p hp => (I.sits t p hp).other (congrFun hpc t)⟩
    | some c =>
      obtain ⟨hc, hcall⟩ := hq c rfl
      refine ⟨I₁.returned (by rw [hpc]; exact quiet_of_mayCall hc),
        fun t p hp => (I.sits t p hp).other ?_⟩
      have ht : t ≠ c := by
        rintro rfl
        exact nomatch hcall.symm.trans hp
      show Function.update k₁.pc c .idle t = _
      rw [Function.update_of_ne ht, hpc]

end Core

end RtaiRwlEffects
