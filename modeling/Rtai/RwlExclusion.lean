import Rtai.RwlEffects

/-! # Readers and writers exclude each other

    A writer tests the number of readers once and may then sleep on `wrmtx`; a
    reader tests the owner of `wrmtx`.  That neither is let in besides the
    other rests on `wrmtx` being handed over from owner to owner while anybody
    waits for it. -/

namespace RtaiRwlExclusion

open RtaiRuns RtaiKernel RtaiSteps RtaiControl RtaiSemEffects RtaiSemSteps
  RtaiHolders RtaiBroadcast RtaiNoToken RtaiChangePrio RtaiRwl RtaiRwlEffects

variable {T R : Type} [decT : DecidableEq T] [decR : DecidableEq R] [finT : Fintype T]
  [finR : Fintype R]

/-- **Readers-writer exclusion**: the reader count is the number of read
    holds, and while it is not zero `wrmtx` has no owner. -/
def Exclusion (x : Locking T R) : Prop :=
  ∀ r, 0 ≤ x.rwl.readers r ∧ x.rwl.readers r = ∑ t, (x.reads t r : Int) ∧
    (x.rwl.readers r ≠ 0 → x.rwl.kernel.owndby (.wrmtx r) = none)

/-- A lock is unlocked by tasks that hold it. -/
def UnlocksHeld (x : Locking T R) : RwlAction T R → Prop
  | .call c (.unlock r) => 0 < x.reads c r ∨ 0 < x.writes c r
  | _ => True

/-! ## The number of read holds -/

theorem sum_gain (f : T → Nat) (c : T) :
    ∑ t, ((f t + if c = t then 1 else 0 : Nat) : Int) = ∑ t, (f t : Int) + 1 := by
  simp only [Nat.cast_add, Finset.sum_add_distrib]
  simp

theorem sum_loss (f : T → Nat) {c : T} (h : 0 < f c) :
    ∑ t, ((f t - if c = t then 1 else 0 : Nat) : Int) = ∑ t, (f t : Int) - 1 := by
  have hterm : ∀ t, ((f t - if c = t then 1 else 0 : Nat) : Int) =
      (f t : Int) - if c = t then 1 else 0 := by
    intro t
    by_cases ht : c = t
    · subst ht
      rw [if_pos rfl, if_pos rfl]
      omega
    · rw [if_neg ht, if_neg ht]
      omega
  simp only [hterm, Finset.sum_sub_distrib]
  simp

/-! ## Who owns `wrmtx` -/

section Owner

variable {k k' : Kernel T (RwlSem R)} {L L' : Head T (RwlSem R) → List T}
  {w : T → R → Nat} {c : T} {s : RwlSem R} {o : Option (Ret T)}

/-- The end of a wait makes nobody the owner of a resource that is not its
    owner already. -/
theorem waitEnds_owner (W : WaitEnds k L c s k' L' o)
    (hpc : waitsOn (k.pc c) = some s) (I : Sems k L w) (r : R) :
    k'.owndby (.wrmtx r) = k.owndby (.wrmtx r) := by
  by_cases hs : s = .wrmtx r
  · subst hs
    cases W with
    | granted hb hk _ _ =>
      have hown := ((I.wrmtx r).2.granted c ⟨hpc, hb⟩).1
      rw [hk]
      exact (takeOwnership_self _ c (I.wrmtx r).1).trans hown.symm
    | failed _ _ _ _ _ _ _ _ hre hk _ =>
      rw [hk]
      exact congrFun (Recomputes.sems hre).1 _
  · exact (WaitEnds.owner_same W (Or.inl hs)).2

end Owner

/-! ## The invariant -/

/-- Readers are counted, and a writer is alone. -/
structure ExclusionInv (x : Locking T R) (L : Head T (RwlSem R) → List T) :
    Prop where
  core : Core x L
  readers : ∀ r, x.rwl.readers r = ∑ t, (x.reads t r : Int)
  exclusive : ∀ r, x.rwl.readers r ≠ 0 → x.rwl.kernel.owndby (.wrmtx r) = none

omit decT decR finR in
theorem ExclusionInv.nonneg {x : Locking T R} {L : Head T (RwlSem R) → List T}
    (I : ExclusionInv x L) (r : R) : 0 ≤ x.rwl.readers r := by
  rw [I.readers]
  exact Finset.sum_nonneg fun t _ => Int.natCast_nonneg _

omit finT finR in
theorem core_unlocked (cfg : RwlConfig T R) :
    Core (unlocked cfg) (fun _ => []) where
  sems :=
    { control := control_boot _
      deep := by
        intro t
        show 0 ≤ if cfg.hard t then (1 : Int) else 0
        split <;> decide
      wrmtx := fun r => ⟨Int.one_pos,
        { free := fun _ => ⟨rfl, rfl, rfl⟩
          busy := nofun
          holders := fun t h => absurd h (lt_irrefl 0)
          granted := fun t h => nomatch h.1
          owner := nofun }⟩
      wrsem := fun r => ⟨rfl, rfl, rfl⟩
      rdsem := fun r => ⟨rfl, rfl, rfl⟩ }
  sits := nofun

section Step

variable {x x' : Locking T R} {L L' : Head T (RwlSem R) → List T}
  {a : RwlAction T R} {o : Option (RwlRet T)}

theorem locking_eq (h : locking x a = some (x', o)) : rwlStep x.rwl a = some (x'.rwl, o) ∧
      x'.reads = held x.rwl a o false x.reads ∧
      x'.writes = held x.rwl a o true x.writes := by
  obtain ⟨⟨y, o'⟩, hs, h⟩ := Option.bind_eq_some_iff.mp h
  cases h
  exact ⟨hs, rfl, rfl⟩

omit decT decR finR in
/-- What an action leaves alone. -/
theorem ExclusionInv.same (I : ExclusionInv x L)
    (hr : x'.rwl.readers = x.rwl.readers) (hd : x'.reads = x.reads)
    (hown : ∀ r, x.rwl.readers r ≠ 0 → x'.rwl.kernel.owndby (.wrmtx r) =
      x.rwl.kernel.owndby (.wrmtx r)) :
    (∀ r, x'.rwl.readers r = ∑ t, (x'.reads t r : Int)) ∧ ∀ r, x'.rwl.readers r ≠ 0 →
        x'.rwl.kernel.owndby (.wrmtx r) = none := by
  rw [hr, hd]
  exact ⟨I.readers, fun r h => (hown r h).trans (I.exclusive r h)⟩

/-- **EVERY SECTION KEEPS READERS AND WRITERS APART.** -/
theorem Effect.exclusive (D : Effect x.rwl L a x'.rwl L' o)
    (hreads : x'.reads = held x.rwl a o false x.reads)
    (hheld : UnlocksHeld x a) (hcnt : RwlCountsInRange x.rwl a)
    (I : ExclusionInv x L) :
    (∀ r, x'.rwl.readers r = ∑ t, (x'.reads t r : Int)) ∧ ∀ r, x'.rwl.readers r ≠ 0 →
        x'.rwl.kernel.owndby (.wrmtx r) = none := by
  obtain ⟨y', reads', writes'⟩ := x'
  dsimp only at D hreads ⊢
  subst hreads
  have hsame := fun (hx : y'.readers = x.rwl.readers)
    (hd : held x.rwl a o false x.reads = x.reads)
    (hown : ∀ r, x.rwl.readers r ≠ 0 → y'.kernel.owndby (.wrmtx r) =
      x.rwl.kernel.owndby (.wrmtx r)) =>
    @ExclusionInv.same _ _ _ x ⟨y', held x.rwl a o false x.reads, writes'⟩ L I hx hd hown
  dsimp only at hsame
  cases D with
  | reads c r e k₁ ha E he hno hfree hx hL ho =>
    have hown := E.fields.1
    subst hx
    constructor
    · intro r'
      simp only [held_takes ha, ho]
      show (Function.update x.rwl.readers r (incr (x.rwl.readers r))) r' = _
      by_cases hr : r = r'
      · subst hr
        rw [Function.update_self, incr_of_lt (hcnt.readers ha hno), I.readers]
        simp only [and_true]
        exact (sum_gain (fun t => x.reads t r) c).symm
      · rw [Function.update_of_ne (Ne.symm hr), I.readers]
        simp [hr]
    · intro r' hr'
      show k₁.owndby (.wrmtx r') = none
      rw [hown]
      by_cases hr : r = r'
      · rw [← hr]
        exact hfree
      · refine I.exclusive r' fun h => hr' ?_
        exact (Function.update_of_ne (Ne.symm hr) ..).trans h
  | quits c r w e k₁ ha E he hx hL ho =>
    have hown := E.fields.1
    obtain ⟨v, hv, hne⟩ := ho
    have hok : o ≠ some .ok := by
      rw [hv]
      exact fun h => hne (Option.some.inj h)
    subst hx
    exact hsame rfl (held_same (Or.inr hok) (Or.inl (gives_of_takes ha)))
      fun r' _ => congrFun hown _
  | queues c r w e s p k₁ k' o₁ ha E he hs hp W hx =>
    have hown := E.fields.1
    have hne : ∀ r', s ≠ .wrmtx r' := by
      rcases hs with ⟨rfl, -⟩ | ⟨rfl, -⟩ <;> exact fun _ => nofun
    have hok : o ≠ some .ok := by
      rcases hx with ⟨-, ho, -⟩ | ⟨v, -, ho, -⟩ <;> rw [ho] <;> exact nofun
    have hk : y'.kernel = k' ∧ y'.readers = x.rwl.readers := by
      rcases hx with ⟨-, -, rfl⟩ | ⟨v, -, -, rfl⟩ <;> exact ⟨rfl, rfl⟩
    refine hsame hk.2 (held_same (Or.inr hok) (Or.inl (gives_of_takes ha))) fun r' _ => ?_
    rw [hk.1, (Waits.owner_same W (Or.inl (hne r'))).2, hown]
  | contends c r e p op tries k₁ k' o₁ ha E he hr hrob hop W hp hx hn ho =>
    have hown := E.fields.1
    subst hx
    refine hsame rfl ?_ fun r' hr' => ?_
    · funext t r'
      rw [held_takes ha]
      simp
    · -- the writer has found no readers
      have hne : RwlSem.wrmtx r ≠ RwlSem.wrmtx r' := by
        intro h
        cases h
        exact hr' hr
      exact ((Waits.owner_same W (Or.inl hne)).2).trans (congrFun hown _)
  | ends c r w s k' o₁ ha hwait hex W hs hx hn ho =>
    subst hx
    refine hsame rfl ?_ fun r' _ =>
      waitEnds_owner W hwait I.core.sems r'
    funext t r'
    rw [held_takes ha]
    have hno : ¬ (w = false ∧ o = some .ok) := by
      rintro ⟨rfl, hok⟩
      rcases hs with ⟨-, h⟩ | ⟨h | h, -⟩
      · exact nomatch h
      · rw [(ho.mp hok).1] at h
        exact nomatch h
      · rw [(ho.mp hok).1] at h
        exact nomatch h
    rw [if_neg fun h => hno h.2.2]
    rfl
  | unlocksWrite c r k₁ o₁ ha hc hown G hv hx ho =>
    subst hx ha
    refine hsame rfl ?_ fun r' hr' => ?_
    · funext t r'
      rw [held_gives (by rw [ho]; exact nofun)]
      simp [hown]
    · have hne : RwlSem.wrmtx r ≠ RwlSem.wrmtx r' := by
        intro h
        cases h
        exact nomatch hown.symm.trans (I.exclusive r hr')
      exact (Signals.owner_same G (Or.inl hne)).2
  | unlocksRead c r ha hc hown hr hx hL ho =>
    subst hx ha
    -- a task that does not own the lock holds it for reading
    have hpos : 0 < x.reads c r := by
      rcases hheld with h | h
      · exact h
      · have := ((I.core.sems.wrmtx r).2.holders c h).1
        exact absurd this hown
    constructor
    · intro r'
      simp only [held_gives (x := x.rwl) (c := c) (r := r)
        (show o ≠ some .perm by rw [ho]; exact nofun)]
      show (Function.update x.rwl.readers r (decr (x.rwl.readers r))) r' = _
      by_cases hr' : r = r'
      · subst hr'
        have h0 := I.nonneg r
        rw [Function.update_self, decr_of_gt (by omega), I.readers]
        simp only [hown, decide_false, and_true]
        exact (sum_loss (fun t => x.reads t r) hpos).symm
      · rw [Function.update_of_ne (Ne.symm hr'), I.readers]
        simp [hr']
    · intro r' hr'
      by_cases h : r = r'
      · subst h
        exact I.exclusive r hr
      · refine I.exclusive r' fun h' => hr' ?_
        exact (Function.update_of_ne (Ne.symm h) ..).trans h'
  | refuses c r ha hc hown hx hL ho =>
    subst hx ha
    exact hsame rfl (held_same (Or.inl rfl) (Or.inr ho)) fun _ _ => rfl
  | offers c r k₁ o₁ ha hcall hl G hx ho =>
    subst hx ha
    have hne : ∀ r', RwlSem.wrsem r ≠ RwlSem.wrmtx r' := fun _ => nofun
    exact hsame rfl (held_same (Or.inl (takes_unlock hcall)) (Or.inl rfl))
      fun r' _ => (Signals.owner_same G (Or.inl (hne r'))).2
  | announces c r k₁ k₂ ha hcall hl D hL hk hx ho =>
    have hown : k₂.owndby = x.rwl.kernel.owndby := by
      rw [hk]
      exact (Served.fields D).2.1
    subst hx ha
    exact hsame rfl (held_same (Or.inl (takes_unlock hcall)) (Or.inl rfl))
      fun r' _ => congrFun hown _
  | passes c r ha hcall hl hx hL ho =>
    subst hx ha
    exact hsame rfl (held_same (Or.inl (takes_unlock hcall)) (Or.inl rfl)) fun _ _ => rfl
  | delays a₀ k' ha hout hd D hx hL =>
    subst hx ha
    exact hsame rfl (held_same (Or.inl rfl) (Or.inl rfl))
      fun r' _ => congrFun (Delays.sems D).2.2.2 _
  | reorders a₀ who k₁ ha hq D hx =>
    have hown := (Reorders.fields D).2.2.2.2.2.1
    subst hx ha
    refine hsame rfl (held_same (Or.inl rfl) (Or.inl rfl)) fun r' _ => ?_
    cases who with
    | none => exact congrFun hown _
    | some c => exact congrFun hown _

end Step

/-! ## Every run -/

/-- The condition on the steps of a run. -/
def Spares (x : Locking T R) (a : RwlAction T R) : Prop :=
  RwlRobsGranted x.rwl a ∧ RwlCountsInRange x.rwl a ∧ RwlKeepsGrants x.rwl a

theorem ExclusionInv.step {x x' : Locking T R}
    {L : Head T (RwlSem R) → List T} {a : RwlAction T R}
    {o : Option (RwlRet T)} (I : ExclusionInv x L) (hruns : RwlRuns x.rwl a)
    (hheld : UnlocksHeld x a) (hsp : Spares x a)
    (h : locking x a = some (x', o)) : ∃ L', ExclusionInv x' L' := by
  obtain ⟨hs, hreads, hwrites⟩ := locking_eq h
  obtain ⟨L', D⟩ := rwlStep_effect I.core hruns hsp.1 hs
  have hcore := Effect.core D hwrites I.core hruns hsp.2.1 hsp.2.2
  obtain ⟨h1, h2⟩ := Effect.exclusive D hreads hheld hsp.2.1 I
  exact ⟨L', hcore, h1, h2⟩

/-- **READERS AND WRITERS EXCLUDE EACH OTHER** in every run in which a wait
    for `wrmtx` robs an owner only of what it has been granted in a wait it
    has not come back from, the counts stay `int`s, and an unblock makes no task
    ready that has been granted what it waits for. -/
theorem readers_writer_exclusion (cfg : RwlConfig T R) (x : Locking T R)
    (h : Reach locking (fun x a => RwlRuns x.rwl a ∧ UnlocksHeld x a ∧ Spares x a)
      (unlocked cfg) x) : Exclusion x := by
  have hinv : ∃ L, ExclusionInv x L := by
    refine h.invariant (I := fun x => ∃ L, ExclusionInv x L)
      ⟨_, core_unlocked cfg, ?_, nofun⟩ ?_
    · intro r
      show (0 : Int) = ∑ _t : T, ((0 : Nat) : Int)
      simp
    · rintro x a x' o ⟨L, I⟩ ⟨hruns, hheld, hsp⟩ hx
      exact I.step hruns hheld hsp hx
  obtain ⟨L, I⟩ := hinv
  intro r
  exact ⟨I.nonneg r, I.readers r, I.exclusive r⟩

instance (k : Kernel T (RwlSem R)) (op : Op T (RwlSem R)) : Decidable (RwlServes k op) := by
  induction op using Op.casesOn <;> unfold RwlServes <;> infer_instance

instance (x : Rwl T R) (a : RwlAction T R) : Decidable (RwlRuns x a) := by
  induction a using RwlAction.casesOn with
  | kernel a =>
    induction a using RtaiSteps.Action.casesOn <;> unfold RwlRuns <;>
      infer_instance
  | _ => exact isTrue trivial

instance (x : Locking T R) (a : RwlAction T R) : Decidable (UnlocksHeld x a) := by
  induction a using RwlAction.casesOn with
  | call c op =>
    induction op using RwlOp.casesOn <;> unfold UnlocksHeld <;> infer_instance
  | _ => exact isTrue trivial

instance (x : Rwl T R) (a : RwlAction T R) : Decidable (RwlRobsGranted x a) := by
  induction a using RwlAction.casesOn with
  | call c op =>
    induction op using RwlOp.casesOn <;> unfold RwlRobsGranted <;> infer_instance
  | go c =>
    unfold RwlRobsGranted
    dsimp only
    split <;> infer_instance
  | kernel a => exact isTrue trivial

instance (x : Locking T R) (a : RwlAction T R) : Decidable (Spares x a) :=
  haveI : Decidable (RwlKeepsGrants x.rwl a) := by
    induction a using RwlAction.casesOn <;> unfold RwlKeepsGrants <;> infer_instance
  haveI : Decidable (RwlCountsInRange x.rwl a) := by
    unfold RwlCountsInRange
    split <;> infer_instance
  inferInstanceAs (Decidable (_ ∧ _ ∧ _))

/-- A soft task, a hard task, and two locks. -/
def softAndHardLocks : RwlConfig (Fin 2) (Fin 2) where
  hard := fun t => t = 1
  priority := fun _ => 0
  schedlat := fun _ => 0
  linuxSchedlat := 0
  time := 0
  type := fun _ => 1

/-- The soft task reads; the hard one waits for it to unlock, writes, and reads
    the other lock besides. -/
theorem readers_writer_exclusion_writes :
    ∃ x : Locking (Fin 2) (Fin 2), x.writes 1 0 = 1 ∧ x.reads 1 1 = 1 ∧
      Exclusion x := by
  obtain ⟨x, hplay, hw, hr⟩ : ∃ x, play locking
      (fun x a => RwlRuns x.rwl a ∧ UnlocksHeld x a ∧ Spares x a)
      (unlocked softAndHardLocks)
      [.kernel (.softEnter 0), .call 0 (.rdlock 0), .kernel (.softTail 0),
        .kernel (.linux (.resume 1)), .kernel (.dispatch 1), .call 1 (.wrlock 0),
        .kernel (.softEnter 0), .call 0 (.unlock 0), .go 0, .kernel (.dispatch 1),
        .go 1, .call 1 (.rdlock 1)] = some x ∧
      x.writes 1 0 = 1 ∧ x.reads 1 1 = 1 := ⟨_, rfl, rfl, rfl⟩
  exact ⟨x, hw, hr, readers_writer_exclusion softAndHardLocks x (reach_of_play hplay)⟩

/-- The soft task holds the first lock in user mode; the hard task robs it of
    that lock while the soft task waits for the second one.  The soft task
    then gets the second lock back from its wait for it, although there is a
    reader by then. -/
def robbedWriterRun : List (RwlAction (Fin 2) (Fin 2)) :=
  [.kernel (.softEnter 0), .call 0 (.wrlock 0), .kernel (.softTail 0),
    .kernel (.linux (.resume 1)), .kernel (.dispatch 1), .call 1 (.wrlock 1),
    .call 1 (.wrlock 0), .kernel (.linux (.unblock 0 {.semaphore})),
    .kernel (.softEnter 0), .call 0 (.wrlock 1), .call 1 (.unlock 0), .go 1,
    .call 1 (.unlock 1), .go 1, .call 1 (.rdlock 1), .kernel (.softWake 0),
    .go 0]

/-- **A WRITER IS LET IN BESIDES A READER.** -/
theorem writer_besides_reader : ∃ x : Locking (Fin 2) (Fin 2),
      Reach locking (fun x a => RwlRuns x.rwl a ∧ UnlocksHeld x a)
        (unlocked softAndHardLocks) x ∧ ¬ Exclusion x := by
  obtain ⟨x, hplay, hr, ho⟩ : ∃ x, play locking (fun x a => RwlRuns x.rwl a ∧ UnlocksHeld x a)
      (unlocked softAndHardLocks) robbedWriterRun = some x ∧
      x.rwl.readers 1 = 1 ∧ x.rwl.kernel.owndby (.wrmtx 1) = some 0 :=
    ⟨_, rfl, rfl, rfl⟩
  refine ⟨x, reach_of_play hplay, fun h => ?_⟩
  have := (h 1).2.2 (by rw [hr]; decide)
  rw [ho] at this
  cases this

end RtaiRwlExclusion
