import Rtai.RwlExclusion

/-! # Readers-writer locks and wakeups

    An unlock wakes up the first writer or all the readers, by the priorities
    of the two queue heads.  A reader that has been woken up compares again,
    when it runs, and may find a writer before it that nobody has woken up. -/

namespace RtaiRwlWakeups

open RtaiRuns RtaiKernel RtaiSteps RtaiControl RtaiServices RtaiSemSteps
  RtaiBroadcast RtaiNoToken RtaiChangePrio RtaiRwl RtaiRwlEffects
  RtaiRwlExclusion

variable {T R : Type} [decT : DecidableEq T] [decR : DecidableEq R] [finT : Fintype T]
  [finR : Fintype R]

/-- The task is blocked on the semaphore. -/
def SleepsOn (k : Kernel T (RwlSem R)) (s : RwlSem R) (t : T) : Prop :=
  waitsOn (k.pc t) = some s ∧ .semaphore ∈ k.state t

/-- The task has been woken from the semaphore, and is still to run. -/
def WokenFrom (k : Kernel T (RwlSem R)) (s : RwlSem R) (t : T) : Prop :=
  waitsOn (k.pc t) = some s ∧ .semaphore ∉ k.state t

/-- **No wakeup is lost**: when a lock is free, no task woken from one of its
    semaphores is still to run and no unlock of it stands between its two
    sections, then nobody is blocked on `rdsem` or `wrsem`. -/
def NoLostWakeup (x : Rwl T R) : Prop :=
  ∀ r, Free x r → (∀ t, ¬ WokenFrom x.kernel (.rdsem r) t ∧ ¬ WokenFrom x.kernel (.wrsem r) t ∧
      ¬ WokenFrom x.kernel (.wrmtx r) t) →
    (∀ t, x.call t ≠ some (.unlock r)) →
    ∀ t, ¬ SleepsOn x.kernel (.rdsem r) t ∧ ¬ SleepsOn x.kernel (.wrsem r) t

/-- Somebody besides `who` will look at the lock again. -/
def Attended (x : Rwl T R) (r : R) (who : Option T) : Prop :=
  (∃ t, some t ≠ who ∧ Granted x.kernel (.rdsem r) t) ∨ (∃ t, Granted x.kernel (.wrsem r) t) ∨
    ∃ t, x.call t = some (.unlock r)

/-- A reader that has been woken up, and waits again because of a writer
    although the lock is free, is not the only one that will look at it. -/
def LeavesWaker (x : Rwl T R) : RwlAction T R → Prop
  | .go c =>
    match x.call c with
    | some (.rdsem r _) =>
      x.kernel.blockedOn c = .null → Free x r →
        readerWaits x.kernel c r = some true → Attended x r (some c)
    | _ => True
  | _ => True

/-! ## The invariant -/

/-- Somebody waits for the lock. -/
def Sought (L : Head T (RwlSem R) → List T) (r : R) : Prop :=
  (L (.sem (.rdsem r))).length + (L (.sem (.wrsem r))).length ≠ 0

/-- Who waits for a free lock is attended to. -/
structure WakeInv (x : Locking T R) (L : Head T (RwlSem R) → List T) :
    Prop where
  core : Core x L
  readers : ∀ r, 0 ≤ x.rwl.readers r
  attended : ∀ r, Free x.rwl r → Sought L r → Attended x.rwl r none

section Enters

variable {k k₁ k' : Kernel T (RwlSem R)} {L L' : Head T (RwlSem R) → List T}
  {c : T} {e : Option (RwlSem R)} {s : RwlSem R}

omit finT finR in
/-- The beginning of a section takes the grant of its task only. -/
theorem Enters.granted (E : Enters k c e k₁) {t : T}
    (hne : e ≠ some s ∨ t ≠ c) (h : Granted k s t) : Granted k₁ s t := by
  cases E with
  | call _ => exact h
  | woken s' hw hb hex ht =>
    have htc : t ≠ c := by
      rcases hne with hne | htc
      · rintro rfl
        exact hne (hw.symm.trans h.1)
      · exact htc
    exact ⟨(congrArg waitsOn (Function.update_of_ne htc ..)).trans h.1, h.2⟩

end Enters

section Kept

variable {x x' : Rwl T R} {L L' : Head T (RwlSem R) → List T} {r : R} {c : T}
  {v : Option (RwlPc R)}

omit decT decR finT finR in
/-- What another section leaves to the lock. -/
theorem attended_kept {who who' : Option T} (h : Attended x r who')
    (hw : ∀ t, some t ≠ who' → some t ≠ who)
    (hrd : ∀ t, some t ≠ who' → Granted x.kernel (.rdsem r) t → Granted x'.kernel (.rdsem r) t)
    (hwr : ∀ t, Granted x.kernel (.wrsem r) t → Granted x'.kernel (.wrsem r) t)
    (hc : ∀ t, x.call t = some (.unlock r) → x'.call t = some (.unlock r)) :
    Attended x' r who := by
  rcases h with ⟨t, hne, ht⟩ | ⟨t, ht⟩ | ⟨t, ht⟩
  · exact Or.inl ⟨t, hw t hne, hrd t hne ht⟩
  · exact Or.inr (Or.inl ⟨t, hwr t ht⟩)
  · exact Or.inr (Or.inr ⟨t, hc t ht⟩)

omit decR finT finR in
/-- A call that is in no unlock moves. -/
theorem unlock_kept (hc : x.call c ≠ some (.unlock r)) (t : T)
    (h : x.call t = some (.unlock r)) :
    Function.update x.call c v t = some (.unlock r) := by
  have ht : t ≠ c := by
    rintro rfl
    exact hc h
  rw [Function.update_of_ne ht]
  exact h

end Kept

/-- The readers and the writers of a lock are left to themselves. -/
def Spared (k : Kernel T (RwlSem R)) (L : Head T (RwlSem R) → List T)
    (k' : Kernel T (RwlSem R)) (L' : Head T (RwlSem R) → List T) (r : R) :
    Prop :=
  ∀ s, s = .rdsem r ∨ s = .wrsem r → (L' (.sem s)).length ≤ (L (.sem s)).length ∧
    ∀ t, Granted k s t → Granted k' s t

section Spared

variable {k k₁ k' : Kernel T (RwlSem R)} {L L' : Head T (RwlSem R) → List T}
  {c : T} {e : Option (RwlSem R)} {r : R}

omit decT decR finT finR in
theorem Spared.of_untouched (h : ∀ s, s = .rdsem r ∨ s = .wrsem r → Untouched k L k' L' s) :
    Spared k L k' L' r := fun s hs =>
  ⟨le_of_eq (h s hs).length, fun t => ((h s hs).granted t).mpr⟩

omit finT finR in
theorem Spared.enters (E : Enters k c e k₁)
    (he : ∀ s, e = some s → s ≠ .rdsem r ∧ s ≠ .wrsem r)
    (h : Spared k₁ L k' L' r) : Spared k L k' L' r := by
  intro s hs
  obtain ⟨h1, h2⟩ := h s hs
  refine ⟨h1, fun t ht => h2 t (Enters.granted E (Or.inl ?_) ht)⟩
  intro hes
  obtain ⟨g1, g2⟩ := he s hes
  exact hs.elim g1 g2

omit decR finT finR in
theorem Spared.returned (h : Spared k L k' L' r) (hq : waitsOn (k'.pc c) = none) :
    Spared k L (RtaiSemEffects.returned k' c) L' r := fun s hs =>
  ⟨(h s hs).1, fun t ht => (granted_returned hq t).mpr ((h s hs).2 t ht)⟩

end Spared

section Kept

variable {x : Locking T R} {y : Rwl T R} {L L' : Head T (RwlSem R) → List T} {r : R}

omit decT decR finT finR in
theorem WakeInv.kept (I : WakeInv x L) (hP : Spared x.rwl.kernel L y.kernel L' r)
    (hfree : Free y r → Free x.rwl r)
    (hc : ∀ t, x.rwl.call t = some (.unlock r) → y.call t = some (.unlock r)) :
    Free y r → Sought L' r → Attended y r none := by
  intro hf hs
  obtain ⟨h1, h2⟩ := hP _ (Or.inl rfl)
  obtain ⟨h3, h4⟩ := hP _ (Or.inr rfl)
  have hs' : Sought L r := by
    unfold Sought at hs ⊢
    omega
  exact attended_kept (I.attended r (hfree hf) hs') (fun _ h => h) (fun t _ => h2 t) h4 hc

end Kept

/-! ## Every section -/

section Step

variable {x : Locking T R} {y : Rwl T R} {L L' : Head T (RwlSem R) → List T}
  {a : RwlAction T R} {o : Option (RwlRet T)}

omit decT decR finT finR in
/-- The task that goes on is the one that may take the lock. -/
theorem takes_go {x : Rwl T R} {c c' : T} {r : R} {w : Bool}
    (h : takes x (.go c') = some (c, r, w)) : c' = c := by
  unfold takes at h
  dsimp only at h
  split at h
  · exact congrArg Prod.fst (Option.some.inj h)
  · exact congrArg Prod.fst (Option.some.inj h)
  · exact congrArg Prod.fst (Option.some.inj h)
  · exact nomatch h

/-- A task that begins or goes on with a call that takes a lock is in no
    unlock. -/
theorem no_unlock {x : Rwl T R} {c : T} {r r' : R} {w : Bool} (ha : takes x a = some (c, r, w))
    (hidle : ∀ c op, a = .call c op → mayCall x.kernel c = true ∧ x.call c = none) :
    x.call c ≠ some (.unlock r') := by
  cases a with
  | call c' op =>
    have hc : c' = c := by
      cases op <;> first
        | exact congrArg Prod.fst (Option.some.inj ha)
        | exact nomatch ha
    rw [← hc, (hidle c' op rfl).2]
    exact nofun
  | go c' =>
    intro hcall
    have hc : c' = c := takes_go ha
    subst hc
    rw [takes_unlock hcall] at ha
    exact nomatch ha
  | kernel a₀ => exact nomatch ha

/-- The task that a reader would have to wait for. -/
theorem sought_of_readerWaits {k : Kernel T (RwlSem R)} {c : T} {r : R}
    (C : Control k L) (hown : k.owndby (.wrmtx r) = none)
    (h : readerWaits k c r = some true) : Sought L r := by
  unfold readerWaits at h
  rw [if_neg (by rw [hown]; exact fun h => h rfl), resqelTask_eq C] at h
  unfold Sought
  cases hl : L (.sem (.wrsem r)) with
  | nil =>
    rw [hl] at h
    exact nomatch h
  | cons u l =>
    rw [List.length_cons]
    omega

/-- A reader that has been woken up and waits again leaves somebody else. -/
theorem woken_attended {k₁ : Kernel T (RwlSem R)} {c : T} {r : R} {w : Bool}
    (I : Core x L) (E : Enters x.rwl.kernel c (some (.rdsem r)) k₁)
    (ha : takes x.rwl a = some (c, r, w))
    (hidle : ∀ c op, a = .call c op → mayCall x.rwl.kernel c = true)
    (hwake : LeavesWaker x.rwl a) (hfree : Free x.rwl r)
    (hwait : readerWaits x.rwl.kernel c r = some true) :
    Attended x.rwl r (some c) := by
  cases E with
  | woken _ hw hb hex ht =>
    cases a with
    | call c' op =>
      have hc : c' = c := by
        cases op <;> first
          | exact congrArg Prod.fst (Option.some.inj ha)
          | exact nomatch ha
      subst hc
      have hq := (quiet_of_mayCall (hidle c' op rfl)).1
      exact nomatch hw.symm.trans hq
    | go c' =>
      have hc : c' = c := takes_go ha
      subst hc
      cases hp : x.rwl.call c' with
      | none =>
        unfold takes at ha
        dsimp only at ha
        rw [hp] at ha
        exact nomatch ha
      | some p =>
        -- the place of the call tells which semaphore it waits for
        have hat := I.sits c' p hp
        unfold Sits at hat
        cases p with
        | rdsem r' time =>
          have hr : r' = r :=
            RwlSem.rdsem.inj (Option.some.inj (hat.symm.trans hw))
          subst hr
          unfold LeavesWaker at hwake
          dsimp only at hwake
          rw [hp] at hwake
          exact hwake hb hfree hwait
        | wrsem _ _ => exact nomatch hat.symm.trans hw
        | wrmtx _ _ => exact nomatch hat.symm.trans hw
        | unlock _ => exact nomatch hat.1.symm.trans hw
    | kernel a₀ => exact nomatch ha

/-- **EVERY SECTION LEAVES SOMEBODY TO LOOK AFTER A FREE LOCK.** -/
theorem Effect.attended (D : Effect x.rwl L a y L' o) (I : WakeInv x L)
    (hidle : ∀ c op, a = .call c op → mayCall x.rwl.kernel c = true ∧ x.rwl.call c = none)
    (hcnt : RwlCountsInRange x.rwl a)
    (hkeep : RwlKeepsGrants x.rwl a) (hwake : LeavesWaker x.rwl a) :
    (∀ r, 0 ≤ y.readers r) ∧ ∀ r, Free y r → Sought L' r → Attended y r none := by
  have C := I.core.sems.control
  cases D with
  | reads c r e k₁ ha E he hno hfree hx hL ho =>
    have hown := E.fields.1
    obtain ⟨C₁, hcall⟩ := E.caller C
    subst hx hL
    have hrd : ∀ r', r ≠ r' → (callOver (addReader { x.rwl with kernel := k₁ } r)
        c).readers r' = x.rwl.readers r' :=
      fun r' hr => Function.update_of_ne (Ne.symm hr) ..
    have hself : (callOver (addReader { x.rwl with kernel := k₁ } r)
        c).readers r = x.rwl.readers r + 1 :=
      (Function.update_self ..).trans (incr_of_lt (hcnt.readers ha hno))
    refine ⟨fun r' => ?_, fun r' => ?_⟩
    · have h0 := I.readers r'
      by_cases hr : r = r'
      · subst hr
        exact le_of_le_of_eq (by omega) hself.symm
      · rw [hrd r' hr]
        exact h0
    · by_cases hr : r = r'
      · subst hr
        intro hf
        have h0 := I.readers r
        have hz : x.rwl.readers r + 1 = 0 := hself.symm.trans hf.2
        omega
      · refine I.kept (Spared.enters E ?_ ?_) ?_ (unlock_kept (no_unlock ha hidle))
        · intro s hs
          rcases he with rfl | rfl
          · exact nomatch hs
          · cases hs
            exact ⟨fun h => hr (RwlSem.rdsem.inj h), nofun⟩
        · refine Spared.returned (fun s _ => ⟨le_rfl, fun t h => h⟩) hcall.waits
        · rintro ⟨h1, h2⟩
          exact ⟨(congrFun hown _).symm.trans h1, (hrd r' hr).symm.trans h2⟩
  | quits c r w e k₁ ha E he hx hL ho =>
    have hown := E.fields.1
    obtain ⟨C₁, hcall⟩ := E.caller C
    subst hx hL
    refine ⟨I.readers, fun r' => ?_⟩
    by_cases hr : e ≠ none ∧ r = r'
    · obtain ⟨hne, rfl⟩ := hr
      -- the lock is taken for writing by the task itself
      obtain ⟨-, hmine⟩ := he.resolve_left hne
      intro hf
      have h1 : k₁.owndby (.wrmtx r) = none := hf.1
      rw [hown, hmine] at h1
      exact nomatch h1
    · refine I.kept (Spared.enters E ?_ ?_) ?_ (unlock_kept (no_unlock ha hidle))
      · intro s hs
        rcases he with rfl | ⟨rfl, -⟩
        · exact nomatch hs
        · cases hs
          exact ⟨fun h => hr ⟨nofun, RwlSem.rdsem.inj h⟩, nofun⟩
      · exact Spared.returned (fun s _ => ⟨le_rfl, fun t h => h⟩) hcall.waits
      · rintro ⟨h1, h2⟩
        exact ⟨(congrFun hown _).symm.trans h1, h2⟩
  | queues c r w e s p k₁ k' o₁ ha E he hs hp W hx =>
    have hown := E.fields.1
    obtain ⟨C₁, hcall⟩ := E.caller C
    have I₁ := I.core.sems.enters E
    have N : NoToken k₁ L s := by
      rcases hs with ⟨rfl, -⟩ | ⟨rfl, -⟩
      · exact I₁.rdsem r
      · exact I₁.wrsem r
    have hne : ∀ r', s ≠ .wrmtx r' := by
      rcases hs with ⟨rfl, -⟩ | ⟨rfl, -⟩ <;> exact fun _ => nofun
    have howner : ∀ r', k'.owndby (.wrmtx r') = x.rwl.kernel.owndby (.wrmtx r') := by
      intro r'
      rw [(Waits.owner_same W (Or.inl (hne r'))).2, hown]
    obtain ⟨hk, hrd, v, hcl⟩ : y.kernel = k' ∧ y.readers = x.rwl.readers ∧
        ∃ v, y.call = Function.update x.rwl.call c v := by
      rcases hx with ⟨-, -, rfl⟩ | ⟨_, -, -, rfl⟩ <;> exact ⟨rfl, rfl, _, rfl⟩
    have hfree : ∀ r', Free y r' → Free x.rwl r' := by
      rintro r' ⟨h1, h2⟩
      rw [hk] at h1
      rw [hrd] at h2
      exact ⟨(howner r').symm.trans h1, h2⟩
    have hunlock : ∀ r' t, x.rwl.call t = some (.unlock r') →
        y.call t = some (.unlock r') := by
      intro r'
      rw [hcl]
      exact unlock_kept (no_unlock ha hidle)
    have hgrant : ∀ s' t, e ≠ some s' ∨ t ≠ c →
        Granted x.rwl.kernel s' t → Granted y.kernel s' t := by
      intro s' t hes ht
      rw [hk]
      have ht₁ := Enters.granted E hes ht
      by_cases hss : s = s'
      · subst hss
        exact (Waits.grants_nothing W hcall N t).mpr ht₁
      · exact ((Waits.untouched W hcall (NoToken.robsGranted N c) hss).granted t).mpr ht₁
    refine ⟨by rw [hrd]; exact I.readers, fun r' => ?_⟩
    by_cases hr : r = r'
    · subst hr
      intro hf _
      have hf₀ := hfree r hf
      rcases hs with ⟨rfl, hwait⟩ | ⟨rfl, hread⟩
      · -- a reader finds a writer before it
        rw [readerWaits_enters E] at hwait
        have hsought := sought_of_readerWaits C hf₀.1 hwait
        rcases he with rfl | rfl
        · exact attended_kept (I.attended r hf₀ hsought) (fun _ h => h)
            (fun t _ => hgrant _ t (Or.inl nofun))
            (fun t => hgrant _ t (Or.inl nofun)) (hunlock r)
        · exact attended_kept (woken_attended I.core E ha
            (fun c op h => (hidle c op h).1) hwake hf₀ hwait)
            (fun _ _ => nofun)
            (fun t ht => hgrant _ t (Or.inr fun h => ht (congrArg some h)))
            (fun t => hgrant _ t (Or.inl nofun)) (hunlock r)
      · exact absurd hf₀.2 hread
    · refine I.kept (fun s' hs' => ?_) (hfree r') (hunlock r')
      have hss : s ≠ s' := by
        rcases hs with ⟨rfl, -⟩ | ⟨rfl, -⟩ <;> rcases hs' with rfl | rfl
        · exact fun h => hr (RwlSem.rdsem.inj h)
        · exact nofun
        · exact nofun
        · exact fun h => hr (RwlSem.wrsem.inj h)
      have hU := Waits.untouched W hcall (NoToken.robsGranted N c) hss
      refine ⟨le_of_eq hU.length, fun t => hgrant s' t (Or.inl ?_)⟩
      rcases he with rfl | rfl
      · exact nofun
      · exact fun h => hss (Option.some.inj h)
  | contends c r e p op tries k₁ k' o₁ ha E he hr hrob hop W hp hx hn ho =>
    have hown := E.fields.1
    obtain ⟨C₁, hcall⟩ := E.caller C
    have hrob₁ := E.robsGranted hrob
    obtain ⟨ht, O⟩ := (I.core.sems.enters E).wrmtx r
    have howned := Waits.owned W ht fun h => by
      have h1 : k₁.count (.wrmtx r) = 1 := (O.free h).1
      omega
    subst hx
    refine ⟨I.readers, fun r' => ?_⟩
    by_cases hrr : r = r'
    · subst hrr
      exact fun hf => absurd hf.1 howned
    · refine I.kept (Spared.enters E ?_ (Spared.of_untouched fun s hs => ?_))
        ?_ (unlock_kept (no_unlock ha hidle))
      · intro s hs
        rcases he with rfl | rfl
        · exact nomatch hs
        · cases hs
          exact ⟨nofun, fun h => hrr (RwlSem.wrsem.inj h)⟩
      · refine Waits.untouched W hcall hrob₁ ?_
        rcases hs with rfl | rfl <;> exact nofun
      · rintro ⟨h1, h2⟩
        have hne : RwlSem.wrmtx r ≠ RwlSem.wrmtx r' :=
          fun h => hrr (RwlSem.wrmtx.inj h)
        have h3 := (Waits.owner_same W (Or.inl hne)).2
        exact ⟨(congrFun hown _).symm.trans (h3.symm.trans h1), h2⟩
  | ends c r w s k' o₁ ha hwait hex W hs hx hn ho =>
    subst hx
    refine ⟨I.readers, fun r' => ?_⟩
    refine I.kept ?_ ?_ (unlock_kept (no_unlock ha hidle))
    · intro s' hs'
      rcases hs with ⟨rfl, -⟩ | ⟨-, hb⟩
      · have hne : RwlSem.wrmtx r ≠ s' := by
          rcases hs' with rfl | rfl <;> exact nofun
        have hU := WaitEnds.untouched W hwait hne
        exact ⟨le_of_eq hU.length, fun t => (hU.granted t).mpr⟩
      · obtain ⟨h1, h2⟩ := WaitEnds.fails (s := s') W hb
        exact ⟨h1, fun t => (h2 t).mpr⟩
    · rintro ⟨h1, h2⟩
      exact ⟨(waitEnds_owner W hwait I.core.sems r').symm.trans h1, h2⟩
  | unlocksWrite c r k₁ o₁ ha hc hown G hv hx ho =>
    subst hx
    refine ⟨I.readers, fun r' => ?_⟩
    by_cases hr : r = r'
    · subst hr
      exact fun _ _ => Or.inr (Or.inr ⟨c, Function.update_self ..⟩)
    · have hq : waitsOn (k₁.pc c) = none := by
        rw [Signals.pc G]
        exact (quiet_of_mayCall hc).1
      refine I.kept (Spared.returned (Spared.of_untouched fun s hs => ?_) hq)
        ?_ (unlock_kept (by rw [(hidle c _ ha).2]; exact nofun))
      · refine Signals.untouched G C ?_
        rcases hs with rfl | rfl <;> exact nofun
      · rintro ⟨h1, h2⟩
        have hne : RwlSem.wrmtx r ≠ RwlSem.wrmtx r' :=
          fun h => hr (RwlSem.wrmtx.inj h)
        exact ⟨((Signals.owner_same G (Or.inl hne)).2).symm.trans h1, h2⟩
  | unlocksRead c r ha hc hown hr hx hL ho =>
    subst hx hL
    have hrd : ∀ r', r ≠ r' → Function.update x.rwl.readers r
        (decr (x.rwl.readers r)) r' = x.rwl.readers r' :=
      fun r' hr' => Function.update_of_ne (Ne.symm hr') ..
    refine ⟨fun r' => ?_, fun r' => ?_⟩
    · have h0 := I.readers r'
      show 0 ≤ Function.update x.rwl.readers r (decr (x.rwl.readers r)) r'
      by_cases hr' : r = r'
      · subst hr'
        rw [Function.update_self, decr_of_gt (by omega)]
        omega
      · rw [hrd r' hr']
        exact h0
    · by_cases hr' : r = r'
      · subst hr'
        exact fun _ _ => Or.inr (Or.inr ⟨c, Function.update_self ..⟩)
      · refine I.kept (Spared.returned (fun s _ => ⟨le_rfl, fun t h => h⟩)
          (quiet_of_mayCall hc).1) ?_
          (unlock_kept (by rw [(hidle c _ ha).2]; exact nofun))
        rintro ⟨h1, h2⟩
        exact ⟨h1, (hrd r' hr').symm.trans h2⟩
  | refuses c r ha hc hown hx hL ho =>
    subst hx hL
    exact ⟨I.readers, fun r' => I.kept
      (Spared.returned (fun s _ => ⟨le_rfl, fun t h => h⟩) (quiet_of_mayCall hc).1) id
      (unlock_kept (by rw [(hidle c _ ha).2]; exact nofun))⟩
  | offers c r k₁ o₁ ha hcall hl G hx ho =>
    subst hx
    have hq : waitsOn (k₁.pc c) = none := by
      rw [Signals.pc G]
      exact (I.core.sits c _ hcall).1
    refine ⟨I.readers, fun r' => ?_⟩
    by_cases hr : r = r'
    · subst hr
      obtain ⟨u, hu⟩ := (Signals.queueStep G C (I.core.sems.wrsem r) (Or.inr hl)).2 rfl
      exact fun _ _ => Or.inr (Or.inl ⟨u, (granted_returned hq u).mpr hu⟩)
    · refine I.kept ?_ ?_ (unlock_kept ?_)
      · refine Spared.returned (Spared.of_untouched fun s hs => ?_) hq
        refine Signals.untouched G C ?_
        rcases hs with rfl | rfl
        · exact nofun
        · exact fun h => hr (RwlSem.wrsem.inj h)
      · rintro ⟨h1, h2⟩
        have hne : RwlSem.wrsem r ≠ RwlSem.wrmtx r' := nofun
        exact ⟨((Signals.owner_same G (Or.inl hne)).2).symm.trans h1, h2⟩
      · rw [hcall]
        exact fun h => hr (RwlPc.unlock.inj (Option.some.inj h))
  | announces c r k₁ k₂ ha hcall hl D hL hk hx ho =>
    subst hx hL
    have hfields := Served.fields D
    have hq : waitsOn (k₂.pc c) = none := by
      rw [hk]
      show waitsOn (k₁.pc c) = none
      rw [hfields.1]
      exact (I.core.sits c _ hcall).1
    refine ⟨I.readers, fun r' => ?_⟩
    by_cases hr : r = r'
    · subst hr
      obtain ⟨t, ht⟩ := List.exists_mem_of_ne_nil _ hl
      exact fun _ _ => Or.inl ⟨t, nofun, (granted_returned hq t).mpr (Served.grants D hk C ht)⟩
    · refine I.kept ?_ ?_ (unlock_kept ?_)
      · refine Spared.returned (Spared.of_untouched fun s hs => ?_) hq
        refine Served.untouched D hk C ?_
        rcases hs with rfl | rfl
        · exact fun h => hr (RwlSem.rdsem.inj h)
        · exact nofun
      · rintro ⟨h1, h2⟩
        have hown : k₂.owndby = x.rwl.kernel.owndby := by
          rw [hk]
          exact hfields.2.1
        exact ⟨(congrFun hown _).symm.trans h1, h2⟩
      · rw [hcall]
        exact fun h => hr (RwlPc.unlock.inj (Option.some.inj h))
  | passes c r ha hcall hl hx hL ho =>
    subst hx hL
    refine ⟨I.readers, fun r' => ?_⟩
    by_cases hr : r = r'
    · subst hr
      intro hf hs
      obtain ⟨h1, h2⟩ := hl hf
      unfold Sought at hs
      rw [h1, h2] at hs
      exact absurd rfl hs
    · refine I.kept (Spared.returned (fun s _ => ⟨le_rfl, fun t h => h⟩)
        (I.core.sits c _ hcall).1) id (unlock_kept ?_)
      rw [hcall]
      exact fun h => hr (RwlPc.unlock.inj (Option.some.inj h))
  | delays a₀ k' ha hout hd D hx hL =>
    refine ⟨by rw [hx]; exact I.readers, fun r => ?_⟩
    subst hx hL
    have hown := (Delays.sems D).2.2.2
    refine I.kept (Spared.of_untouched fun s _ => ?_) ?_ fun _ h => h
    · subst ha
      exact Delays.untouched D hkeep
    · rintro ⟨h1, h2⟩
      exact ⟨(congrFun hown _).symm.trans h1, h2⟩
  | reorders a₀ who k₁ ha hq D hx =>
    have hown := (Reorders.fields D).2.2.2.2.2.1
    have hpc := (Reorders.fields D).1
    have hsp : ∀ r, Spared x.rwl.kernel L y.kernel L' r := by
      intro r
      have hU : Spared x.rwl.kernel L k₁ L' r :=
        Spared.of_untouched fun s _ => Reorders.untouched D
      subst hx
      cases who with
      | none => exact hU
      | some c =>
        refine hU.returned ?_
        rw [hpc]
        exact (quiet_of_mayCall (hq c rfl).1).1
    have hk : y.kernel.owndby = x.rwl.kernel.owndby := by
      subst hx
      cases who with
      | none => exact hown
      | some c => exact hown
    refine ⟨by rw [hx]; exact I.readers, fun r => I.kept (hsp r) ?_ ?_⟩
    · rintro ⟨h1, h2⟩
      subst hx
      exact ⟨(congrFun hk _).symm.trans h1, h2⟩
    · subst hx
      exact fun _ h => h

end Step

/-! ## Every run -/

theorem WakeInv.step {x x' : Locking T R} {L : Head T (RwlSem R) → List T} {a : RwlAction T R}
    {o : Option (RwlRet T)} (I : WakeInv x L) (hruns : RwlRuns x.rwl a)
    (hsp : Spares x a) (hwake : LeavesWaker x.rwl a)
    (h : locking x a = some (x', o)) : ∃ L', WakeInv x' L' := by
  obtain ⟨hs, -, hwrites⟩ := locking_eq h
  obtain ⟨L', D⟩ := rwlStep_effect I.core hruns hsp.1 hs
  have hcore := Effect.core D hwrites I.core hruns hsp.2.1 hsp.2.2
  have hidle : ∀ c op, a = .call c op →
      mayCall x.rwl.kernel c = true ∧ x.rwl.call c = none := by
    rintro c op rfl
    simp only [rwlStep] at hs
    split at hs
    · next hcond =>
        rw [Bool.and_eq_true, decide_eq_true_eq] at hcond
        exact hcond
    · cases hs
  obtain ⟨h1, h2⟩ := Effect.attended D I hidle hsp.2.1 hsp.2.2 hwake
  exact ⟨L', hcore, h1, h2⟩

omit decT decR finT finR in
/-- A task that has been granted a semaphore has been woken from it. -/
theorem woken_of_granted {k : Kernel T (RwlSem R)}
    {L : Head T (RwlSem R) → List T} {s : RwlSem R} {t : T} (C : Control k L)
    (h : Granted k s t) : WokenFrom k s t := by
  refine ⟨h.1, fun hb => ?_⟩
  rcases (C.stands t).semBit hb with ⟨s', -, hq⟩ | ⟨-, hp, -⟩
  · rw [h.2] at hq
    exact nomatch hq
  · have := h.1
    rw [hp] at this
    exact nomatch this

omit decT decR finT finR in
/-- A task that is blocked on a semaphore stands in its queue. -/
theorem queued_of_sleeps {k : Kernel T (RwlSem R)}
    {L : Head T (RwlSem R) → List T} {s : RwlSem R} {t : T} (C : Control k L)
    (h : SleepsOn k s t) : t ∈ L (.sem s) := by
  refine (C.stands t).waits s h.1 fun hb => ?_
  exact (woken_of_granted C ⟨h.1, hb⟩).2 h.2

/-- **NO WAKEUP IS LOST** in every run in which a reader that has been woken
    up, and finds a writer before it although the lock is free, is not the only
    task that will look at the lock again. -/
theorem no_lost_wakeup (cfg : RwlConfig T R) (x : Locking T R) (h : Reach locking
      (fun x a => RwlRuns x.rwl a ∧ Spares x a ∧ LeavesWaker x.rwl a)
      (unlocked cfg) x) : NoLostWakeup x.rwl := by
  have hinv : ∃ L, WakeInv x L := by
    refine h.invariant (I := fun x => ∃ L, WakeInv x L)
      ⟨_, core_unlocked cfg, fun _ => le_rfl, ?_⟩ ?_
    · intro r _ hs
      exact absurd rfl hs
    · rintro x a x' o ⟨L, I⟩ ⟨hruns, hsp, hwake⟩ hx
      exact I.step hruns hsp hwake hx
  obtain ⟨L, I⟩ := hinv
  have C := I.core.sems.control
  intro r hfree hwoken hcall t
  have hnone : ¬ Sought L r := by
    intro hs
    -- somebody is on the way to the lock, whom the claim leaves out
    rcases I.attended r hfree hs with ⟨u, -, hu⟩ | ⟨u, hu⟩ | ⟨u, hu⟩
    · exact (hwoken u).1 (woken_of_granted C hu)
    · exact (hwoken u).2.1 (woken_of_granted C hu)
    · exact hcall u hu
  unfold Sought at hnone
  constructor
  · intro hsl
    have := List.length_pos_of_mem (queued_of_sleeps C hsl)
    omega
  · intro hsl
    have := List.length_pos_of_mem (queued_of_sleeps C hsl)
    omega

instance (x : Rwl T R) (r : R) (who : Option T) : Decidable (Attended x r who) :=
  haveI : ∀ s t, Decidable (Granted x.kernel s t) := fun _ _ =>
    inferInstanceAs (Decidable (_ ∧ _))
  inferInstanceAs (Decidable (_ ∨ _ ∨ _))

instance (x : Rwl T R) (a : RwlAction T R) : Decidable (LeavesWaker x a) := by
  induction a using RwlAction.casesOn with
  | go c =>
    haveI : ∀ r, Decidable (Free x r) := fun _ =>
      inferInstanceAs (Decidable (_ ∧ _))
    unfold LeavesWaker
    dsimp only
    induction x.call c using Option.casesOn with
    | none => infer_instance
    | some pc => induction pc using RwlPc.casesOn <;> infer_instance
  | _ => exact isTrue trivial

/-- Three hard tasks and a lock. -/
def threeHardTasks : RwlConfig (Fin 3) (Fin 1) where
  hard := fun _ => true
  priority := fun t => if t = 0 then 1 else if t = 1 then 5 else 3
  schedlat := fun _ => 0
  linuxSchedlat := 0
  time := 0
  type := fun _ => 1

/-- A writer waits for a reader, and gets the lock from it. -/
theorem no_lost_wakeup_handed_over : ∃ x : Locking (Fin 3) (Fin 1),
      x.rwl.kernel.owndby (.wrmtx 0) = some 2 ∧ NoLostWakeup x.rwl := by
  obtain ⟨x, hplay, ho⟩ : ∃ x, play locking
      (fun x a => RwlRuns x.rwl a ∧ Spares x a ∧ LeavesWaker x.rwl a)
      (unlocked threeHardTasks)
      [.kernel (.linux (.resume 2)), .kernel (.linux (.resume 0)),
        .kernel (.dispatch 0), .call 0 (.rdlock 0), .kernel (.dispatch 2),
        .call 2 (.wrlock 0), .kernel (.dispatch 0), .call 0 (.unlock 0),
        .go 0, .kernel (.dispatch 2), .go 2] = some x ∧
      x.rwl.kernel.owndby (.wrmtx 0) = some 2 :=
    ⟨_, rfl, rfl⟩
  exact ⟨x, ho, no_lost_wakeup threeHardTasks x (reach_of_play hplay)⟩

/-- A reader and a writer wait for a reader, which unlocks while the waiting
    reader has the higher priority; when that one runs, it has the lower one
    again. -/
def stuckRun : List (RwlAction (Fin 3) (Fin 1)) :=
  [.kernel (.linux (.resume 1)), .kernel (.linux (.resume 2)),
    .kernel (.linux (.resume 0)), .kernel (.dispatch 0), .call 0 (.rdlock 0),
    .kernel (.dispatch 2), .call 2 (.wrlock 0), .kernel (.dispatch 1),
    .call 1 (.rdlock 0), .kernel (.call 0 (.changePrio 1 2)),
    .call 0 (.unlock 0), .go 0, .kernel (.call 0 (.changePrio 1 5)), .go 1]

/-- **A FREE LOCK THAT A READER AND A WRITER WAIT FOR.** -/
theorem free_lock_waited_for : ∃ x : Locking (Fin 3) (Fin 1),
      Reach locking (fun x a => RwlRuns x.rwl a ∧ Spares x a)
        (unlocked threeHardTasks) x ∧ ¬ NoLostWakeup x.rwl := by
  obtain ⟨x, hplay, hfree, hwoken, hcall, hsleeps⟩ :
      ∃ x, play locking (fun x a => RwlRuns x.rwl a ∧ Spares x a)
        (unlocked threeHardTasks) stuckRun = some x ∧
      (x.rwl.kernel.owndby (.wrmtx 0) = none ∧ x.rwl.readers 0 = 0) ∧
      (∀ t, ¬ (waitsOn (x.rwl.kernel.pc t) ≠ none ∧ .semaphore ∉ x.rwl.kernel.state t)) ∧
      (∀ t, x.rwl.call t ≠ some (.unlock 0)) ∧
      waitsOn (x.rwl.kernel.pc 2) = some (.wrsem 0) ∧ .semaphore ∈ x.rwl.kernel.state 2 :=
    ⟨_, rfl, ⟨rfl, rfl⟩, by decide, by decide, rfl, by decide⟩
  refine ⟨x, reach_of_play hplay, fun h => ?_⟩
  have hno : ∀ s t, ¬ WokenFrom x.rwl.kernel s t := fun s t hw =>
    hwoken t ⟨by rw [hw.1]; exact nofun, hw.2⟩
  exact (h 0 hfree (fun t => ⟨hno _ t, hno _ t, hno _ t⟩) hcall 2).2 hsleeps

end RtaiRwlWakeups
