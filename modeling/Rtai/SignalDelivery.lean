import Rtai.Signals

/-! # The delivery of triggered signals

    A trigger that has found `SIGNAL_ENBIT` set wakes the handler task, if it
    sleeps; one that has not leaves `SIGNAL_PNDBIT` for the other to see.
    Here every signal is requested once and none is released. -/

namespace RtaiSignalDelivery

open RtaiRuns RtaiSignals
open RtaiKernel (Flag TaskState)

variable {G H P : Type} [decG : DecidableEq G] [decH : DecidableEq H] [decP : DecidableEq P]

/-! ## What is promised -/

/-- About to begin an execution. -/
def Ready (s : Signals G H P) (h : H) : Prop :=
  s.pc h = .asleep ∧ s.sigState h = {.ready} ∧ s.retval h = true

/-- A trigger of the signal that has yet to look at the handler task, or to
    set the pending bit. -/
def attempts (g : G) : CallerPc G H → Prop
  | .clearEn g' => g' = g
  | .read g' => g' = g
  | .exec g' _ => g' = g
  | .setPnd g' => g' = g
  | _ => False

/-- A trigger of the signal that will look at the pending bit. -/
def retries (g : G) : CallerPc G H → Prop
  | .setEn g' => g' = g
  | .testPnd g' => g' = g
  | _ => False

/-- A trigger is under way. -/
def triggers (g : G) (pc : CallerPc G H) : Prop :=
  attempts g pc ∨ retries g pc

/-- A call of `rt_trigger_signal` has been, or is about to be, followed by an
    execution of the handler. -/
def Delivered (s : Signals G H P) : Prop :=
  ∀ g, s.enbit g = true → (∀ p, ¬ triggers g (s.caller p)) →
    s.unserved g = true → ∃ h, s.sigtask g = some h ∧ Ready s h

/-- No signal is requested twice, and none is released. -/
def InUse (s : Signals G H P) : Action G H P → Prop
  | .request g _ => s.sigtask g = none
  | .release _ _ => False
  | _ => True

/-- The trigger `p` may go without an execution of its own. -/
def Covered (s : Signals G H P) (p : P) (g : G) : Prop :=
  s.unserved g = false ∨
  (∃ h, s.sigtask g = some h ∧ Ready s h) ∨
  ∃ q, q ≠ p ∧ attempts g (s.caller q)

/-- A trigger that finds the handler running leaves a pending bit to look at,
    and one that sets the pending bit leaves a trigger that will look at it,
    unless they are covered. -/
def Heeded (s : Signals G H P) : Action G H P → Prop
  | .goOn p =>
    match s.caller p with
    | .exec g (some h) =>
      0 < s.suspdepth h ∨ s.pndbit g = true ∨ Covered s p g
    | .setPnd g => (∃ q, retries g (s.caller q)) ∨ Covered s p g
    | _ => True
  | _ => True

/-! ## What keeps it -/

/-- The trigger will be served. -/
def Due (s : Signals G H P) (g : G) : Prop :=
  (∃ h, s.sigtask g = some h ∧ Ready s h) ∨
  (∃ p, attempts g (s.caller p)) ∨
  s.pndbit g = true ∧ ∃ p, retries g (s.caller p)

/-- Where a caller may stand. -/
def Calls (s : Signals G H P) : CallerPc G H → Prop
  | .idle => True
  | .clearEn g => ∃ h, s.sigtask g = some h
  | .read g => ∃ h, s.sigtask g = some h
  | .exec g h => s.sigtask g = h ∧ ∃ h, s.sigtask g = some h
  | .setEn g => ∃ h, s.sigtask g = some h
  | .setPnd _ => True
  | .testPnd g => ∃ h, s.sigtask g = some h
  | _ => False

/-- What has been triggered will be handled. -/
structure DeliveryInv (s : Signals G H P) : Prop where
  rests : ∀ h, Rests s h
  born : ∀ g h, s.sigtask g = some h → s.pc h ≠ .unborn ∧ s.signal h = g
  asked : ∀ h, s.pc h ≠ .unborn → s.sigtask (s.signal h) = some h ∧
    s.rtSignals h = true ∧ s.pc h ≠ .ended ∧
    (s.pc h = .asleep → s.suspdepth h = 0 → s.retval h = true)
  calls : ∀ p, Calls s (s.caller p)
  fresh : ∀ g, s.sigtask g = none → s.unserved g = false
  due : ∀ g, s.unserved g = true → Due s g

omit decG decH decP in
theorem Calls.mono {s s' : Signals G H P} {pc : CallerPc G H}
    (hs : ∀ g h, s.sigtask g = some h → s'.sigtask g = some h)
    (hc : Calls s pc) : Calls s' pc := by
  have hsome : ∀ g, (∃ h, s.sigtask g = some h) → ∃ h, s'.sigtask g = some h := by
    intro g ⟨h, hg⟩
    exact ⟨h, hs g h hg⟩
  cases pc with
  | clearEn g => exact hsome g hc
  | read g => exact hsome g hc
  | exec g h =>
    obtain ⟨rfl, h, hg⟩ := hc
    exact ⟨(hs g h hg).trans hg.symm, hsome g ⟨h, hg⟩⟩
  | setEn g => exact hsome g hc
  | testPnd g => exact hsome g hc
  | idle => trivial
  | setPnd g => trivial
  | relClear g => exact hc.elim
  | relRead g => exact hc.elim
  | relExec g h => exact hc.elim
  | relEnd g => exact hc.elim

omit decG decH decP in
theorem Ready.same {s s' : Signals G H P} {h : H} (hs : Same s s' h)
    (hr : Ready s h) : Ready s' h := by
  unfold Ready
  rw [hs.pc, hs.sigState, hs.retval]
  exact hr

/-- The caller `p` goes to `pc`, and the bits of `flags` may change. -/
def went (s : Signals G H P) (enbit pndbit : G → Bool) (p : P)
    (pc : CallerPc G H) : Signals G H P :=
  { s with enbit, pndbit }.goto p pc

omit decG decH in
theorem went_self (s : Signals G H P) (enbit pndbit : G → Bool) (p : P)
    (pc : CallerPc G H) : (went s enbit pndbit p pc).caller p = pc :=
  Function.update_self ..

omit decG decH in
theorem went_other (s : Signals G H P) (enbit pndbit : G → Bool) {p q : P}
    (pc : CallerPc G H) (hq : q ≠ p) :
    (went s enbit pndbit p pc).caller q = s.caller q :=
  Function.update_of_ne hq _ _

section Went

variable {s : Signals G H P} {enbit pndbit : G → Bool} {p : P} {pc : CallerPc G H} {g : G}

omit decG decH in
/-- The new place of the caller is an attempt. -/
theorem due_attempt (ha : attempts g pc) : Due (went s enbit pndbit p pc) g :=
  Or.inr (Or.inl ⟨p, (went_self s enbit pndbit p pc).symm ▸ ha⟩)

omit decG decH in
/-- The caller will look at a pending bit. -/
theorem due_retry (ha : retries g pc) (hp : pndbit g = true) :
    Due (went s enbit pndbit p pc) g :=
  Or.inr (Or.inr ⟨hp, p, (went_self s enbit pndbit p pc).symm ▸ ha⟩)

omit decG decH in
theorem Covered.due (hc : Covered s p g) (hu : s.unserved g = true) :
    Due (went s enbit pndbit p pc) g := by
  obtain hn | hr | ⟨q, hq, ha⟩ := hc
  · exact nomatch hu.symm.trans hn
  · exact Or.inl hr
  · exact Or.inr (Or.inl ⟨q, (went_other s enbit pndbit pc hq).symm ▸ ha⟩)

omit decG decH in
/-- A trigger that will be served because of another caller, or of a handler,
    still will. -/
theorem Due.kept (hd : Due s g)
    (hattempt : attempts g (s.caller p) → Due (went s enbit pndbit p pc) g)
    (hpnd : s.pndbit g = true → pndbit g = true ∨ Due (went s enbit pndbit p pc) g)
    (hretry : s.pndbit g = true → retries g (s.caller p) → Due (went s enbit pndbit p pc) g) :
    Due (went s enbit pndbit p pc) g := by
  obtain hr | ⟨q, ha⟩ | ⟨hb, q, ha⟩ := hd
  · exact Or.inl hr
  · by_cases hq : q = p
    · exact hattempt (hq ▸ ha)
    · exact Or.inr (Or.inl ⟨q, (went_other s enbit pndbit pc hq).symm ▸ ha⟩)
  · by_cases hq : q = p
    · exact hretry hb (hq ▸ ha)
    · obtain hb' | hd := hpnd hb
      · exact Or.inr (Or.inr ⟨hb', q, (went_other s enbit pndbit pc hq).symm ▸ ha⟩)
      · exact hd

omit decG decH in
theorem DeliveryInv.moved (I : DeliveryInv s) (enbit pndbit : G → Bool)
    (pc : CallerPc G H) (hc : Calls s pc)
    (hd : ∀ g, s.unserved g = true → Due (went s enbit pndbit p pc) g) :
    DeliveryInv (went s enbit pndbit p pc) where
  rests := rests_quiet I.rests (.intro rfl rfl rfl rfl rfl rfl Iff.rfl)
  born := I.born
  asked := I.asked
  calls := by
    intro q
    by_cases hq : q = p
    · subst hq
      exact (went_self s enbit pndbit q pc).symm ▸ hc.mono fun _ _ h => h
    · exact (went_other s enbit pndbit pc hq).symm ▸ (I.calls q).mono fun _ _ h => h
  fresh := I.fresh
  due := hd

end Went

omit decG decH in
/-- The caller stays an attempt, or a retry, of its signal. -/
theorem DeliveryInv.onward {s : Signals G H P} {enbit : G → Bool} {p : P}
    (I : DeliveryInv s) (pc : CallerPc G H) (hc : Calls s pc)
    (hattempt : ∀ g, attempts g (s.caller p) → attempts g pc)
    (hretry : ∀ g, retries g (s.caller p) → retries g pc) :
    DeliveryInv (went s enbit s.pndbit p pc) :=
  I.moved _ _ pc hc fun g hu => (I.due g hu).kept
    (fun ha => due_attempt (hattempt g ha)) (fun hb => Or.inl hb)
    fun hb hr => due_retry (hretry g hr) hb

omit decG decP in
/-- The handler that is woken is ready, with a true return value. -/
theorem DeliveryInv.woke {s : Signals G H P} {h : H} (I : DeliveryInv s)
    (hpc : s.pc h = .asleep) (hn : h ∉ s.started) :
    DeliveryInv (woken s h true) ∧ Ready (woken s h true) h := by
  have hrests := rests_woken true I.rests hpc hn
  have hready : Ready (woken s h true) h :=
    ⟨hpc, Function.update_self .., Function.update_self ..⟩
  refine ⟨?_, hready⟩
  have hkeep : ∀ u, Ready s u → Ready (woken s h true) u := by
    intro u hu
    by_cases hu' : u = h
    · exact hu' ▸ hready
    · exact ⟨hu.1, (Function.update_of_ne hu' _ _).trans hu.2.1,
        (Function.update_of_ne hu' _ _).trans hu.2.2⟩
  constructor
  · exact hrests
  · exact I.born
  · intro u hu
    obtain ⟨hs, hrt, hne, hret⟩ := I.asked u hu
    refine ⟨hs, hrt, hne, fun ha hd => ?_⟩
    by_cases hu' : u = h
    · exact hu' ▸ hready.2.2
    · exact (Function.update_of_ne hu' _ _).trans
        (hret ha ((Function.update_of_ne hu' _ _).symm.trans hd))
  · exact fun p => (I.calls p).mono fun _ _ h => h
  · exact I.fresh
  · intro g hu
    obtain ⟨u, hg, hr⟩ | hd := I.due g hu
    · exact Or.inl ⟨u, hg, hkeep u hr⟩
    · exact Or.inr hd

omit decG in
/-- `rt_exec_signal` by a trigger. -/
theorem DeliveryInv.exec {s : Signals G H P} {p : P} {g : G} {h : H}
    (I : DeliveryInv s) (hpc : s.caller p = .exec g (some h))
    (hg : s.sigtask g = some h)
    (hh : 0 < s.suspdepth h ∨ s.pndbit g = true ∨ Covered s p g) :
    DeliveryInv ((rtExecSignal s h true).goto p (.setEn g)) := by
  have hnone : ∀ g', retries g' (s.caller p) → False := by
    rw [hpc]
    exact fun _ => id
  have hsame : ∀ g', attempts g' (s.caller p) → g = g' := by
    rw [hpc]
    exact fun _ => id
  obtain ⟨hd, he⟩ | ⟨ha, -, hn, he⟩ := rtExecSignal_cases (I.rests h) true
  · rw [he]
    refine I.moved s.enbit s.pndbit (.setEn g) ⟨h, hg⟩ ?_
    intro g' hu
    refine (I.due g' hu).kept ?_ (fun hb => Or.inl hb) fun _ hr => (hnone g' hr).elim
    intro hat
    obtain rfl := hsame g' hat
    obtain hpos | hb | hc := hh
    · omega
    · exact due_retry rfl hb
    · exact hc.due hu
  · rw [he]
    obtain ⟨I', hr⟩ := I.woke ha hn
    refine I'.moved s.enbit s.pndbit (.setEn g) ⟨h, hg⟩ ?_
    intro g' hu
    refine (I'.due g' hu).kept ?_ (fun hb => Or.inl hb) fun _ hr => (hnone g' hr).elim
    intro hat
    obtain rfl := hsame g' hat
    exact Or.inl ⟨h, hg, hr⟩

/-- The caller leaves the loop. -/
theorem DeliveryInv.goOn {s s' : Signals G H P} {p : P} (I : DeliveryInv s)
    (hh : Heeded s (.goOn p)) (hs : goOn s p = some s') : DeliveryInv s' := by
  have hc := I.calls p
  simp only [RtaiSignals.goOn] at hs
  simp only [Heeded] at hh
  cases hpc : s.caller p with
  | idle =>
    simp only [hpc] at hs
    cases hs
  | clearEn g =>
    simp only [hpc] at hs
    rw [hpc] at hc
    have hretry : ∀ (pc : CallerPc G H) g', retries g' (s.caller p) → retries g' pc := by
      rw [hpc]
      exact fun _ _ => False.elim
    split at hs
    · refine Option.some.inj hs ▸ I.onward (.read g) hc ?_ (hretry _)
      rw [hpc]
      exact fun _ => id
    · refine Option.some.inj hs ▸ I.onward (.setPnd g) trivial ?_ (hretry _)
      rw [hpc]
      exact fun _ => id
  | read g =>
    simp only [hpc] at hs
    rw [hpc] at hc
    refine Option.some.inj hs ▸ I.onward (.exec g (s.sigtask g)) ⟨rfl, hc⟩ ?_ ?_
    · rw [hpc]
      exact fun _ => id
    · rw [hpc]
      exact fun _ => False.elim
  | exec g h =>
    rw [hpc] at hc
    obtain ⟨rfl, h, hg⟩ := hc
    simp only [hpc, hg] at hs hh
    have hne := (I.asked h (I.born g h hg).1).2.2.1
    simp only [follow, if_neg hne] at hs
    exact Option.some.inj hs ▸ I.exec (hpc.trans (by rw [hg])) hg hh
  | setEn g =>
    simp only [hpc] at hs
    rw [hpc] at hc
    refine Option.some.inj hs ▸ I.onward (.testPnd g) hc ?_ ?_
    · rw [hpc]
      exact fun _ => False.elim
    · rw [hpc]
      exact fun _ => id
  | setPnd g =>
    simp only [hpc] at hs hh
    refine Option.some.inj hs ▸
      I.moved s.enbit (Function.update s.pndbit g true) .idle trivial ?_
    intro g' hu
    refine (I.due g' hu).kept ?_ ?_ ?_
    · rw [hpc]
      rintro rfl
      obtain ⟨q, hr⟩ | hc := hh
      · refine Or.inr (Or.inr ⟨Function.update_self .., q, ?_⟩)
        by_cases hq : q = p
        · rw [hq, hpc] at hr
          exact hr.elim
        · exact (went_other s _ _ _ hq).symm ▸ hr
      · exact hc.due hu
    · intro hb
      refine Or.inl ?_
      by_cases hg : g' = g
      · rw [hg, Function.update_self]
      · rw [Function.update_of_ne hg, hb]
    · rw [hpc]
      exact fun _ => False.elim
  | testPnd g =>
    simp only [hpc] at hs
    rw [hpc] at hc
    have hnone : ∀ g', attempts g' (s.caller p) → False := by
      rw [hpc]
      exact fun _ => id
    have hsame : ∀ g', retries g' (s.caller p) → g = g' := by
      rw [hpc]
      exact fun _ => id
    split at hs
    · refine Option.some.inj hs ▸
        I.moved s.enbit (Function.update s.pndbit g false) (.clearEn g) hc ?_
      intro g' hu
      refine (I.due g' hu).kept (fun ha => (hnone g' ha).elim) ?_ ?_
      · intro hb
        by_cases hg : g = g'
        · exact Or.inr (due_attempt hg)
        · exact Or.inl ((Function.update_of_ne (Ne.symm hg) _ _).trans hb)
      · exact fun _ hr => due_attempt (hsame g' hr)
    · next hb =>
      refine Option.some.inj hs ▸ I.moved s.enbit s.pndbit .idle trivial ?_
      intro g' hu
      refine (I.due g' hu).kept (fun ha => (hnone g' ha).elim) (fun hb => Or.inl hb) ?_
      intro hb' hr
      exact absurd (hsame g' hr ▸ hb') hb
  | relClear g =>
    rw [hpc] at hc
    exact hc.elim
  | relRead g =>
    rw [hpc] at hc
    exact hc.elim
  | relExec g h =>
    rw [hpc] at hc
    exact hc.elim
  | relEnd g =>
    rw [hpc] at hc
    exact hc.elim

omit decH in
theorem DeliveryInv.called {s : Signals G H P} {p : P} {g : G} {h : H}
    (I : DeliveryInv s) (hf : s.caller p = .idle) (hg : s.sigtask g = some h) :
    DeliveryInv ({ s with
      unserved := Function.update s.unserved g true }.goto p (.clearEn g)) := by
  have hcaller : (s.goto p (.clearEn g)).caller p = .clearEn g :=
    Function.update_self ..
  have hother : ∀ q, q ≠ p → (s.goto p (.clearEn g)).caller q = s.caller q :=
    fun q hq => Function.update_of_ne hq _ _
  -- an idle caller was neither an attempt nor a retry
  have hkeep : ∀ g', Due s g' → Due (s.goto p (.clearEn g)) g' := by
    intro g' hd
    have hkept : Due (went s s.enbit s.pndbit p (.clearEn g)) g' :=
      hd.kept (by rw [hf]; exact False.elim) (fun hb => Or.inl hb)
        (by rw [hf]; exact fun _ => False.elim)
    exact hkept
  constructor
  · exact rests_quiet I.rests (.intro rfl rfl rfl rfl rfl rfl Iff.rfl)
  · exact I.born
  · exact I.asked
  · intro q
    by_cases hq : q = p
    · subst hq
      exact hcaller.symm ▸ (⟨h, hg⟩ : Calls s (.clearEn g))
    · exact (hother q hq).symm ▸ (I.calls q).mono fun _ _ h => h
  · intro g' hn
    have hg' : g' ≠ g := by
      rintro rfl
      exact nomatch hg.symm.trans hn
    exact (Function.update_of_ne hg' _ _).trans (I.fresh g' hn)
  · intro g' hu
    by_cases hg' : g' = g
    · exact Or.inr (Or.inl ⟨p, hcaller.symm ▸ hg'.symm⟩)
    · exact hkeep g' (I.due g' ((Function.update_of_ne hg' _ _).symm.trans hu))

/-- `rt_request_signal_` -/
def requested (s : Signals G H P) (g : G) (h : H) : Signals G H P :=
  { s with
    enbit := Function.update s.enbit g true
    pndbit := Function.update s.pndbit g false
    sigtask := Function.update s.sigtask g (some h)
    rtSignals := Function.update s.rtSignals h true
    signal := Function.update s.signal h g
    pc := Function.update s.pc h .test }

omit decP in
theorem DeliveryInv.asks {s : Signals G H P} {g : G} {h : H}
    (I : DeliveryInv s) (hpc : s.pc h = .unborn) (hg : s.sigtask g = none) :
    DeliveryInv (requested s g h) := by
  have hd := (I.rests h).awake (by rw [hpc]; exact nofun)
  have hpch : (requested s g h).pc h = .test := Function.update_self ..
  have hsigh : (requested s g h).signal h = g := Function.update_self ..
  have htaskg : (requested s g h).sigtask g = some h := Function.update_self ..
  have hrth : (requested s g h).rtSignals h = true := Function.update_self ..
  have hpcu : ∀ u, u ≠ h → (requested s g h).pc u = s.pc u :=
    fun u hu => Function.update_of_ne hu _ _
  have hsigu : ∀ u, u ≠ h → (requested s g h).signal u = s.signal u :=
    fun u hu => Function.update_of_ne hu _ _
  have hrtu : ∀ u, u ≠ h → (requested s g h).rtSignals u = s.rtSignals u :=
    fun u hu => Function.update_of_ne hu _ _
  have htask : ∀ g', g' ≠ g → (requested s g h).sigtask g' = s.sigtask g' :=
    fun g' hg' => Function.update_of_ne hg' _ _
  have hpnd : ∀ g', g' ≠ g → (requested s g h).pndbit g' = s.pndbit g' :=
    fun g' hg' => Function.update_of_ne hg' _ _
  have hkept : ∀ g' u, s.sigtask g' = some u → (requested s g h).sigtask g' = some u := by
    intro g' u hu
    have hg' : g' ≠ g := by
      rintro rfl
      exact nomatch hg.symm.trans hu
    exact (htask g' hg').trans hu
  have hborn : ∀ u, s.pc u ≠ .unborn → u ≠ h := by
    rintro u hu rfl
    exact hu hpc
  constructor
  · have hr : ∀ u, Rests { s with pc := Function.update s.pc h .test } u :=
      rests_goto I.rests hd.1 hd.2 (.inl rfl)
    exact rests_quiet hr (.intro rfl rfl rfl rfl rfl rfl Iff.rfl)
  · intro g' u hu
    by_cases hg' : g' = g
    · rw [hg', htaskg] at hu
      obtain rfl := Option.some.inj hu
      rw [hpch, hsigh]
      exact ⟨nofun, hg'.symm⟩
    · rw [htask g' hg'] at hu
      have hold := I.born g' u hu
      rw [hpcu u (hborn u hold.1), hsigu u (hborn u hold.1)]
      exact hold
  · intro u hu
    by_cases hne : u = h
    · rw [hne, hsigh, hpch]
      exact ⟨htaskg, hrth, nofun, nofun⟩
    · rw [hpcu u hne] at hu
      rw [hsigu u hne, hpcu u hne, hrtu u hne]
      obtain ⟨hs, hold⟩ := I.asked u hu
      exact ⟨hkept _ u hs, hold⟩
  · exact fun q => (I.calls q).mono hkept
  · intro g' hn
    have hg' : g' ≠ g := by
      rintro rfl
      exact nomatch htaskg.symm.trans hn
    exact I.fresh g' ((htask g' hg').symm.trans hn)
  · intro g' hu
    have hg' : g' ≠ g := by
      rintro rfl
      exact nomatch (I.fresh g' hg).symm.trans hu
    obtain ⟨u, hsig, hr⟩ | ha | ⟨hb, hr⟩ := I.due g' hu
    · have hne := hborn u (I.born g' u hsig).1
      exact Or.inl ⟨u, hkept g' u hsig, (hpcu u hne).trans hr.1, hr.2⟩
    · exact Or.inr (Or.inl ha)
    · exact Or.inr (Or.inr ⟨(hpnd g' hg').trans hb, hr⟩)

omit decG decP in
/-- One handler task goes on, and no trigger waits for it. -/
theorem DeliveryInv.apart {s s' : Signals G H P} {h : H} (I : DeliveryInv s)
    (hrests : ∀ u, Rests s' u) (hother : ∀ u, u ≠ h → Same s s' u)
    (hsigtask : s'.sigtask = s.sigtask) (hrt : s'.rtSignals = s.rtSignals)
    (hsignal : s'.signal = s.signal) (hcaller : s'.caller = s.caller)
    (hpnd : s'.pndbit = s.pndbit) (hpc : s.pc h ≠ .unborn)
    {pc : HandlerPc} (hpc' : s'.pc h = pc) (hlive : pc ≠ .unborn ∧ pc ≠ .ended)
    (hdepth : pc = .asleep → s'.suspdepth h ≠ 0)
    (hun : ∀ g, s'.unserved g = true → s.unserved g = true ∧
      (s.sigtask g = some h → ¬ Ready s h)) : DeliveryInv s' := by
  constructor
  · exact hrests
  · intro g u hu
    rw [hsigtask] at hu
    have hold := I.born g u hu
    rw [hsignal]
    by_cases hne : u = h
    · exact ⟨hne ▸ hpc' ▸ hlive.1, hold.2⟩
    · exact ⟨(hother u hne).pc ▸ hold.1, hold.2⟩
  · intro u hu
    rw [hsigtask, hsignal, hrt]
    by_cases hne : u = h
    · subst hne
      obtain ⟨hs, hr, -⟩ := I.asked u hpc
      exact ⟨hs, hr, hpc' ▸ hlive.2, fun ha h0 =>
        absurd h0 (hdepth (hpc'.symm.trans ha))⟩
    · have hsame := hother u hne
      rw [hsame.pc] at hu
      rw [hsame.pc, hsame.suspdepth, hsame.retval]
      exact I.asked u hu
  · intro q
    rw [hcaller]
    exact (I.calls q).mono fun g u hu => hsigtask.symm ▸ hu
  · intro g hn
    rw [hsigtask] at hn
    have hold := I.fresh g hn
    cases hu : s'.unserved g with
    | false => rfl
    | true => exact nomatch hold.symm.trans (hun g hu).1
  · intro g hu
    obtain ⟨hu, hnot⟩ := hun g hu
    obtain ⟨u, hsig, hr⟩ | hd := I.due g hu
    · have hne : u ≠ h := by
        rintro rfl
        exact hnot hsig hr
      exact Or.inl ⟨u, hsigtask.symm ▸ hsig, hr.same (hother u hne)⟩
    · refine Or.inr ?_
      rw [hcaller, hpnd]
      exact hd

omit decP in
/-- The handler task goes on. -/
theorem DeliveryInv.ran {s s' : Signals G H P} {h : H} (I : DeliveryInv s)
    (hs : Runs s h s') : DeliveryInv s' := by
  have hrests := rests_runs I.rests hs
  have hothers : ∀ (pc : HandlerPc) u, u ≠ h → Function.update s.pc h pc u = s.pc u :=
    fun pc u hu => Function.update_of_ne hu pc s.pc
  have hself : ∀ pc : HandlerPc, Function.update s.pc h pc h = pc :=
    fun pc => Function.update_self h pc s.pc
  cases hs with
  | entered hpc =>
    refine I.apart hrests (fun u hu => ⟨hothers .wait u hu, rfl, rfl, rfl, Iff.rfl⟩)
      rfl rfl rfl rfl rfl (by rw [hpc]; exact nofun) (hself _) ⟨nofun, nofun⟩
      nofun ?_
    exact fun g hu => ⟨hu, fun _ hr => nomatch hpc.symm.trans hr.1⟩
  | left hpc hrt =>
    have ha := (I.asked h (by rw [hpc]; exact nofun)).2.1
    exact nomatch hrt.symm.trans ha
  | slept hpc =>
    refine I.apart hrests ?_ rfl rfl rfl rfl rfl (by rw [hpc]; exact nofun)
      (hself .asleep) ⟨nofun, nofun⟩ ?_ ?_
    · intro u hu
      exact ⟨hothers .asleep u hu, Function.update_of_ne hu _ _,
        Function.update_of_ne hu _ _, rfl, mem_erase_other hu⟩
    · intro _
      show Function.update s.suspdepth h 1 h ≠ 0
      rw [Function.update_self]
      decide
    · exact fun g hu => ⟨hu, fun _ hr => nomatch hpc.symm.trans hr.1⟩
  | began hpc hd =>
    refine I.apart hrests (fun u hu => ⟨hothers .handler u hu, rfl, rfl, rfl, Iff.rfl⟩)
      rfl rfl rfl rfl rfl (by rw [hpc]; exact nofun) (hself _) ⟨nofun, nofun⟩
      nofun ?_
    intro g hu
    have hu : Function.update s.unserved (s.signal h) false g = true := hu
    have hg : g ≠ s.signal h := by
      rintro rfl
      rw [Function.update_self] at hu
      exact nomatch hu
    rw [Function.update_of_ne hg] at hu
    exact ⟨hu, fun hsig => absurd (I.born g h hsig).2.symm hg⟩
  | released hpc hd hst =>
    obtain ⟨h1, -, -⟩ | ⟨-, -, hret⟩ := (I.rests h).asleep hpc
    · exact absurd (hd.symm.trans h1) (by decide)
    · have ha := (I.asked h (by rw [hpc]; exact nofun)).2.2.2 hpc hd
      exact absurd (hret.mp ha) hst
  | returned hpc =>
    refine I.apart hrests (fun u hu => ⟨hothers .test u hu, rfl, rfl, rfl, Iff.rfl⟩)
      rfl rfl rfl rfl rfl (by rw [hpc]; exact nofun) (hself _) ⟨nofun, nofun⟩
      nofun ?_
    exact fun g hu => ⟨hu, fun _ hr => nomatch hpc.symm.trans hr.1⟩

theorem DeliveryInv.step {s s' : Signals G H P} {a : Action G H P} {o : Unit}
    (I : DeliveryInv s) (hg : InUse s a ∧ Heeded s a)
    (hs : signalStep s a = some (s', o)) : DeliveryInv s' := by
  have hsteps := signalStep_steps I.rests hs
  simp only [signalStep] at hs
  split at hs
  · cases hs
  cases a with
  | request g h =>
    by_cases hpc : s.pc h = .unborn
    · simp only [if_pos hpc] at hs
      cases hs
      exact I.asks hpc hg.1
    · simp only [if_neg hpc] at hs
      cases hs
  | trigger p g =>
    simp only at hs
    split at hs
    · next hf =>
      split at hs
      · cases hs
        exact I
      · next h hsig =>
        cases hs
        have hidle : s.caller p = .idle := by
          simp only [free] at hf
          split at hf
          · assumption
          · cases hf
        exact I.called hidle hsig
    · cases hs
  | release p g => exact hg.1.elim
  | enable p g =>
    simp only at hs
    split at hs
    · cases hs
      exact ⟨rests_step I.rests hsteps, I.born, I.asked,
        fun q => (I.calls q).mono fun _ _ h => h, I.fresh, I.due⟩
    · cases hs
  | disable p g =>
    simp only at hs
    split at hs
    · cases hs
      exact ⟨rests_step I.rests hsteps, I.born, I.asked,
        fun q => (I.calls q).mono fun _ _ h => h, I.fresh, I.due⟩
    · cases hs
  | goOn p =>
    obtain ⟨t, ht, he⟩ := Option.map_eq_some_iff.mp hs
    cases he
    exact I.goOn hg.2 ht
  | run h =>
    cases hsteps with
    | woke ha => exact absurd rfl (ha h)
    | ran hr => exact I.ran hr
  | elsewhere state =>
    simp only at hs
    split at hs
    · cases hs
      exact ⟨rests_step I.rests hsteps, I.born, I.asked,
        fun q => (I.calls q).mono fun _ _ h => h, I.fresh, I.due⟩
    · cases hs

omit decG decH decP in
theorem DeliveryInv.delivered {s : Signals G H P} (I : DeliveryInv s) :
    Delivered s := by
  intro g _ hnone hu
  obtain hr | ⟨p, ha⟩ | ⟨-, p, hr⟩ := I.due g hu
  · exact hr
  · exact absurd (Or.inl ha) (hnone p)
  · exact absurd (Or.inr hr) (hnone p)

omit decG decH decP in
theorem deliveryInv_unsignalled (signal : H → G) :
    DeliveryInv (unsignalled signal : Signals G H P) where
  rests := rests_unsignalled signal
  born := nofun
  asked := fun _ h => absurd rfl h
  calls := fun _ => trivial
  fresh := fun _ _ => rfl
  due := nofun

/-- **Triggered signals are delivered**, in every run in which each trigger is
    heeded. -/
theorem triggers_delivered (signal : H → G) (s : Signals G H P)
    (hs : Reach signalStep (fun s a => InUse s a ∧ Heeded s a)
      (unsignalled signal) s) : Delivered s :=
  (hs.invariant (deliveryInv_unsignalled signal) fun _ _ _ _ I hP ht => I.step hP ht).delivered

instance (s : Signals (Fin 1) (Fin 1) (Fin 1)) (a : Action (Fin 1) (Fin 1) (Fin 1)) :
    Decidable (InUse s a) :=
  match a with
  | .request _ _ => inferInstanceAs (Decidable (_ = _))
  | .release _ _ => isFalse id
  | .trigger _ _ => isTrue trivial
  | .enable _ _ => isTrue trivial
  | .disable _ _ => isTrue trivial
  | .goOn _ => isTrue trivial
  | .run _ => isTrue trivial
  | .elsewhere _ => isTrue trivial

/-- A trigger while the handler runs. -/
def triggeredRun : List (Action (Fin 1) (Fin 1) (Fin 1)) :=
  [Action.request 0 0, .run 0, .run 0, .trigger 0 0] ++
    List.replicate 5 (Action.goOn 0) ++ [Action.run 0, .trigger 0 0] ++
    List.replicate 5 (Action.goOn 0)

/-- **A TRIGGER IS LOST**: the signal is enabled and no trigger is in progress,
    but the handler will sleep when it comes back to wait. -/
theorem trigger_lost : ∃ s : Signals (Fin 1) (Fin 1) (Fin 1),
      Reach signalStep InUse (unsignalled fun _ => 0) s ∧ s.pc 0 = .handler ∧
      ¬ Delivered s := by
  obtain ⟨s, hplay, hpc, hen, hcaller, hun⟩ : ∃ s, play signalStep InUse
      (unsignalled fun _ => 0) triggeredRun = some s ∧ s.pc 0 = .handler ∧
      s.enbit 0 = true ∧ s.caller 0 = .idle ∧ s.unserved 0 = true :=
    ⟨_, rfl, rfl, rfl, rfl, rfl⟩
  refine ⟨s, reach_of_play hplay, hpc, fun hd => ?_⟩
  obtain ⟨h, -, hr⟩ := hd 0 hen (by
    intro p
    fin_cases p
    show ¬ triggers 0 (s.caller 0)
    rw [hcaller]
    exact fun ht => ht.elim id id) hun
  fin_cases h
  exact nomatch hpc.symm.trans hr.1

/-- A trigger while the handler sleeps. -/
theorem triggers_delivered_asleep : ∃ s : Signals (Fin 1) (Fin 1) (Fin 1), s.caller 0 = .idle ∧
      s.unserved 0 = true ∧ Delivered s := by
  refine ⟨_, ?_, ?_, triggers_delivered (fun _ => 0) _ (((((((((((Reach.refl _).tail
      (a := .request 0 0) (o := ()) ⟨rfl, trivial⟩ rfl).tail
      (a := .run 0) (o := ()) ⟨trivial, trivial⟩ rfl).tail
      (a := .run 0) (o := ()) ⟨trivial, trivial⟩ rfl).tail
      (a := .trigger 0 0) (o := ()) ⟨trivial, trivial⟩ rfl).tail
      (a := .goOn 0) (o := ()) (by exact ⟨trivial, trivial⟩) rfl).tail
      (a := .goOn 0) (o := ()) (by exact ⟨trivial, trivial⟩) rfl).tail
      (a := .goOn 0) (o := ()) (by exact ⟨trivial, Or.inl (by decide)⟩) rfl).tail
      (a := .goOn 0) (o := ()) (by exact ⟨trivial, trivial⟩) rfl).tail
      (a := .goOn 0) (o := ()) (by exact ⟨trivial, trivial⟩) rfl))⟩
  · rfl
  · rfl

end RtaiSignalDelivery
