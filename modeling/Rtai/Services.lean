import Rtai.SemControl

/-! # What the other services do

    Suspending, resuming, unblocking and delaying tasks, the timer and the
    Linux side of soft tasks change scheduling data, `running`, and
    `blocked_on` of the task they are about.  Only a resume and an unblock
    write the `blocked_on` of a task that may be waiting. -/

namespace RtaiServices

open RtaiKernel RtaiSchedCore RtaiTaskApi RtaiSched RtaiSteps RtaiFrames
  RtaiControl RtaiSemEffects RtaiSemControl

variable {T S : Type} [decT : DecidableEq T] [decS : DecidableEq S] [finT : Fintype T]
  [finS : Fintype S]

/-! ## Which actions these are -/

/-- A service that is about no semaphore, no message and no priority. -/
def delaysOp {T S : Type} : Op T S → Bool
  | .suspend _ => true
  | .suspendUntil _ _ => true
  | .resume _ => true
  | .unblock _ _ => true
  | .makePeriodic _ _ _ => true
  | .waitPeriod _ => true
  | .setResumeTime _ _ => true
  | .sleep _ _ => true
  | .sleepUntil _ => true
  | _ => false

/-- A task that suspended or delayed itself. -/
def delayed {T S : Type} : Pc T S → Bool
  | .suspend => true
  | .suspendUntil => true
  | .sleep => true
  | _ => false

/-- An action that is about no semaphore, no message and no priority. -/
def delays (k : Kernel T S) : Action T S → Bool
  | .call _ op => delaysOp op
  | .cont c => delayed (k.pc c)
  | .linux op => delaysOp op
  | _ => true

/-- In no wait and in no messaging call. -/
def Quiet {T S : Type} (p : Pc T S) : Prop :=
  waitsOn p = none ∧ sendsTo p = none ∧ receiving p = false

omit decT decS finT finS in
theorem quiet_of_delayed {p : Pc T S} (h : delayed p = true) : Quiet p := by
  cases p <;> first | exact ⟨rfl, rfl, rfl⟩ | exact nomatch h

omit finT finS in
theorem quiet_of_mayCall {k : Kernel T S} {c : T} (h : mayCall k c = true) :
    Quiet (k.pc c) := by
  unfold mayCall at h
  rw [Bool.and_eq_true, decide_eq_true_eq] at h
  rw [h.2]
  split <;> exact ⟨rfl, rfl, rfl⟩

/-! ## Effects -/

/-- The task that a service suspends. -/
def suspendsOp {T S : Type} : Op T S → Option T
  | .suspend t => some t
  | .suspendUntil t _ => some t
  | _ => none

/-- What a service does to the kernel before it returns. -/
inductive Serves (k : Kernel T S) (op : Op T S) (k' : Kernel T S) : Prop where
  | still (hk : Still k k')
  /-- A resume of a task that is not suspended, or a suspend with which the
      depth goes round. -/
  | owed (t : T) (n : Int) (hop : op = .resume t ∧ k.suspdepth t ≤ 0 ∨
        suspendsOp op = some t ∧ k.suspdepth t = 2 ^ 31 - 1)
      (hk : k' = { k with suspdepth := Function.update k.suspdepth t n })
  | resumed (t : T) (hop : op = .resume t) (hd : k.suspdepth t = 1)
      (hs : k.state t \ {.suspended, .delayed} = {.ready})
      (hk : Still { k with
        blockedOn := Function.update k.blockedOn t .null } k')
  | unblocked (t : T) (mask : TaskState) (hop : op = .unblock t mask)
      (hne : k.state t ≠ {.ready}) (hs : k.state t \ mask = {.ready})
      (hk : Still { k with
        state := Function.update k.state t {.ready}
        blockedOn := Function.update k.blockedOn t .unblkd } k')

/-- The effect of an action that is about no semaphore, no message and no
    priority. -/
inductive Delays (k : Kernel T S) (a : Action T S) (k' : Kernel T S) :
    Prop where
  | linux (op : Op T S) (ha : a = .linux op) (hs : Serves k op k')
  | call (c : T) (op : Op T S) (k₁ : Kernel T S) (ha : a = .call c op)
      (hc : mayCall k c = true) (hs : Serves k op k₁)
      (hk : k' = returned k₁ c)
  | blocks (c : T) (op : Op T S) (b : BlockedOn T S) (p : Pc T S)
      (ha : a = .call c op) (hc : mayCall k c = true)
      (hb : b = .self c ∨ b = .null) (hp : delayed p = true)
      (hk : Still { k with
        blockedOn := Function.update k.blockedOn c b
        pc := Function.update k.pc c p } k')
  | ends (c : T) (ha : a = .cont c) (hex : executes k c = true)
      (hp : delayed (k.pc c) = true) (hk : k' = returned k c)
  | dispatch (t : T) (ha : a = .dispatch t) (hr : k.state t = {.ready})
      (hk : k' = { k with running := Function.update k.running t 1 })
  | starts (t : T) (ha : a = .softEnter t ∨ a = .softEntered t)
      (hst : Disjoint (k.state t) blocking)
      (hp : k.pc t = .idle)
      (hk : Still { k with pc := Function.update k.pc t .start } k')
  | still (hk : Still k k')

/-! ## The services have these effects -/

omit decS finT finS in
/-- One more suspend. -/
theorem Serves.suspended {k : Kernel T S} {op : Op T S} {t : T}
    (hop : suspendsOp op = some t) :
    Serves k op { k with
      suspdepth := Function.update k.suspdepth t (incr (k.suspdepth t)) } := by
  by_cases hn : k.suspdepth t = 2 ^ 31 - 1
  · exact .owed t _ (Or.inr ⟨hop, hn⟩) rfl
  · refine .still (Still.setDepth k t fun h => ?_)
    rw [incr, if_neg hn]
    omega

theorem rtTaskSuspend_effect {k : Kernel T S} {who : Option T} {t : T}
    {r : Outcome T S} (h : rtTaskSuspend k who t = some r) :
    (∃ v, r.2 = some v ∧ Serves k (.suspend t) r.1) ∨
    (who = some t ∧ r.2 = none ∧ Still { k with
      blockedOn := Function.update k.blockedOn t (.self t)
      pc := Function.update k.pc t .suspend } r.1) := by
  unfold rtTaskSuspend at h
  split at h
  · cases h
    exact Or.inl ⟨_, rfl, .still (Still.refl k)⟩
  · split at h
    · dsimp only at h
      have h1 : Still k { k with
          suspdepth := Function.update k.suspdepth t 1 } :=
        Still.setDepth k t fun _ => by decide
      split at h
      · next hw =>
          cases h
          refine Or.inr ⟨hw, rfl, ?_⟩
          have h2 : Still { k with
              blockedOn := Function.update k.blockedOn t (.self t) }
              { k with
                suspdepth := Function.update k.suspdepth t 1
                blockedOn := Function.update k.blockedOn t (.self t) } :=
            Still.setDepth _ t fun _ => by decide
          have h3 := (h2.trans (Still.remReadyCurrent _ t)).trans
            (Still.set _ t (by decide : Disjoint {.suspended} blocking))
          exact still_pc h3 t .suspend
      · cases h
        refine Or.inl ⟨_, rfl, ?_⟩
        exact .still (((h1.trans (Still.remReadyTask _ t)).trans
          (Still.remTimedTask _ t)).trans (Still.set _ t (by decide)))
    · cases h
      exact Or.inl ⟨_, rfl, .suspended rfl⟩

theorem rtTaskSuspendUntil_effect {k : Kernel T S} {who : Option T} {t : T}
    {time : Int} {r : Outcome T S}
    (h : rtTaskSuspendUntil k who t time = some r) :
    (∃ v, r.2 = some v ∧ Serves k (.suspendUntil t time) r.1) ∨
    (who = some t ∧ r.2 = none ∧ Still { k with
      blockedOn := Function.update k.blockedOn t (.self t)
      pc := Function.update k.pc t .suspendUntil } r.1) := by
  unfold rtTaskSuspendUntil at h
  split at h
  · cases h
    exact Or.inl ⟨_, rfl, .still (Still.refl k)⟩
  · split at h
    · dsimp only at h
      have h1 : Still k { k with
          resumeTime := Function.update k.resumeTime t time } :=
        Still.times k k.timeH _ k.periodicResumeTime k.period k.resyncFrame
      split at h
      · have h2 := h1.trans (Still.setDepth _ t (d := 1) fun _ => by decide)
        split at h
        · next hw =>
            obtain ⟨k₁, he, h⟩ := Option.bind_eq_some_iff.mp h
            cases h
            refine Or.inr ⟨hw, rfl, ?_⟩
            have h3 : Still { k with
                blockedOn := Function.update k.blockedOn t (.self t) }
                { k with
                  resumeTime := Function.update k.resumeTime t time
                  suspdepth := Function.update k.suspdepth t 1
                  blockedOn := Function.update k.blockedOn t (.self t) } :=
              (Still.times _ k.timeH _ k.periodicResumeTime k.period
                k.resyncFrame).trans (Still.setDepth _ t fun _ => by decide)
            have h4 := ((h3.trans (Still.remReadyCurrent _ t)).trans
              (enqTimedTask_still he)).trans (Still.set k₁ t
                (by decide : Disjoint {.suspended, .delayed} blocking))
            exact still_pc h4 t .suspendUntil
        · have h3 := h2.trans (Still.remReadyTask _ t)
          split at h
          · cases h
            exact Or.inl ⟨_, rfl, .still (h3.trans (Still.set _ t (by decide)))⟩
          · obtain ⟨k₁, he, h⟩ := Option.bind_eq_some_iff.mp h
            cases h
            exact Or.inl ⟨_, rfl, .still ((h3.trans (enqTimedTask_still he)).trans
              (Still.set k₁ t (by decide)))⟩
      · cases h
        exact Or.inl ⟨_, rfl, .still h1⟩
    · cases h
      exact Or.inl ⟨_, rfl, .suspended rfl⟩

omit decS finS in
theorem rtTaskResume_effect {k : Kernel T S} {t : T} {r : Outcome T S}
    (h : rtTaskResume k t = some r) :
    ∃ v, r.2 = some v ∧ Serves k (.resume t) r.1 := by
  unfold rtTaskResume at h
  split at h
  · cases h
    exact ⟨_, rfl, .still (Still.refl k)⟩
  · dsimp only at h
    split at h
    · next hd =>
        rw [Function.update_self] at hd
        have hd' : k.suspdepth t = 1 := decr_eq_zero.mp hd
        have h1 : ∀ k₁ : Kernel T S, Still k₁ { k₁ with
            suspdepth := Function.update k₁.suspdepth t (decr (k.suspdepth t)) } :=
          fun k₁ => Still.setDepth k₁ t fun _ => hd.ge
        generalize hk₁ : remTimedTask { k with
          suspdepth := Function.update k.suspdepth t (decr (k.suspdepth t)) } t =
          k₁ at h
        have hsame : ∃ tm, k₁ = { k with
            suspdepth := Function.update k.suspdepth t (decr (k.suspdepth t))
            timed := tm } := by
          rw [← hk₁]
          unfold remTimedTask
          split
          · exact ⟨_, rfl⟩
          · exact ⟨_, rfl⟩
        obtain ⟨tm, rfl⟩ := hsame
        split at h
        · next hready =>
            obtain ⟨k₂, he, h⟩ := Option.bind_eq_some_iff.mp h
            cases h
            refine ⟨_, rfl, .resumed t rfl hd' ?_ ?_⟩
            · dsimp only at hready
              rw [Function.update_self] at hready
              exact hready
            · have h2 : Still { k with
                  blockedOn := Function.update k.blockedOn t .null }
                  { k with
                    suspdepth :=
                      Function.update k.suspdepth t (decr (k.suspdepth t))
                    timed := tm
                    blockedOn := Function.update k.blockedOn t .null } :=
                (h1 _).trans (Still.timed _ _)
              have h3 := h2.trans (Still.clear _ t {.suspended, .delayed})
              exact h3.trans (enqReadyTask_still he hready)
        · cases h
          exact ⟨_, rfl, .still (((h1 k).trans (Still.timed _ tm)).trans (Still.clear _ t _))⟩
    · next hd =>
        cases h
        rw [Function.update_self] at hd
        by_cases hpos : k.suspdepth t ≤ 0
        · exact ⟨_, rfl, .owed t _ (Or.inl ⟨rfl, hpos⟩) rfl⟩
        · refine ⟨_, rfl, .still (Still.setDepth k t fun _ => ?_)⟩
          rw [decr_of_gt (by omega)]
          omega

omit decS finS in
theorem rtTaskMaskedUnblock_effect {k : Kernel T S} {t : T} {mask : TaskState}
    {r : Outcome T S} (h : rtTaskMaskedUnblock k t mask = some r) :
    ∃ v, r.2 = some v ∧ Serves k (.unblock t mask) r.1 := by
  unfold rtTaskMaskedUnblock at h
  split at h
  · cases h
    exact ⟨_, rfl, .still (Still.refl k)⟩
  · split at h
    · next hst =>
        dsimp only at h
        generalize hk₁ : (if .delayed ∈ mask then remTimedTask k t else k) = k₁ at h
        have htm : ∃ tm, k₁ = { k with timed := tm } := by
          rw [← hk₁]
          unfold remTimedTask
          split
          · split
            · exact ⟨_, rfl⟩
            · exact ⟨_, rfl⟩
          · exact ⟨_, rfl⟩
        obtain ⟨tm, rfl⟩ := htm
        dsimp only at h
        generalize hk₂ : (if .suspended ∈ mask ∧ .suspended ∈ k.state t ∧
            k.suspdepth t > 0 then
            { k with
              timed := tm
              suspdepth := Function.update k.suspdepth t 0 }
          else { k with timed := tm }) = k₂ at h
        have hsd : ∃ sd, k₂ = { k with timed := tm, suspdepth := sd } ∧
            ∀ u, 0 ≤ k.suspdepth u → 0 ≤ sd u := by
          rw [← hk₂]
          split
          · refine ⟨_, rfl, fun u hu => ?_⟩
            by_cases hut : u = t
            · rw [hut, Function.update_self]
            · rw [Function.update_of_ne hut]
              exact hu
          · exact ⟨_, rfl, fun _ h => h⟩
        obtain ⟨sd, rfl, hsd⟩ := hsd
        split at h
        · next hready =>
            obtain ⟨k₃, he, h⟩ := Option.bind_eq_some_iff.mp h
            cases h
            have hs : k.state t \ mask = {.ready} := by
              dsimp only at hready
              rw [Function.update_self] at hready
              exact hready
            refine ⟨_, rfl, .unblocked t mask rfl hst.2 hs ?_⟩
            have h2 : Still { k with
                state := Function.update k.state t {.ready}
                blockedOn := Function.update k.blockedOn t .unblkd }
                { k with
                  state := Function.update k.state t (k.state t \ mask)
                  timed := tm
                  suspdepth := sd
                  blockedOn := Function.update k.blockedOn t .unblkd } := by
              rw [hs]
              exact (Still.timed _ tm).trans (Still.suspdepth _ sd hsd)
            exact h2.trans (enqReadyTask_still he hready)
        · cases h
          exact ⟨_, rfl, .still (((Still.timed k tm).trans
            (Still.suspdepth _ sd hsd)).trans (Still.clear _ t mask))⟩
    · cases h
      exact ⟨_, rfl, .still (Still.refl k)⟩

omit decS finS in
theorem rtTaskMakePeriodic_effect {k : Kernel T S} {t : T}
    {startTime period : Int} {r : Outcome T S}
    (h : rtTaskMakePeriodic k t startTime period = some r) :
    ∃ v, r.2 = some v ∧ Still k r.1 := by
  unfold rtTaskMakePeriodic at h
  split at h
  · cases h
    exact ⟨_, rfl, Still.refl k⟩
  · dsimp only at h
    have h1 : Still k { k with
        resumeTime := Function.update k.resumeTime t startTime
        periodicResumeTime := Function.update k.periodicResumeTime t startTime
        period := Function.update k.period t period
        suspdepth := Function.update k.suspdepth t 0 } :=
      (Still.setDepth k t (d := 0) fun _ => le_refl 0).trans
        (Still.times _ k.timeH _ _ _ k.resyncFrame)
    split at h
    · cases h
      exact ⟨_, rfl, h1⟩
    · obtain ⟨k₁, he, h⟩ := Option.bind_eq_some_iff.mp h
      cases h
      refine ⟨_, rfl, ((h1.trans (Still.remReadyTask _ t)).trans ?_).trans
        (enqTimedTask_still he)⟩
      refine Still.state _ _ fun u f hb hf => ?_
      by_cases hu : u = t
      · subst hu
        rw [Function.update_self, Finset.mem_union] at hf
        rcases hf with hf | hf
        · exact (Finset.mem_sdiff.mp hf).1
        · rw [Finset.mem_singleton] at hf
          rw [hf] at hb
          exact absurd hb (by decide)
      · rw [Function.update_of_ne hu] at hf
        exact hf

omit decS finS in
theorem rtSetResumeTime_effect {k : Kernel T S} {t : T} {time : Int}
    {r : Outcome T S} (h : rtSetResumeTime k t time = some r) :
    ∃ v, r.2 = some v ∧ Still k r.1 := by
  unfold rtSetResumeTime at h
  split at h
  · cases h
    exact ⟨_, rfl, Still.refl k⟩
  · split at h
    · dsimp only at h
      have h1 : Still k { k with
          resumeTime := Function.update k.resumeTime t time } :=
        Still.times k k.timeH _ k.periodicResumeTime k.period k.resyncFrame
      split at h
      · obtain ⟨k₁, he, h⟩ := Option.bind_eq_some_iff.mp h
        cases h
        exact ⟨_, rfl, (h1.trans (Still.remTimedTask _ t)).trans (enqTimedTask_still he)⟩
      · cases h
        exact ⟨_, rfl, h1⟩
    · cases h
      exact ⟨_, rfl, Still.refl k⟩

omit decS finS in
/-- The current task is delayed. -/
theorem delayCurrent_effect {k : Kernel T S} {c : T} {r : Outcome T S}
    (h : delayCurrent k c = some r) : r.2 = none ∧ Still { k with
      blockedOn := Function.update k.blockedOn c .null
      pc := Function.update k.pc c .sleep } r.1 := by
  obtain ⟨k₁, he, h⟩ := Option.bind_eq_some_iff.mp h
  cases h
  refine ⟨rfl, ?_⟩
  have h1 : Still { k with blockedOn := Function.update k.blockedOn c .null }
      { k with
        blockedOn := Function.update k.blockedOn c .null
        state := Function.update k.state c (k.state c ∪ {.delayed}) } :=
    Still.set _ c (by decide)
  have h2 := (h1.trans (Still.remReadyCurrent _ c)).trans (enqTimedTask_still he)
  exact still_pc h2 c .sleep

theorem rtSleepUntil_effect {k : Kernel T S} {c : T} {time : Int}
    {r : Outcome T S} (h : rtSleepUntil k c time = some r) :
    (∃ v, r.2 = some v ∧ Still k r.1) ∨
    (r.2 = none ∧ Still { k with
      blockedOn := Function.update k.blockedOn c .null
      pc := Function.update k.pc c .sleep } r.1) := by
  unfold rtSleepUntil at h
  dsimp only at h
  split at h
  · obtain ⟨ho, hk⟩ := delayCurrent_effect h
    refine Or.inr ⟨ho, Still.trans ?_ hk⟩
    exact Still.times { k with
      blockedOn := Function.update k.blockedOn c .null
      pc := Function.update k.pc c .sleep } k.timeH _ k.periodicResumeTime
      k.period k.resyncFrame
  · cases h
    exact Or.inl ⟨_, rfl, Still.times k k.timeH _ k.periodicResumeTime k.period k.resyncFrame⟩

theorem rtTaskWaitPeriod_effect {k : Kernel T S} {c : T} {tsc : Int}
    {r : Outcome T S} (h : rtTaskWaitPeriod k c tsc = some r) :
    (∃ v, r.2 = some v ∧ Still k r.1) ∨
    (r.2 = none ∧ Still { k with
      blockedOn := Function.update k.blockedOn c .null
      pc := Function.update k.pc c .sleep } r.1) := by
  unfold rtTaskWaitPeriod at h
  split at h
  · cases h
    exact Or.inl ⟨_, rfl, Still.times k k.timeH _ _ k.period _⟩
  · dsimp only at h
    split at h
    · obtain ⟨ho, hk⟩ := delayCurrent_effect h
      refine Or.inr ⟨ho, Still.trans ?_ hk⟩
      exact Still.times { k with
        blockedOn := Function.update k.blockedOn c .null
        pc := Function.update k.pc c .sleep } k.timeH _ _ k.period
        k.resyncFrame
    · cases h
      exact Or.inl ⟨_, rfl, Still.times k k.timeH k.resumeTime _ k.period k.resyncFrame⟩

/-! ## The Linux side of a soft task -/

omit decS finT finS in
theorem enqSoftReadyTask_still (k : Kernel T S) (t : T) : Still k (enqSoftReadyTask k t) := by
  unfold enqSoftReadyTask
  split
  · exact Still.refl k
  · exact Still.ready k _

omit decS finT finS in
/-- A thread that does not sleep goes on. -/
theorem still_linux {k : Kernel T S} {t : T} {w : LinuxSide}
    (h : k.linux t ≠ .asleep ∨ w = .asleep) :
    Still k { k with linux := Function.update k.linux t w } := by
  refine ⟨k.ready, k.timed, k.state, k.wakeup, _, k.suspdepth, k.timeH,
    k.resumeTime, k.periodicResumeTime, k.period, k.resyncFrame, rfl,
    fun _ _ _ h => h, ?_, fun _ h => h⟩
  intro u hu
  by_cases hut : u = t
  · subst hut
    rw [Function.update_self] at hu
    rcases hu with hu | hu
    · exact Or.inl (Or.inl (h.resolve_right hu))
    · exact Or.inl (Or.inr hu)
  · rw [Function.update_of_ne hut] at hu
    exact Or.inl hu

/-- The call of a soft task starts. -/
theorem softStarts {k : Kernel T S} {t : T} {a : Action T S}
    (ha : a = .softEnter t ∨ a = .softEntered t)
    (hl : k.linux t ≠ .asleep) (hp : k.pc t = .idle)
    {st : TaskState} (hs : st = {.ready}) (hsub : k.state t ⊆ st) :
    Delays k a { enqSoftReadyTask { k with
        state := Function.update k.state t st } t with
      linux := Function.update k.linux t .inside
      pc := Function.update k.pc t .start } := by
  have hsub' : ∀ u f, f ∈ Function.update k.state t st u → f ∈ blocking → f ∈ k.state u := by
    intro u f hf hb
    by_cases hu : u = t
    · subst hu
      rw [Function.update_self, hs, Finset.mem_singleton] at hf
      rw [hf] at hb
      exact absurd hb (by decide)
    · rw [Function.update_of_ne hu] at hf
      exact hf
  have h1 : Still k { k with state := Function.update k.state t st } :=
    Still.state k _ fun u f hb hf => hsub' u f hf hb
  have h2 := h1.trans (enqSoftReadyTask_still _ t)
  have hsame : ∃ rd, enqSoftReadyTask { k with
      state := Function.update k.state t st } t = { k with
      state := Function.update k.state t st
      ready := rd } := by
    unfold enqSoftReadyTask
    split
    · exact ⟨_, rfl⟩
    · exact ⟨_, rfl⟩
  obtain ⟨rd, hsame⟩ := hsame
  rw [hsame] at h2 ⊢
  have h3 := h2.trans (still_linux (w := .inside) (Or.inl hl))
  refine .starts t ha ?_ hp (still_pc h3 t .start)
  refine Finset.disjoint_left.mpr fun f hf hb => ?_
  have := hsub hf
  rw [hs, Finset.mem_singleton] at this
  rw [this] at hb
  exact absurd hb (by decide)

theorem rtScheduleSoft_effect {k k' : Kernel T S} {t : T}
    (h : rtScheduleSoft k t = some k') : Delays k (.softEnter t) k' := by
  unfold rtScheduleSoft at h
  split at h
  · next hc =>
      obtain ⟨-, hl, hp⟩ := hc
      have hl' : k.linux t ≠ .asleep := by rw [hl]; exact nofun
      dsimp only at h
      split at h
      · next hready =>
          cases h
          rw [Function.update_self] at hready
          exact softStarts (Or.inl rfl) hl' hp hready Finset.subset_union_left
      · cases h
        exact .still ((Still.set k t (by decide)).trans (still_linux (Or.inl hl')))
  · exact nomatch h

theorem rtScheduleSoftEntered_effect {k k' : Kernel T S} {t : T}
    (h : rtScheduleSoftEntered k t = some k') :
    Delays k (.softEntered t) k' := by
  unfold rtScheduleSoftEntered at h
  split at h
  · next hc =>
      obtain ⟨-, hl, hp, hready⟩ := hc
      cases h
      have hl' : k.linux t ≠ .asleep := by rw [hl]; exact nofun
      have := softStarts (Or.inr rfl) hl' hp hready (Finset.Subset.refl _)
      rwa [Function.update_eq_self] at this
  · exact nomatch h

theorem softSchedule_still {k k' : Kernel T S} {t : T}
    (h : softSchedule k t = some k') : Still k k' := by
  unfold softSchedule at h
  split at h
  · cases h
    exact still_linux (Or.inr rfl)
  · exact nomatch h

theorem softWake_still {k k' : Kernel T S} {t : T}
    (h : softWake k t = some k') : Still k k' := by
  unfold softWake at h
  split at h
  · next hc =>
      cases h
      refine Still.trans ?_ (enqSoftReadyTask_still _ t)
      refine ⟨k.ready, k.timed, _, _, _, k.suspdepth, k.timeH, k.resumeTime,
        k.periodicResumeTime, k.period, k.resyncFrame, rfl, ?_, ?_,
        fun _ h => h⟩
      · intro u f hb hf
        by_cases hu : u = t
        · subst hu
          rw [Function.update_self, Finset.mem_union] at hf
          rcases hf with hf | hf
          · exact (Finset.mem_sdiff.mp hf).1
          · rw [Finset.mem_singleton] at hf
            rw [hf] at hb
            exact absurd hb (by decide)
        · rw [Function.update_of_ne hu] at hf
          exact hf
      · intro u hu
        by_cases hut : u = t
        · subst hut
          exact Or.inl (Or.inr hc.2.2)
        · rw [Function.update_of_ne hut, Function.update_of_ne hut] at hu
          exact Or.inl hu
  · exact nomatch h

theorem rtScheduleSoftTail_still {k k' : Kernel T S} {t : T}
    (h : rtScheduleSoftTail k t = some k') : Still k k' := by
  unfold rtScheduleSoftTail at h
  split at h
  · next hc =>
      cases h
      have hl' : k.linux t ≠ .asleep := by rw [hc.2.1]; exact nofun
      have h1 := (Still.clear k t {.ready, .sftrdy}).trans
        (Still.ready _ (k.ready.unlink (.elem t)))
      refine h1.trans (still_linux (w := .user) (Or.inl ?_))
      exact hl'
  · exact nomatch h

/-! ## One step -/

/-- **EVERY OTHER ACTION DELAYS**: an action that is about no semaphore, no
    message and no priority has one of these effects. -/
theorem exec_delays {k k' : Kernel T S} {a : Action T S}
    {o : Option (Ret T)} (ha : delays k a = true)
    (h : exec k a = some (k', o)) : Delays k a k' := by
  have hreturns : ∀ {c : T} {op : Op T S} {r : Outcome T S},
      a = .call c op → mayCall k c = true → finish c r = (k', o) →
      (∃ v, r.2 = some v ∧ Serves k op r.1) → Delays k a k' := by
    rintro c op ⟨k₁, r⟩ rfl hc hf ⟨v, hv, hs⟩
    dsimp only at hv hs
    subst hv
    cases hf
    exact .call c op k₁ rfl hc hs rfl
  have hblocks : ∀ {c : T} {op : Op T S} {r : Outcome T S} {b : BlockedOn T S} {p : Pc T S},
      a = .call c op → mayCall k c = true → finish c r = (k', o) →
      (b = .self c ∨ b = .null) → delayed p = true →
      ((∃ v, r.2 = some v ∧ Still k r.1) ∨ r.2 = none ∧ Still { k with
        blockedOn := Function.update k.blockedOn c b
        pc := Function.update k.pc c p } r.1) → Delays k a k' := by
    rintro c op ⟨k₁, r⟩ b p rfl hc hf hb hp (⟨v, hv, hs⟩ | ⟨hv, hs⟩)
    · exact hreturns rfl hc hf ⟨v, hv, .still hs⟩
    · dsimp only at hv hs
      subst hv
      cases hf
      exact .blocks c op b p rfl hc hb hp hs
  have hlinux : ∀ {op : Op T S} {r : Outcome T S}, a = .linux op →
      r = (k', o) → (∃ v, r.2 = some v ∧ Serves k op r.1) →
      Delays k a k' := by
    rintro op r rfl rfl ⟨v, -, hs⟩
    exact .linux op rfl hs
  have hstill : ∀ {e : Option (Kernel T S)}, e.map (·, none) = some (k', o) →
      (∀ k₁, e = some k₁ → Delays k a k₁) → Delays k a k' := by
    intro e he hs
    obtain ⟨k₁, rfl, he⟩ := Option.map_eq_some_iff.mp he
    cases he
    exact hs _ rfl
  cases a with
  | call c op =>
    obtain ⟨hc, r, hr, hf⟩ := exec_call h
    cases op with
    | suspend t =>
      rcases rtTaskSuspend_effect hr with h1 | ⟨hw, ho, hk⟩
      · exact hreturns rfl hc hf h1
      · cases hw
        exact hblocks (p := .suspend) rfl hc hf (Or.inl rfl) rfl (Or.inr ⟨ho, hk⟩)
    | suspendUntil t time =>
      rcases rtTaskSuspendUntil_effect hr with h1 | ⟨hw, ho, hk⟩
      · exact hreturns rfl hc hf h1
      · cases hw
        exact hblocks (p := .suspendUntil) rfl hc hf (Or.inl rfl) rfl (Or.inr ⟨ho, hk⟩)
    | resume t => exact hreturns rfl hc hf (rtTaskResume_effect hr)
    | unblock t mask =>
      exact hreturns rfl hc hf (rtTaskMaskedUnblock_effect hr)
    | makePeriodic t startTime period =>
      obtain ⟨v, hv, hs⟩ := rtTaskMakePeriodic_effect hr
      exact hreturns rfl hc hf ⟨v, hv, .still hs⟩
    | waitPeriod tsc =>
      exact hblocks (p := .sleep) rfl hc hf (Or.inr rfl) rfl (rtTaskWaitPeriod_effect hr)
    | setResumeTime t time =>
      obtain ⟨v, hv, hs⟩ := rtSetResumeTime_effect hr
      exact hreturns rfl hc hf ⟨v, hv, .still hs⟩
    | sleep now delay =>
      exact hblocks (p := .sleep) rfl hc hf (Or.inr rfl) rfl (rtSleepUntil_effect hr)
    | sleepUntil time =>
      exact hblocks (p := .sleep) rfl hc hf (Or.inr rfl) rfl (rtSleepUntil_effect hr)
    | _ => exact nomatch ha
  | cont c =>
    obtain ⟨hex, ⟨k₁, r⟩, hr, hf⟩ := exec_cont h
    have hsame : k₁ = k ∧ r ≠ none := by
      unfold contOp at hr
      have ha' : delayed (k.pc c) = true := ha
      cases hp : k.pc c with
      | suspend =>
        rw [hp] at hr
        dsimp only [rtTaskSuspendTail] at hr
        split at hr <;> cases hr <;> exact ⟨rfl, nofun⟩
      | suspendUntil =>
        rw [hp] at hr
        dsimp only [rtTaskSuspendUntilTail] at hr
        split at hr
        · cases hr
          exact ⟨rfl, nofun⟩
        · split at hr <;> cases hr <;> exact ⟨rfl, nofun⟩
      | sleep =>
        rw [hp] at hr
        dsimp only [delayTail] at hr
        split at hr <;> cases hr <;> exact ⟨rfl, nofun⟩
      | _ => rw [hp] at ha'; exact nomatch ha'
    obtain ⟨rfl, hr'⟩ := hsame
    cases r with
    | none => exact absurd rfl hr'
    | some v =>
      cases hf
      exact .ends c rfl hex ha rfl
  | linux op =>
    cases op with
    | suspend t =>
      rcases rtTaskSuspend_effect h with hs | ⟨hw, -, -⟩
      · exact hlinux rfl rfl hs
      · exact nomatch hw
    | suspendUntil t time =>
      rcases rtTaskSuspendUntil_effect h with hs | ⟨hw, -, -⟩
      · exact hlinux rfl rfl hs
      · exact nomatch hw
    | resume t => exact hlinux rfl rfl (rtTaskResume_effect h)
    | unblock t mask => exact hlinux rfl rfl (rtTaskMaskedUnblock_effect h)
    | makePeriodic t startTime period =>
      obtain ⟨v, hv, hs⟩ := rtTaskMakePeriodic_effect h
      exact hlinux rfl rfl ⟨v, hv, .still hs⟩
    | setResumeTime t time =>
      obtain ⟨v, hv, hs⟩ := rtSetResumeTime_effect h
      exact hlinux rfl rfl ⟨v, hv, .still hs⟩
    | waitPeriod _ => exact nomatch h
    | sleep _ _ => exact nomatch h
    | sleepUntil _ => exact nomatch h
    | _ => exact nomatch ha
  | wake now =>
    refine hstill h fun k₁ hk => .still ?_
    unfold timer at hk
    split at hk
    · exact (Still.times k now k.resumeTime k.periodicResumeTime k.period
        k.resyncFrame).trans (wakeUpTimedTasks_still hk)
    · exact nomatch hk
  | dispatch t =>
    refine hstill h fun k₁ hk => ?_
    unfold RtaiSched.dispatch at hk
    split at hk
    · next hc =>
        cases hk
        exact .dispatch t rfl hc.1 rfl
    · exact nomatch hk
  | softEnter t =>
    refine hstill h fun k₁ hk => ?_
    exact rtScheduleSoft_effect hk
  | softEntered t =>
    refine hstill h fun k₁ hk => ?_
    exact rtScheduleSoftEntered_effect hk
  | softSchedule t => exact hstill h fun k₁ hk => .still (softSchedule_still hk)
  | softWake t => exact hstill h fun k₁ hk => .still (softWake_still hk)
  | softTail t =>
    exact hstill h fun k₁ hk => .still (rtScheduleSoftTail_still hk)

/-! ## They keep the control state -/

/-- A resume and an unblock that make a waiter ready leave what its
    `blocked_on` says about the semaphore. -/
def KeepsGrants (k : Kernel T S) : Op T S → Prop
  | .resume t => k.suspdepth t = 1 → k.state t \ {.suspended, .delayed} = {.ready} →
      waitsOn (k.pc t) ≠ none → k.blockedOn t = .null
  | .unblock t mask => k.state t ≠ {.ready} → k.state t \ mask = {.ready} →
      waitsOn (k.pc t) ≠ none → k.blockedOn t ≠ .null
  | _ => True

/-- The services an action calls keep what was granted. -/
def ActionKeepsGrants (k : Kernel T S) : Action T S → Prop
  | .call _ op => KeepsGrants k op
  | .linux op => KeepsGrants k op
  | _ => True

instance (k : Kernel T S) (op : Op T S) : Decidable (KeepsGrants k op) := by
  induction op using Op.casesOn <;> unfold KeepsGrants <;> infer_instance

instance (k : Kernel T S) (a : Action T S) : Decidable (ActionKeepsGrants k a) := by
  induction a using RtaiSteps.Action.casesOn <;> unfold ActionKeepsGrants <;>
    infer_instance

variable {k k' : Kernel T S} {L : Head T S → List T} {a : Action T S} {op : Op T S}

omit decS finT finS in
/-- What `blocked_on` holds is of no matter for a ready task, but for whether
    a semaphore has been granted. -/
theorem Control.rewritten (C : Control k L) {t : T} {b : BlockedOn T S}
    {w : TaskState} (hst : Disjoint w blocking)
    (hw : waitsOn (k.pc t) ≠ none → (b = .null ↔ k.blockedOn t = .null))
    (hb : b ≠ .objrem) :
    Control { k with
      state := Function.update k.state t w
      blockedOn := Function.update k.blockedOn t b } L where
  rings := C.rings
  stands := by
    intro u
    by_cases hu : u = t
    · subst hu
      have hb' : Function.update k.blockedOn u b u = b :=
        Function.update_self ..
      have hst' : Function.update k.state u w u = w :=
        Function.update_self ..
      have hno : ∀ {f}, f ∈ blocking → f ∉ Function.update k.state u w u := by
        intro f hf hm
        rw [hst'] at hm
        exact Finset.disjoint_left.mp hst hm hf
      exact
        { home := by
            intro h ht
            have := (C.stands u).home h ht
            cases h with
            | sem s =>
              refine ⟨this.1, fun h => this.2 ?_⟩
              refine (hw ?_).mp (hb'.symm.trans h)
              rw [this.1]
              exact nofun
            | msg r => exact this
            | ret r => exact this
          waits := by
            intro s hp hq
            refine (C.stands u).waits s hp fun h => hq ?_
            refine hb'.trans ((hw ?_).mpr h)
            rw [show k.pc u = _ from rfl] at hp
            exact hp ▸ nofun
          sends := (C.stands u).sends
          calls := (C.stands u).calls
          dest := (C.stands u).dest
          calm := (C.stands u).calm
          got := (C.stands u).got
          semBit := fun h => absurd h (hno (by decide))
          sendBit := fun h => absurd h (hno (by decide))
          rpcBit := fun h => absurd h (hno (by decide))
          retBit := fun h => absurd h (hno (by decide))
          receiveBit := fun h => absurd h (hno (by decide))
          awake := fun _ _ => by
            refine Finset.disjoint_left.mpr fun f hf hm => ?_
            have hsub : ({.send, .receive, .rpc, .ret} : TaskState) ⊆
              blocking := by decide
            exact hno (hsub hm) hf
          present := fun h => hb (hb'.symm.trans h)
          running := (C.stands u).running
          magic := (C.stands u).magic }
    · have hstate : Function.update k.state t w u = k.state u :=
        Function.update_of_ne hu ..
      exact (C.stands u).transport (fun _ => Iff.rfl) rfl
        (Function.update_of_ne hu ..) rfl rfl rfl rfl rfl
        (fun f _ hf => hstate ▸ hf) Or.inl
  semMagic := C.semMagic

omit decT decS finT finS in
/-- The suspension depths are no control matter. -/
theorem Control.setDepth (C : Control k L) {sd : T → Int} :
    Control { k with suspdepth := sd } L :=
  ⟨C.rings, fun t => (C.stands t).transport (fun _ => Iff.rfl) rfl rfl rfl
    rfl rfl rfl rfl (fun _ _ h => h) Or.inl, C.semMagic⟩

omit decS finT finS in
/-- A service moves no task. -/
theorem Serves.pc (h : Serves k op k') : k'.pc = k.pc := by
  cases h with
  | still h =>
    obtain ⟨_, _, _, _, _, _, _, _, _, _, _, rfl, -, -⟩ := h
    rfl
  | owed _ _ _ h => rw [h]
  | resumed _ _ _ _ h =>
    obtain ⟨_, _, _, _, _, _, _, _, _, _, _, rfl, -, -⟩ := h
    rfl
  | unblocked _ _ _ _ _ h =>
    obtain ⟨_, _, _, _, _, _, _, _, _, _, _, rfl, -, -⟩ := h
    rfl

theorem Serves.control (h : Serves k op k') (C : Control k L)
    (hkeep : KeepsGrants k op) : Control k' L := by
  cases h with
  | still hk => exact C.still hk
  | owed t _ _ hk => rw [hk]; exact Control.setDepth C
  | resumed t hop hd hs hk =>
    subst hop
    have hst : Disjoint (k.state t) blocking := by
      refine Finset.disjoint_left.mpr fun f hf hb => ?_
      have hsus : f ∉ ({.suspended, .delayed} : TaskState) := fun hs' =>
        Finset.disjoint_left.mp (by decide : Disjoint blocking _) hb hs'
      have := Finset.mem_sdiff.mpr ⟨hf, hsus⟩
      rw [hs, Finset.mem_singleton] at this
      rw [this] at hb
      exact absurd hb (by decide)
    have hC := Control.rewritten C (b := .null) hst
      (fun hw => ⟨fun _ => hkeep hd hs hw, fun _ => rfl⟩) nofun
    rw [Function.update_eq_self] at hC
    exact hC.still hk
  | unblocked t mask hop hne hs hk =>
    subst hop
    have hC := Control.rewritten C (b := .unblkd) (t := t) (w := {.ready}) (by decide)
      (fun hw => ⟨fun h => (nomatch h), fun h => absurd h (hkeep hne hs hw)⟩)
      nofun
    exact hC.still hk

omit decS finT finS in
/-- A quiet call may return. -/
theorem Control.quiet_returned (C : Control k L) {c : T}
    (hq : Quiet (k.pc c)) : Control (returned k c) L := by
  obtain ⟨hw, hs, hr⟩ := hq
  refine control_returned C (C.unlinked hw hs) ((C.stands c).calm hs hr) ?_ ?_ ?_
  · by_contra hne
    rw [((C.stands c).got hne).1] at hr
    exact nomatch hr
  · refine Finset.disjoint_left.mpr fun f hf hm => ?_
    rw [Finset.mem_insert, Finset.mem_insert, Finset.mem_insert, Finset.mem_singleton] at hm
    rcases hm with rfl | rfl | rfl | rfl
    · obtain ⟨r, hp, -⟩ := (C.stands c).sendBit hf
      rw [hp] at hs
      exact nomatch hs
    · rw [((C.stands c).receiveBit hf).1] at hr
      exact nomatch hr
    · obtain ⟨r, hp, -⟩ := (C.stands c).rpcBit hf
      rw [hp] at hs
      exact nomatch hs
    · obtain ⟨r, hp, -⟩ := (C.stands c).retBit hf
      rw [hp] at hs
      exact nomatch hs
  · intro hf
    rcases (C.stands c).semBit hf with ⟨s, hp, -⟩ | ⟨h1, -, h3⟩
    · exact nomatch hw.symm.trans hp
    · exact ⟨h1, h3⟩

omit decS finT finS in
/-- A quiet task without blocking bits may stand at another quiet place. -/
theorem Control.quiet_moves (C : Control k L) {c : T} {b : BlockedOn T S}
    {p : Pc T S} (hq : Quiet (k.pc c)) (hp : Quiet p)
    (hst : Disjoint (k.state c) blocking) (hb : b ≠ .objrem) :
    Control { k with
      blockedOn := Function.update k.blockedOn c b
      pc := Function.update k.pc c p } L where
  rings := C.rings
  stands := by
    intro t
    by_cases ht : t = c
    · subst ht
      obtain ⟨hw, hs, hr⟩ := hq
      have hpc : Function.update k.pc t p t = p := Function.update_self ..
      refine stands_idle (C.unlinked hw hs) (Or.inl ?_) ?_
        ((C.stands t).calm hs hr) ?_ hst ?_ (C.stands t).running
        (C.stands t).magic
      · dsimp only
        rw [hpc]
        exact hp.1
      · dsimp only
        rw [hpc]
        exact hp.2.1
      · by_contra hne
        rw [((C.stands t).got hne).1] at hr
        exact nomatch hr
      · dsimp only
        rw [Function.update_self]
        exact hb
    · exact (C.stands t).transport (fun _ => Iff.rfl)
        (Function.update_of_ne ht ..) (Function.update_of_ne ht ..) rfl rfl
        rfl rfl rfl (fun _ _ h => h) Or.inl
  semMagic := C.semMagic

/-- **THE OTHER ACTIONS KEEP THE CONTROL STATE**, as long as a resume and an
    unblock keep what was granted. -/
theorem Delays.control (h : Delays k a k') (C : Control k L)
    (hkeep : ActionKeepsGrants k a) : Control k' L := by
  cases h with
  | linux op ha hs =>
    subst ha
    exact Serves.control hs C hkeep
  | call c op k₁ ha hc hs hk =>
    subst ha
    rw [hk]
    exact Control.quiet_returned (Serves.control hs C hkeep)
      (by rw [hs.pc]; exact quiet_of_mayCall hc)
  | blocks c op b p ha hc hb hp hk =>
    have hne : b ≠ .objrem := by
      rcases hb with rfl | rfl <;> exact nofun
    exact (Control.quiet_moves C (quiet_of_mayCall hc) (quiet_of_delayed hp)
      (C.caller hc).bits hne).still hk
  | ends c ha hex hp hk =>
    rw [hk]
    exact Control.quiet_returned C (quiet_of_delayed hp)
  | dispatch t ha hr hk =>
    rw [hk]
    refine Control.setRunning C fun u => ?_
    by_cases hu : u = t
    · rw [hu, Function.update_self]
      exact Int.one_nonneg
    · rw [Function.update_of_ne hu]
      exact (C.stands u).running
  | starts t ha hst hp hk =>
    have hq : Quiet (k.pc t) := by rw [hp]; exact ⟨rfl, rfl, rfl⟩
    have hC := Control.quiet_moves C (b := k.blockedOn t) (p := .start) hq
      ⟨rfl, rfl, rfl⟩ hst (C.stands t).present
    rw [Function.update_eq_self] at hC
    exact hC.still hk
  | still hk => exact C.still hk

/-! ## Where they leave the tasks -/

/-- The other actions move a quiet task to a quiet place. -/
theorem Delays.pc (h : Delays k a k') (t : T) : k'.pc t = k.pc t ∨ Quiet (k.pc t) ∧
      (k'.pc t = .idle ∨ k'.pc t = .start ∨ delayed (k'.pc t) = true) := by
  have hmove : ∀ {c : T} {p : Pc T S} {k₁ : Kernel T S}, Quiet (k.pc c) →
      k₁.pc = Function.update k.pc c p →
      (p = .idle ∨ p = .start ∨ delayed p = true) →
      k₁.pc t = k.pc t ∨ Quiet (k.pc t) ∧
        (k₁.pc t = .idle ∨ k₁.pc t = .start ∨ delayed (k₁.pc t) = true) := by
    intro c p k₁ hq hk hp
    rw [hk]
    by_cases ht : t = c
    · subst ht
      rw [Function.update_self]
      exact Or.inr ⟨hq, hp⟩
    · exact Or.inl (Function.update_of_ne ht ..)
  cases h with
  | linux _ _ hs => exact Or.inl (congrFun hs.pc t)
  | call c op k₁ _ hc hs hk =>
    rw [hk]
    refine hmove (c := c) (p := .idle) (quiet_of_mayCall hc) ?_ (Or.inl rfl)
    unfold returned
    rw [hs.pc]
  | blocks c op b p _ hc _ hp hk =>
    refine hmove (c := c) (p := p) (quiet_of_mayCall hc) ?_ (Or.inr (Or.inr hp))
    obtain ⟨_, _, _, _, _, _, _, _, _, _, _, rfl, -, -⟩ := hk
    rfl
  | ends c _ _ hp hk =>
    rw [hk]
    exact hmove (c := c) (p := .idle) (quiet_of_delayed hp) rfl (Or.inl rfl)
  | dispatch _ _ _ hk => rw [hk]; exact Or.inl rfl
  | starts u _ _ hp hk =>
    refine hmove (c := u) (p := .start) (by rw [hp]; exact ⟨rfl, rfl, rfl⟩)
      ?_ (Or.inr (Or.inl rfl))
    obtain ⟨_, _, _, _, _, _, _, _, _, _, _, rfl, -, -⟩ := hk
    rfl
  | still hk =>
    obtain ⟨_, _, _, _, _, _, _, _, _, _, _, rfl, -, -⟩ := hk
    exact Or.inl rfl

/-! ## The suspension depths -/

/-- Only a suspended task is resumed, and no depth goes round. -/
def DeepOp (k : Kernel T S) (op : Op T S) : Prop :=
  (∀ t, op = .resume t → 0 < k.suspdepth t) ∧
    ∀ t, suspendsOp op = some t → k.suspdepth t ≠ 2 ^ 31 - 1

/-- No suspension is taken back. -/
def StaysDeep (k : Kernel T S) : Action T S → Prop
  | .call _ op => DeepOp k op
  | .linux op => DeepOp k op
  | _ => True

omit decS finT finS in
theorem Serves.deep (h : Serves k op k') (hop : DeepOp k op) (hd : Deep k) : Deep k' := by
  obtain ⟨hres, hsus⟩ := hop
  cases h with
  | still h => exact h.deep hd
  | owed t n hop _ =>
    rcases hop with ⟨hop, hle⟩ | ⟨hop, he⟩
    · exact absurd (hres t hop) (not_lt.mpr hle)
    · exact absurd he (hsus t hop)
  | resumed _ _ _ _ h => exact h.deep hd
  | unblocked _ _ _ _ _ h => exact h.deep hd

theorem Delays.deep (h : Delays k a k') (hop : StaysDeep k a) (hd : Deep k) : Deep k' := by
  cases h with
  | linux op ha hs =>
    subst ha
    exact Serves.deep hs hop hd
  | call c op k₁ ha _ hs hk =>
    subst ha
    have hd₁ := Serves.deep hs hop hd
    rw [hk]
    exact hd₁
  | blocks _ _ _ _ _ _ _ _ hk => exact hk.deep hd
  | ends _ _ _ _ hk => rw [hk]; exact hd
  | dispatch _ _ _ hk => rw [hk]; exact hd
  | starts _ _ _ _ hk => exact hk.deep hd
  | still hk => exact hk.deep hd

end RtaiServices
