import Rtai.Kernel
import Rtai.Runs

/-! # Hard and soft mode, and the priority class

    A soft task has `BASE_SOFT_PRIORITY` added to its priority.  The offset
    comes and goes with `is_hard` in five places, under different tests, and
    `is_hard` is -1 while a task is in Linux and means to come back.

    The fields of `RT_TASK` here are those that these places read and write.
    The priorities stay below `2 ^ 31` in all of them. -/

namespace RtaiHardSoft

open RtaiKernel (BASE_SOFT_PRIORITY)
open RtaiRuns

/-- The lowest priority of a task. -/
def RT_SCHED_LOWEST_PRIORITY : Int := 0x3fffffff

/-- A task.  `last` is the priority last set by its creation or by
    `rt_change_prio`. -/
structure ModeTask where
  isHard : Int
  basePriority : Int
  priority : Int
  forceSoft : Bool
  unblocked : Bool
  last : Int
  deriving DecidableEq

/-- `__task_init`, with the `set_rtext` in it. -/
def taskInit (prio : Int) : Option ModeTask :=
  let prio :=
    if prio > RT_SCHED_LOWEST_PRIORITY then RT_SCHED_LOWEST_PRIORITY else prio
  if prio < 0 then none
  else
    some
      { isHard := 0
        basePriority := BASE_SOFT_PRIORITY + prio
        priority := BASE_SOFT_PRIORITY + prio
        forceSoft := false
        unblocked := false
        last := prio }

/-- `pending` is what `signal_pending` finds. -/
def stealFromLinux (m : ModeTask) (pending : Bool) : ModeTask :=
  if pending then { m with isHard := -1 }
  else
    { m with
      basePriority :=
        if m.basePriority ≥ BASE_SOFT_PRIORITY then
          m.basePriority - BASE_SOFT_PRIORITY
        else m.basePriority
      priority :=
        if m.priority ≥ BASE_SOFT_PRIORITY then m.priority - BASE_SOFT_PRIORITY
        else m.priority
      isHard := 1 }

/-- `keeprio` is 0 or -1. -/
def giveBackToLinux (m : ModeTask) (keeprio : Int) : ModeTask :=
  let m := { m with isHard := keeprio }
  if m.isHard = 0 then
    { m with
      priority :=
        if m.priority < BASE_SOFT_PRIORITY ∧ m.priority = m.basePriority then
          m.priority + BASE_SOFT_PRIORITY
        else m.priority
      basePriority :=
        if m.basePriority < BASE_SOFT_PRIORITY then
          m.basePriority + BASE_SOFT_PRIORITY
        else m.basePriority }
  else m

/-- `rt_make_hard_real_time`. -/
def rtMakeHardRealTime (m : ModeTask) (pending : Bool) : ModeTask :=
  if m.isHard = 0 then stealFromLinux m pending else m

/-- `rt_make_soft_real_time`. -/
def rtMakeSoftRealTime (m : ModeTask) : ModeTask :=
  if m.isHard ≠ 0 then
    if m.isHard > 0 then giveBackToLinux m 0 else { m with isHard := 0 }
  else m

/-- Around every request of a task to the scheduler. -/
def checkToSoftenHarden (m : ModeTask) (pending : Bool) : ModeTask :=
  if m.forceSoft then
    let m := if m.isHard > 0 then giveBackToLinux m 0 else { m with isHard := 0 }
    { m with forceSoft := false }
  else if m.isHard < 0 then stealFromLinux m pending
  else m

/-- `lxrt_intercept_linux_syscall` of a task without a server, and
    `lxrt_handle_trap`. -/
def linuxSyscall (m : ModeTask) : ModeTask :=
  if m.isHard > 0 then giveBackToLinux m (-1) else m

/-- The test of `unblocked` before and after a request. -/
def testUnblocked (m : ModeTask) : ModeTask :=
  if m.unblocked then
    let m := if m.isHard > 0 then giveBackToLinux m (-1) else m
    { m with unblocked := false }
  else m

/-- `force_current_soft`. -/
def forceCurrentSoft (m : ModeTask) : ModeTask :=
  { m with
    forceSoft := false
    isHard := 0
    priority :=
      if m.priority < BASE_SOFT_PRIORITY ∧ m.priority = m.basePriority then
        m.priority + BASE_SOFT_PRIORITY
      else m.priority
    basePriority :=
      if m.basePriority < BASE_SOFT_PRIORITY then
        m.basePriority + BASE_SOFT_PRIORITY
      else m.basePriority }

/-- `rt_change_prio`, as far as the task itself goes; `last` is what the caller
    has asked for. -/
def rtChangePrio (m : ModeTask) (priority : Int) : ModeTask :=
  if priority < 0 then m
  else
    let asked := priority
    let priority :=
      if m.isHard = 0 ∧ priority < BASE_SOFT_PRIORITY then
        priority + BASE_SOFT_PRIORITY
      else priority
    { m with
      basePriority := priority
      priority :=
        if m.basePriority = m.priority ∨ priority < m.priority then priority
        else m.priority
      last := asked }

/-- The changes of mode. -/
inductive ModeOp where
  | steal (pending : Bool)
  | giveBack (keep : Bool)
  | makeHard (pending : Bool)
  | makeSoft
  | check (pending : Bool)
  | linuxSyscall
  | testUnblocked
  | forceCurrentSoft
  | changePrio (priority : Int)
  /-- `SET_USP_FLAGS`, `SET_USP_FLG_MSK` -/
  | setUspFlags (force : Bool)
  /-- Linux wakes the task up with a signal. -/
  | sigWakeup
  /-- The passing of priorities changes `priority`. -/
  | inherit (priority : Int)
  deriving DecidableEq

/-- What a change of mode does. -/
def modeOp (m : ModeTask) : ModeOp → ModeTask
  | .steal pending => stealFromLinux m pending
  | .giveBack keep => giveBackToLinux m (if keep then -1 else 0)
  | .makeHard pending => rtMakeHardRealTime m pending
  | .makeSoft => rtMakeSoftRealTime m
  | .check pending => checkToSoftenHarden m pending
  | .linuxSyscall => linuxSyscall m
  | .testUnblocked => testUnblocked m
  | .forceCurrentSoft => forceCurrentSoft m
  | .changePrio priority => rtChangePrio m priority
  | .setUspFlags force => { m with forceSoft := m.isHard > 0 && force }
  | .sigWakeup => { m with unblocked := true }
  | .inherit priority => { m with priority := priority }

section System

variable {T : Type} [DecidableEq T]

/-- A task is created, or changes its mode. -/
inductive ModeAction (T : Type) where
  | init (t : T) (prio : Int)
  | op (t : T) (op : ModeOp)
  deriving DecidableEq

/-- A call of `__task_init` for a task that exists returns it. -/
def modeStep (x : T → Option ModeTask) : ModeAction T → Option ((T → Option ModeTask) × Unit)
  | .init t prio =>
    if (x t).isSome then some (x, ())
    else do
      let m ← taskInit prio
      some (Function.update x t (some m), ())
  | .op t op => do
      let m ← x t
      some (Function.update x t (some (modeOp m op)), ())

/-- The class of a task fits its mode, and holds the priority that has been
    set. -/
structure ModeTask.Classed (m : ModeTask) : Prop where
  soft : m.isHard = 0 → m.basePriority ≥ BASE_SOFT_PRIORITY
  hard : m.isHard = 1 → m.basePriority < BASE_SOFT_PRIORITY
  last : m.basePriority % BASE_SOFT_PRIORITY = m.last

/-- Hard and soft priorities are kept apart. -/
def Classes (x : T → Option ModeTask) : Prop :=
  ∀ t m, x t = some m → m.Classed

/-! ## When the class is kept -/

/-- A priority that is set is below the offset, and a task that becomes soft
    without an adjustment has the offset already. -/
def ModeTask.Kept (m : ModeTask) : ModeOp → Prop
  | .changePrio priority => priority < BASE_SOFT_PRIORITY
  | .makeSoft => m.isHard < 0 → m.basePriority ≥ BASE_SOFT_PRIORITY
  | .check _ =>
    m.forceSoft = true → m.isHard < 0 → m.basePriority ≥ BASE_SOFT_PRIORITY
  | _ => True

instance (m : ModeTask) : (op : ModeOp) → Decidable (m.Kept op)
  | .changePrio priority =>
    inferInstanceAs (Decidable (priority < BASE_SOFT_PRIORITY))
  | .makeSoft =>
    inferInstanceAs (Decidable (m.isHard < 0 → m.basePriority ≥ BASE_SOFT_PRIORITY))
  | .check _ =>
    inferInstanceAs (Decidable (m.forceSoft = true → m.isHard < 0 →
        m.basePriority ≥ BASE_SOFT_PRIORITY))
  | .steal _ | .giveBack _ | .makeHard _ | .linuxSyscall | .testUnblocked
  | .forceCurrentSoft | .setUspFlags _ | .sigWakeup | .inherit _ =>
    inferInstanceAs (Decidable True)

/-- The step keeps the class of the task. -/
def KeepsClass (x : T → Option ModeTask) : ModeAction T → Prop
  | .init t prio => x t = none → prio < BASE_SOFT_PRIORITY
  | .op t op => ∀ m, x t = some m → m.Kept op

instance (x : T → Option ModeTask) : (a : ModeAction T) → Decidable (KeepsClass x a)
  | .init t prio =>
    inferInstanceAs (Decidable (x t = none → prio < BASE_SOFT_PRIORITY))
  | .op t op =>
    match h : x t with
    | none => isTrue fun m hm => by rw [h] at hm; exact nomatch hm
    | some m =>
      decidable_of_iff (m.Kept op) ⟨fun hk m' hm => by rw [h] at hm; cases hm; exact hk,
          fun hk => hk m h⟩

/-- The values that a task has as long as the class is kept. -/
structure ModeTask.Fits (m : ModeTask) : Prop where
  mode : m.isHard = -1 ∨ m.isHard = 0 ∨ m.isHard = 1
  last_nonneg : 0 ≤ m.last
  last_lt : m.last < BASE_SOFT_PRIORITY
  base : m.basePriority = m.last ∨ m.basePriority = m.last + BASE_SOFT_PRIORITY
  soft : m.isHard = 0 → m.basePriority = m.last + BASE_SOFT_PRIORITY
  hard : m.isHard = 1 → m.basePriority = m.last

section Ops

variable {m : ModeTask} {prio : Int} {pending : Bool}

theorem soft_not_hard {p : Prop} (h : (0 : Int) = 1) : p := absurd h (by decide)

theorem away_not_soft {p : Prop} (h : (-1 : Int) = 0) : p := absurd h (by decide)

theorem away_not_hard {p : Prop} (h : (-1 : Int) = 1) : p := absurd h (by decide)

theorem hard_not_soft {p : Prop} (h : (1 : Int) = 0) : p := absurd h (by decide)

theorem offset_pos : (0 : Int) < BASE_SOFT_PRIORITY := by decide

theorem ModeTask.Fits.classed (F : m.Fits) : m.Classed := by
  have h0 := F.last_nonneg
  have h1 := F.last_lt
  refine ⟨fun hs => ?_, fun hh => ?_, ?_⟩
  · rw [F.soft hs]
    omega
  · rw [F.hard hh]
    exact h1
  · rcases F.base with hb | hb
    · rw [hb, Int.emod_eq_of_lt h0 h1]
    · rw [hb, Int.add_emod_right, Int.emod_eq_of_lt h0 h1]

/-- A priority that has been set is below the offset. -/
theorem ModeTask.Classed.last_lt (C : m.Classed) : m.last < BASE_SOFT_PRIORITY := by
  rw [← C.last]
  exact Int.emod_lt_of_pos _ offset_pos

/-- **CREATION** puts a task into its class if and only if its priority is below
    the offset. -/
theorem taskInit_fits (h : taskInit prio = some m)
    (hp : prio < BASE_SOFT_PRIORITY) : m.Fits := by
  simp only [taskInit] at h
  have hcut : ¬ prio > RT_SCHED_LOWEST_PRIORITY := by
    have : BASE_SOFT_PRIORITY ≤ RT_SCHED_LOWEST_PRIORITY := by decide
    omega
  rw [if_neg hcut] at h
  split at h
  · exact nomatch h
  · cases h
    exact ⟨Or.inr (Or.inl rfl), by dsimp only; omega, hp,
      Or.inr (Int.add_comm _ _), fun _ => Int.add_comm _ _, soft_not_hard⟩

theorem taskInit_classed_iff (h : taskInit prio = some m) :
    m.Classed ↔ prio < BASE_SOFT_PRIORITY := by
  refine ⟨fun C => ?_, fun hp => (taskInit_fits h hp).classed⟩
  have hlt := C.last_lt
  simp only [taskInit] at h
  split at h
  · -- the cut itself is above the offset
    split at h
    · exact nomatch h
    · cases h
      exact absurd hlt (by decide)
  · split at h
    · exact nomatch h
    · cases h
      exact hlt

/-- Going hard takes the offset away. -/
theorem ModeTask.Fits.steal (F : m.Fits) : (stealFromLinux m pending).Fits := by
  have h0 := F.last_nonneg
  have h1 := F.last_lt
  cases pending with
  | true =>
    exact ⟨Or.inl rfl, h0, h1, F.base, away_not_soft, away_not_hard⟩
  | false =>
    have hbase : (if m.basePriority ≥ BASE_SOFT_PRIORITY then
        m.basePriority - BASE_SOFT_PRIORITY else m.basePriority) = m.last := by
      rcases F.base with hb | hb
      · rw [hb, if_neg (by omega)]
      · rw [hb, if_pos (by omega)]
        omega
    exact ⟨Or.inr (Or.inr rfl), h0, h1, Or.inl hbase, hard_not_soft, fun _ => hbase⟩

/-- The offset of a task that becomes soft with an adjustment. -/
theorem ModeTask.Fits.offset (F : m.Fits) :
    (if m.basePriority < BASE_SOFT_PRIORITY then
      m.basePriority + BASE_SOFT_PRIORITY else m.basePriority) =
      m.last + BASE_SOFT_PRIORITY := by
  have h0 := F.last_nonneg
  have h1 := F.last_lt
  rcases F.base with hb | hb
  · rw [hb, if_pos h1]
  · rw [hb, if_neg (by omega)]

/-- Going soft for good gives it back. -/
theorem ModeTask.Fits.giveBack (F : m.Fits) : (giveBackToLinux m 0).Fits := by
  simp only [giveBackToLinux, if_true]
  exact ⟨Or.inr (Or.inl rfl), F.last_nonneg, F.last_lt, Or.inr F.offset,
    fun _ => F.offset, soft_not_hard⟩

/-- Going to Linux for a while leaves it away. -/
theorem ModeTask.Fits.keep (F : m.Fits) : (giveBackToLinux m (-1)).Fits := by
  have h : giveBackToLinux m (-1) = { m with isHard := -1 } := rfl
  rw [h]
  exact ⟨Or.inl rfl, F.last_nonneg, F.last_lt, F.base, away_not_soft, away_not_hard⟩

theorem ModeTask.Fits.forced (F : m.Fits) : (forceCurrentSoft m).Fits :=
  ⟨Or.inr (Or.inl rfl), F.last_nonneg, F.last_lt, Or.inr F.offset,
    fun _ => F.offset, soft_not_hard⟩

/-- **SOFTENING WITHOUT AN ADJUSTMENT** leaves the class to what it was. -/
theorem ModeTask.Fits.softened (F : m.Fits)
    (h : m.isHard < 0 → m.basePriority ≥ BASE_SOFT_PRIORITY)
    (hm : ¬ m.isHard > 0) : ({ m with isHard := 0 } : ModeTask).Fits := by
  have h0 := F.last_nonneg
  have h1 := F.last_lt
  have hbase : m.basePriority = m.last + BASE_SOFT_PRIORITY := by
    rcases F.mode with hn | hz | hp
    · rcases F.base with hb | hb
      · have := h (by omega)
        omega
      · exact hb
    · exact F.soft hz
    · omega
  exact ⟨Or.inr (Or.inl rfl), h0, h1, Or.inr hbase, fun _ => hbase, soft_not_hard⟩

/-- **A NEW PRIORITY** below the offset keeps the class. -/
theorem ModeTask.Fits.changed (F : m.Fits) {priority : Int}
    (hp : priority < BASE_SOFT_PRIORITY) : (rtChangePrio m priority).Fits := by
  simp only [rtChangePrio]
  split
  · exact F
  · next hneg =>
      by_cases hs : m.isHard = 0
      · have hoff : (if m.isHard = 0 ∧ priority < BASE_SOFT_PRIORITY then
            priority + BASE_SOFT_PRIORITY else priority) =
            priority + BASE_SOFT_PRIORITY := if_pos ⟨hs, hp⟩
        refine ⟨F.mode, by dsimp only; omega, hp, Or.inr hoff, fun _ => hoff, fun h => ?_⟩
        replace h : m.isHard = 1 := h
        omega
      · have hoff : (if m.isHard = 0 ∧ priority < BASE_SOFT_PRIORITY then
            priority + BASE_SOFT_PRIORITY else priority) = priority :=
          if_neg fun h => hs h.1
        exact ⟨F.mode, by dsimp only; omega, hp, Or.inl hoff,
          fun h => absurd h hs, fun _ => hoff⟩

/-- The fields that the class does not depend on. -/
theorem ModeTask.Fits.congr (F : m.Fits) {p : Int} {f u : Bool} :
    ({ m with priority := p, forceSoft := f, unblocked := u } : ModeTask).Fits :=
  ⟨F.mode, F.last_nonneg, F.last_lt, F.base, F.soft, F.hard⟩

/-- **An operation that keeps the class.** -/
theorem ModeTask.Fits.op (F : m.Fits) {op : ModeOp} (h : m.Kept op) : (modeOp m op).Fits := by
  cases op with
  | steal pending => exact F.steal
  | giveBack keep =>
    cases keep with
    | true => exact F.keep
    | false => exact F.giveBack
  | makeHard pending =>
    simp only [modeOp, rtMakeHardRealTime]
    split
    · exact F.steal
    · exact F
  | makeSoft =>
    simp only [modeOp, rtMakeSoftRealTime]
    split
    · split
      · exact F.giveBack
      · next hm => exact F.softened h hm
    · exact F
  | check pending =>
    simp only [modeOp, checkToSoftenHarden]
    split
    · next hf =>
        split
        · exact F.giveBack.congr
        · next hm => exact (F.softened (h hf) hm).congr
    · split
      · exact F.steal
      · exact F
  | linuxSyscall =>
    simp only [modeOp, linuxSyscall]
    split
    · exact F.keep
    · exact F
  | testUnblocked =>
    simp only [modeOp, testUnblocked]
    split
    · split
      · exact F.keep.congr
      · exact F.congr
    · exact F
  | forceCurrentSoft => exact F.forced
  | changePrio priority => exact F.changed h
  | setUspFlags force => exact F.congr
  | sigWakeup => exact F.congr
  | inherit priority => exact F.congr

/-- **The others break it.** -/
theorem ModeTask.Kept.of_classed {op : ModeOp} (h : (modeOp m op).Classed) :
    m.Kept op := by
  cases op with
  | makeSoft =>
    intro hn
    simp only [modeOp, rtMakeSoftRealTime] at h
    rw [if_pos (by omega), if_neg (by omega)] at h
    exact h.soft rfl
  | check pending =>
    intro hf hn
    simp only [modeOp, checkToSoftenHarden] at h
    rw [if_pos hf, if_neg (by omega)] at h
    exact h.soft rfl
  | changePrio priority =>
    show priority < BASE_SOFT_PRIORITY
    by_cases hneg : priority < 0
    · have := offset_pos
      omega
    · have hlast : (rtChangePrio m priority).last = priority := by
        simp only [rtChangePrio, if_neg hneg]
      rw [← hlast]
      exact h.last_lt
  | _ => trivial

end Ops

/-! ## The runs -/

variable {x x' : T → Option ModeTask}

/-- Every task has values that fit. -/
def AllFit (x : T → Option ModeTask) : Prop := ∀ t m, x t = some m → m.Fits

theorem allFit_update (h : AllFit x) {t : T} {m : ModeTask} (hm : m.Fits) :
    AllFit (Function.update x t (some m)) := by
  intro u m' hu
  by_cases hut : u = t
  · subst hut
    rw [Function.update_self] at hu
    cases hu
    exact hm
  · rw [Function.update_of_ne hut] at hu
    exact h u m' hu

/-- **One step keeps the classes if and only if it meets the guard.** -/
theorem AllFit.step (h : AllFit x) {a : ModeAction T} {o : Unit}
    (hs : modeStep x a = some (x', o)) :
    (KeepsClass x a → AllFit x') ∧ (Classes x' → KeepsClass x a) := by
  cases a with
  | init t prio =>
    simp only [modeStep] at hs
    cases hx : x t with
    | some m =>
      rw [hx] at hs
      cases hs
      refine ⟨fun _ => h, fun _ hn => ?_⟩
      rw [hx] at hn
      exact nomatch hn
    | none =>
      rw [hx] at hs
      obtain ⟨m, hm, hs⟩ := Option.bind_eq_some_iff.mp hs
      cases hs
      refine ⟨fun hk => allFit_update h (taskInit_fits hm (hk hx)),
        fun hc _ => (taskInit_classed_iff hm).mp (hc t m ?_)⟩
      exact Function.update_self ..
  | op t op =>
    simp only [modeStep] at hs
    obtain ⟨m, hm, hs⟩ := Option.bind_eq_some_iff.mp hs
    cases hs
    constructor
    · intro hk
      exact allFit_update h ((h t m hm).op (hk m hm))
    · intro hc m' hm'
      rw [hm] at hm'
      cases hm'
      exact ModeTask.Kept.of_classed (hc t _ (Function.update_self ..))

/-- **THE CLASS IS KEPT** as long as every priority that is set is below the
    offset and no task that is in Linux for a while becomes soft without the
    offset; and a step that does either of these breaks it. -/
theorem classes_kept (x : T → Option ModeTask)
    (h : Reach modeStep KeepsClass (fun _ => none) x) :
    Classes x ∧ ∀ a x' o, modeStep x a = some (x', o) → (Classes x' ↔ KeepsClass x a) := by
  have hfit : AllFit x :=
    h.invariant (I := AllFit) (fun _ _ hm => nomatch hm)
      fun _ _ _ _ hI hg hs => (AllFit.step hI hs).1 hg
  refine ⟨fun t m hm => (hfit t m hm).classed, fun a x' o hs => ?_⟩
  obtain ⟨hto, hfrom⟩ := hfit.step hs
  exact ⟨hfrom, fun hk t m hm => (hto hk t m hm).classed⟩

end System

/-- A task goes hard, calls Linux, comes back and goes soft. -/
theorem classes_kept_round : ∃ x : Unit → Option ModeTask,
    Reach modeStep KeepsClass (fun _ => none) x ∧ Classes x ∧
      x () = some ⟨0, 1000000010, 1000000010, false, false, 10⟩ := by
  obtain ⟨x, hplay, hx⟩ : ∃ x : Unit → Option ModeTask,
      play modeStep KeepsClass (fun _ => none)
        [.init () 10, .op () (.makeHard false), .op () .linuxSyscall,
          .op () (.check false), .op () .makeSoft] = some x ∧
      x () = some ⟨0, 1000000010, 1000000010, false, false, 10⟩ :=
    ⟨_, rfl, rfl⟩
  have hr := reach_of_play hplay
  exact ⟨x, hr, (classes_kept x hr).1, hx⟩

/-- **A SOFT TASK WITH A HARD PRIORITY**: it has called Linux, comes back while
    a signal is pending, and goes soft. -/
theorem soft_in_hard_class : ∃ x : Unit → Option ModeTask,
    Reach modeStep (fun _ _ => True) (fun _ => none) x ∧ ¬ Classes x := by
  obtain ⟨x, hplay, hx⟩ : ∃ x : Unit → Option ModeTask,
      play modeStep (fun _ _ => True) (fun _ => none)
        [.init () 10, .op () (.makeHard false), .op () .linuxSyscall,
          .op () (.check true), .op () .makeSoft] = some x ∧
      x () = some ⟨0, 10, 10, false, false, 10⟩ :=
    ⟨_, rfl, rfl⟩
  refine ⟨x, reach_of_play hplay, fun h => ?_⟩
  exact absurd ((h () _ hx).soft rfl) (by decide)

end RtaiHardSoft
