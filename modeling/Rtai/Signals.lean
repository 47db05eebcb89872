import Rtai.Kernel
import Rtai.Runs

/-! # Real time signals

    `signal.c` for one task, with any sets `G` of signals, `H` of handler tasks
    and `P` of callers.  The bits of `flags` are tested and set one by one;
    `rt_exec_signal` and the body of `rt_wait_signal` are sections, and the
    test of `rt_signals` before that body is not in it.  Which of the ready
    tasks runs is left open, so priorities are not followed. -/

namespace RtaiSignals

open RtaiRuns
open RtaiKernel (Flag TaskState)

/-- Where a handler task stands in `signal_suprt_fun`. -/
inductive HandlerPc where
  /-- Not yet in `rt_request_signal_`. -/
  | unborn
  /-- `if (sigtask->rt_signals != NULL)` -/
  | test
  /-- Before the section of `rt_wait_signal`. -/
  | wait
  /-- In its `rt_schedule`. -/
  | asleep
  /-- In `sighdl`. -/
  | handler
  /-- Behind `rt_free(sigtask)`. -/
  | ended
  deriving DecidableEq

/-- Where a caller stands. -/
inductive CallerPc (G H : Type) where
  | idle
  /-- `rt_trigger_signal` -/
  | clearEn (g : G)
  | read (g : G)
  | exec (g : G) (h : Option H)
  | setEn (g : G)
  | setPnd (g : G)
  | testPnd (g : G)
  /-- `rt_release_signal` -/
  | relClear (g : G)
  | relRead (g : G)
  | relExec (g : G) (h : Option H)
  | relEnd (g : G)

/-- The task, its signals and their handlers. -/
structure Signals (G H P : Type) where
  /-- `pstate` and `state` of the task. -/
  pstate : Nat
  state : TaskState
  /-- `RT_SIGNALS[signal]` -/
  enbit : G → Bool
  pndbit : G → Bool
  sigtask : G → Option H
  /-- The handler tasks.  `rtSignals` is `rt_signals != NULL`, `retval` is
      `retval != 0`. -/
  suspdepth : H → Int
  sigState : H → TaskState
  rtSignals : H → Bool
  retval : H → Bool
  signal : H → G
  pc : H → HandlerPc
  caller : P → CallerPc G H
  /-- A null pointer or freed memory has been followed. -/
  wild : Bool
  /-- The handlers that have been started for the task and have not come back
      to wait or exited. -/
  started : Finset H
  /-- A trigger has been called since the last execution began. -/
  unserved : G → Bool

/-- The sections. -/
inductive Action (G H P : Type) where
  /-- `rt_request_signal_` by a new handler task. -/
  | request (g : G) (h : H)
  | trigger (p : P) (g : G)
  | release (p : P) (g : G)
  | enable (p : P) (g : G)
  | disable (p : P) (g : G)
  /-- The next step of a caller. -/
  | goOn (p : P)
  /-- The next step of a handler task. -/
  | run (h : H)
  /-- The task blocks, or is woken, for other reasons. -/
  | elsewhere (state : TaskState)

section Model

variable {G H P : Type} [decG : DecidableEq G] [decH : DecidableEq H] [decP : DecidableEq P]

/-- A caller moves. -/
def Signals.goto (s : Signals G H P) (p : P) (pc : CallerPc G H) :
    Signals G H P :=
  { s with caller := Function.update s.caller p pc }

/-- The handler is started for the task, which is stopped. -/
def stop (s : Signals G H P) (h : H) : Signals G H P :=
  { s with
    state := if s.pstate = 0 then s.state ∪ {.sigsusp} else s.state
    pstate := s.pstate + 1
    started := insert h s.started }

/-- `rt_exec_signal(sigtask, task)`, or with 0 for the task. -/
def rtExecSignal (s : Signals G H P) (h : H) (task : Bool) : Signals G H P :=
  if s.suspdepth h > 0 then
    let s := { s with
      suspdepth := Function.update s.suspdepth h (s.suspdepth h - 1) }
    if s.suspdepth h = 0 then
      let s := if task then stop s h else s
      { s with
        sigState := Function.update s.sigState h (s.sigState h \ {.sigsusp})
        retval := Function.update s.retval h task }
    else s
  else s

/-- `rt_wait_signal` has returned: on to the handler, or out of the loop. -/
def waited (s : Signals G H P) (h : H) : Signals G H P :=
  if s.retval h then
    { s with
      pc := Function.update s.pc h .handler
      unserved := Function.update s.unserved (s.signal h) false }
  else
    { s with
      pc := Function.update s.pc h .ended
      started := s.started.erase h }

/-- The section of `rt_wait_signal`. -/
def rtWaitSignal (s : Signals G H P) (h : H) : Signals G H P :=
  if s.suspdepth h = 0 then
    { s with
      suspdepth := Function.update s.suspdepth h 1
      sigState := Function.update s.sigState h (s.sigState h ∪ {.sigsusp})
      pc := Function.update s.pc h .asleep
      started := s.started.erase h
      pstate := s.pstate - 1
      state := if s.pstate = 1 then s.state \ {.sigsusp} else s.state }
  else
    waited { s with
      suspdepth := Function.update s.suspdepth h (s.suspdepth h + 1) } h

/-- The next step of a handler task. -/
def runHandler (s : Signals G H P) (h : H) : Option (Signals G H P) :=
  match s.pc h with
  | .unborn => none
  | .test =>
    if s.rtSignals h then some { s with pc := Function.update s.pc h .wait }
    else some { s with
      pc := Function.update s.pc h .ended
      started := s.started.erase h }
  | .wait => some (rtWaitSignal s h)
  | .asleep => if s.sigState h = {.ready} then some (waited s h) else none
  | .handler => some { s with pc := Function.update s.pc h .test }
  | .ended => none

/-- `f` on the handler task that `sigtask` points to. -/
def follow (s : Signals G H P) (sigtask : Option H) (f : H → Signals G H P) :
    Signals G H P :=
  match sigtask with
  | none => { s with wild := true }
  | some h => if s.pc h = .ended then { s with wild := true } else f h

/-- The next step of a caller. -/
def goOn (s : Signals G H P) (p : P) : Option (Signals G H P) :=
  match s.caller p with
  | .idle => none
  | .clearEn g =>
    if s.enbit g then
      some ({ s with enbit := Function.update s.enbit g false }.goto p (.read g))
    else some (s.goto p (.setPnd g))
  | .read g => some (s.goto p (.exec g (s.sigtask g)))
  | .exec g h =>
    some (follow s h fun h => (rtExecSignal s h true).goto p (.setEn g))
  | .setEn g =>
    some ({ s with enbit := Function.update s.enbit g true }.goto p (.testPnd g))
  | .setPnd g =>
    some ({ s with pndbit := Function.update s.pndbit g true }.goto p .idle)
  | .testPnd g =>
    if s.pndbit g then
      some ({ s with pndbit := Function.update s.pndbit g false }.goto p (.clearEn g))
    else some (s.goto p .idle)
  | .relClear g =>
    some (follow s (s.sigtask g) fun h =>
      { s with rtSignals := Function.update s.rtSignals h false }.goto p (.relRead g))
  | .relRead g => some (s.goto p (.relExec g (s.sigtask g)))
  | .relExec g h =>
    some (follow s h fun h => (rtExecSignal s h false).goto p (.relEnd g))
  | .relEnd g =>
    some ({ s with sigtask := Function.update s.sigtask g none }.goto p .idle)

/-- A caller outside any call. -/
def free (s : Signals G H P) (p : P) : Bool :=
  match s.caller p with
  | .idle => true
  | _ => false

/-- One section; none after a wild access. -/
def signalStep (s : Signals G H P) (a : Action G H P) : Option (Signals G H P × Unit) :=
  if s.wild then none
  else
    match a with
    | .request g h =>
      if s.pc h = .unborn then
        some ({ s with
          enbit := Function.update s.enbit g true
          pndbit := Function.update s.pndbit g false
          sigtask := Function.update s.sigtask g (some h)
          rtSignals := Function.update s.rtSignals h true
          signal := Function.update s.signal h g
          pc := Function.update s.pc h .test }, ())
      else none
    | .trigger p g =>
      if free s p then
        match s.sigtask g with
        | none => some (s, ())
        | some _ =>
          some ({ s with
            unserved := Function.update s.unserved g true }.goto p (.clearEn g), ())
      else none
    | .release p g =>
      if free s p then
        match s.sigtask g with
        | none => some (s, ())
        | some _ => some (s.goto p (.relClear g), ())
      else none
    | .enable p g =>
      if free s p then
        some ({ s with enbit := Function.update s.enbit g true }, ())
      else none
    | .disable p g =>
      if free s p then
        some ({ s with enbit := Function.update s.enbit g false }, ())
      else none
    | .goOn p => (goOn s p).map (·, ())
    | .run h => (runHandler s h).map (·, ())
    | .elsewhere state =>
      if .sigsusp ∈ state ↔ .sigsusp ∈ s.state then
        some ({ s with state }, ())
      else none

/-- No signal has been requested. -/
def unsignalled (signal : H → G) : Signals G H P where
  pstate := 0
  state := {.ready}
  enbit := fun _ => false
  pndbit := fun _ => false
  sigtask := fun _ => none
  suspdepth := fun _ => 0
  sigState := fun _ => {.ready}
  rtSignals := fun _ => false
  retval := fun _ => false
  signal := signal
  pc := fun _ => .unborn
  caller := fun _ => .idle
  wild := false
  started := ∅
  unserved := fun _ => false

/-! ## The handler tasks -/

/-- What holds of a handler task in every run. -/
structure Rests (s : Signals G H P) (h : H) : Prop where
  awake : s.pc h ≠ .asleep → s.suspdepth h = 0 ∧ s.sigState h = {.ready}
  asleep : s.pc h = .asleep →
    s.suspdepth h = 1 ∧ s.sigState h = {.ready, .sigsusp} ∧ h ∉ s.started ∨
    s.suspdepth h = 0 ∧ s.sigState h = {.ready} ∧ (s.retval h = true ↔ h ∈ s.started)
  out : s.pc h = .unborn ∨ s.pc h = .ended → h ∉ s.started

/-- Nothing has happened to the handler task. -/
structure Same (s s' : Signals G H P) (h : H) : Prop where
  pc : s'.pc h = s.pc h
  suspdepth : s'.suspdepth h = s.suspdepth h
  sigState : s'.sigState h = s.sigState h
  retval : s'.retval h = s.retval h
  started : h ∈ s'.started ↔ h ∈ s.started

omit decG decH decP in
theorem Rests.same {s s' : Signals G H P} {h : H} (hr : Rests s h)
    (hs : Same s s' h) : Rests s' h where
  awake := by
    rw [hs.pc, hs.suspdepth, hs.sigState]
    exact hr.awake
  asleep := by
    rw [hs.pc, hs.suspdepth, hs.sigState, hs.retval, hs.started]
    exact hr.asleep
  out := by
    rw [hs.pc, hs.started]
    exact hr.out

/-- Nothing has happened to the handler tasks, nor to the task. -/
structure Quiet (s s' : Signals G H P) : Prop where
  same : ∀ h, Same s s' h
  started : s'.started = s.started
  pstate : s'.pstate = s.pstate
  sigsusp : .sigsusp ∈ s'.state ↔ .sigsusp ∈ s.state

omit decG decH decP in
theorem Quiet.intro {s s' : Signals G H P} (pc : s'.pc = s.pc)
    (suspdepth : s'.suspdepth = s.suspdepth) (sigState : s'.sigState = s.sigState)
    (retval : s'.retval = s.retval) (started : s'.started = s.started)
    (pstate : s'.pstate = s.pstate)
    (sigsusp : .sigsusp ∈ s'.state ↔ .sigsusp ∈ s.state) : Quiet s s' where
  same h := by
    constructor
    · rw [pc]
    · rw [suspdepth]
    · rw [sigState]
    · rw [retval]
    · rw [started]
  started := started
  pstate := pstate
  sigsusp := sigsusp

/-- `rt_exec_signal` on a handler task that sleeps in `rt_wait_signal`. -/
def woken (s : Signals G H P) (h : H) (task : Bool) : Signals G H P :=
  { (if task then stop s h else s) with
    suspdepth := Function.update s.suspdepth h 0
    sigState := Function.update s.sigState h {.ready}
    retval := Function.update s.retval h task }

omit decG decP in
/-- A handler task that does not sleep is not woken, and is not remembered. -/
theorem rtExecSignal_cases {s : Signals G H P} {h : H} (hr : Rests s h) (task : Bool) :
    s.suspdepth h = 0 ∧ rtExecSignal s h task = s ∨
    s.pc h = .asleep ∧ s.suspdepth h = 1 ∧ h ∉ s.started ∧
      rtExecSignal s h task = woken s h task := by
  by_cases hpc : s.pc h = .asleep
  · obtain ⟨hd, hst, hn⟩ | ⟨hd, -, -⟩ := hr.asleep hpc
    · refine Or.inr ⟨hpc, hd, hn, ?_⟩
      have hstate : ({.ready, .sigsusp} : TaskState) \ {.sigsusp} = {.ready} := by
        decide
      cases task <;> simp [rtExecSignal, woken, stop, hd, hst, hstate]
    · refine Or.inl ⟨hd, ?_⟩
      simp [rtExecSignal, hd]
  · have hd := (hr.awake hpc).1
    refine Or.inl ⟨hd, ?_⟩
    simp [rtExecSignal, hd]

omit decG decH decP in
theorem follow_cases (s : Signals G H P) (sigtask : Option H) (f : H → Signals G H P) :
    follow s sigtask f = { s with wild := true } ∨
    ∃ h, sigtask = some h ∧ s.pc h ≠ .ended ∧ follow s sigtask f = f h := by
  cases sigtask with
  | none => exact Or.inl rfl
  | some h =>
    by_cases hpc : s.pc h = .ended
    · exact Or.inl (if_pos hpc)
    · exact Or.inr ⟨h, rfl, hpc, if_neg hpc⟩

/-- At most the handler task `h` has been woken. -/
def Woke (s s' : Signals G H P) : Prop :=
  Quiet s s' ∨
  ∃ h task, s.pc h = .asleep ∧ s.suspdepth h = 1 ∧ h ∉ s.started ∧ Quiet (woken s h task) s'

omit decG in
theorem woke_exec {s : Signals G H P} (hr : ∀ h, Rests s h) (sigtask : Option H)
    (task : Bool) (p : P) (pc : CallerPc G H) :
    Woke s (follow s sigtask fun h => (rtExecSignal s h task).goto p pc) := by
  obtain he | ⟨h, -, -, he⟩ := follow_cases s sigtask
    fun h => (rtExecSignal s h task).goto p pc
  · rw [he]
    exact Or.inl (.intro rfl rfl rfl rfl rfl rfl Iff.rfl)
  · rw [he]
    obtain ⟨-, hw⟩ | ⟨hpc, hd, hn, hw⟩ := rtExecSignal_cases (hr h) task
    · rw [hw]
      exact Or.inl (.intro rfl rfl rfl rfl rfl rfl Iff.rfl)
    · rw [hw]
      exact Or.inr ⟨h, task, hpc, hd, hn, .intro rfl rfl rfl rfl rfl rfl Iff.rfl⟩

theorem goOn_woke {s s' : Signals G H P} {p : P} (hr : ∀ h, Rests s h)
    (hs : goOn s p = some s') : Woke s s' := by
  have hquiet : ∀ {pc : CallerPc G H} {enbit pndbit rtSignals sigtask},
      Woke s ({ s with enbit, pndbit, rtSignals, sigtask }.goto p pc) :=
    Or.inl (.intro rfl rfl rfl rfl rfl rfl Iff.rfl)
  simp only [goOn] at hs
  split at hs
  case h_1 => exact nomatch hs
  case h_4 => exact Option.some.inj hs ▸ woke_exec hr _ _ _ _
  case h_10 => exact Option.some.inj hs ▸ woke_exec hr _ _ _ _
  case h_8 g _ =>
    obtain he | ⟨h, -, -, he⟩ := follow_cases s (s.sigtask g) fun h =>
      { s with rtSignals := Function.update s.rtSignals h false }.goto p (.relRead g)
    · rw [he] at hs
      exact Option.some.inj hs ▸ Or.inl (.intro rfl rfl rfl rfl rfl rfl Iff.rfl)
    · rw [he] at hs
      exact Option.some.inj hs ▸ hquiet
  case h_2 =>
    split at hs
    · exact Option.some.inj hs ▸ hquiet
    · exact Option.some.inj hs ▸ hquiet
  case h_7 =>
    split at hs
    · exact Option.some.inj hs ▸ hquiet
    · exact Option.some.inj hs ▸ hquiet
  all_goals exact Option.some.inj hs ▸ hquiet

omit decG decP in
/-- The facts of one handler task when something has happened to it alone. -/
theorem rests_change {s s' : Signals G H P} {h : H} (hr : ∀ u, Rests s u)
    (hsame : ∀ u, u ≠ h → Same s s' u) (hh : Rests s' h) : ∀ u, Rests s' u := by
  intro u
  by_cases hu : u = h
  · exact hu ▸ hh
  · exact (hr u).same (hsame u hu)

theorem mem_insert_other {u h : H} {started : Finset H} (hu : u ≠ h) :
    u ∈ insert h started ↔ u ∈ started := by
  rw [Finset.mem_insert]
  exact or_iff_right hu

theorem mem_erase_other {u h : H} {started : Finset H} (hu : u ≠ h) :
    u ∈ started.erase h ↔ u ∈ started := by
  rw [Finset.mem_erase]
  exact and_iff_right hu

omit decG decP in
theorem rests_woken {s : Signals G H P} {h : H} (task : Bool)
    (hr : ∀ u, Rests s u) (hpc : s.pc h = .asleep) (hn : h ∉ s.started) :
    ∀ u, Rests (woken s h task) u := by
  have hpc' : (woken s h task).pc = s.pc := by
    cases task <;> rfl
  refine rests_change hr (h := h) ?_ ?_
  · intro u hu
    constructor
    · rw [hpc']
    · exact Function.update_of_ne hu _ _
    · exact Function.update_of_ne hu _ _
    · exact Function.update_of_ne hu _ _
    · cases task with
      | false => exact Iff.rfl
      | true => exact mem_insert_other hu
  · constructor
    · intro hne
      exact absurd (hpc'.symm ▸ hpc) hne
    · intro _
      refine Or.inr ⟨Function.update_self .., Function.update_self .., ?_⟩
      show Function.update s.retval h task h = true ↔ _
      rw [Function.update_self]
      cases task with
      | false => exact ⟨nofun, fun h => absurd h hn⟩
      | true => exact ⟨fun _ => Finset.mem_insert_self .., fun _ => rfl⟩
    · rw [hpc', hpc]
      exact nofun

omit decG decH decP in
theorem rests_quiet {s s' : Signals G H P} (hr : ∀ u, Rests s u)
    (hq : Quiet s s') : ∀ u, Rests s' u :=
  fun u => (hr u).same (hq.same u)

omit decG decP in
theorem rests_woke {s s' : Signals G H P} (hr : ∀ u, Rests s u)
    (hw : Woke s s') : ∀ u, Rests s' u := by
  obtain hq | ⟨h, task, hpc, -, hn, hq⟩ := hw
  · exact rests_quiet hr hq
  · exact rests_quiet (rests_woken task hr hpc hn) hq

/-- The section of `rt_wait_signal`, for a handler task that rests. -/
def slept (s : Signals G H P) (h : H) : Signals G H P :=
  { s with
    suspdepth := Function.update s.suspdepth h 1
    sigState := Function.update s.sigState h {.ready, .sigsusp}
    pc := Function.update s.pc h .asleep
    started := s.started.erase h
    pstate := s.pstate - 1
    state := if s.pstate = 1 then s.state \ {.sigsusp} else s.state }

/-- Out of the loop of `signal_suprt_fun`. -/
def exited (s : Signals G H P) (h : H) : Signals G H P :=
  { s with
    pc := Function.update s.pc h .ended
    started := s.started.erase h }

/-- The ways in which a handler task goes on. -/
inductive Runs (s : Signals G H P) (h : H) : Signals G H P → Prop
  | entered (hpc : s.pc h = .test) (hrt : s.rtSignals h = true) :
      Runs s h { s with pc := Function.update s.pc h .wait }
  | left (hpc : s.pc h = .test) (hrt : s.rtSignals h = false) : Runs s h (exited s h)
  | slept (hpc : s.pc h = .wait) : Runs s h (slept s h)
  | began (hpc : s.pc h = .asleep) (hd : s.suspdepth h = 0)
      (hret : s.retval h = true) (hst : h ∈ s.started) :
      Runs s h { s with
        pc := Function.update s.pc h .handler
        unserved := Function.update s.unserved (s.signal h) false }
  | released (hpc : s.pc h = .asleep) (hd : s.suspdepth h = 0)
      (hst : h ∉ s.started) : Runs s h (exited s h)
  | returned (hpc : s.pc h = .handler) : Runs s h { s with pc := Function.update s.pc h .test }

omit decP in
theorem runHandler_runs {s s' : Signals G H P} {h : H} (hr : Rests s h)
    (hs : runHandler s h = some s') : Runs s h s' := by
  simp only [runHandler] at hs
  split at hs
  case h_1 => exact nomatch hs
  case h_2 hpc =>
    cases hrt : s.rtSignals h with
    | true =>
      rw [if_pos hrt] at hs
      exact Option.some.inj hs ▸ .entered hpc hrt
    | false =>
      rw [if_neg (by simp [hrt])] at hs
      exact Option.some.inj hs ▸ .left hpc hrt
  case h_3 hpc =>
    obtain ⟨hd, hst⟩ := hr.awake (by rw [hpc]; exact nofun)
    have hstate : ({.ready} : TaskState) ∪ {.sigsusp} = {.ready, .sigsusp} := by
      decide
    have he : rtWaitSignal s h = slept s h := by
      simp only [rtWaitSignal, if_pos hd, hst, hstate, slept]
    exact Option.some.inj hs ▸ he ▸ .slept hpc
  case h_4 hpc =>
    obtain ⟨-, hst, -⟩ | ⟨hd, hst, hret⟩ := hr.asleep hpc
    · rw [hst, if_neg (by decide)] at hs
      exact nomatch hs
    · rw [hst, if_pos rfl] at hs
      simp only [waited] at hs
      by_cases hv : s.retval h = true
      · rw [if_pos hv] at hs
        exact Option.some.inj hs ▸ .began hpc hd hv (hret.mp hv)
      · rw [if_neg hv] at hs
        exact Option.some.inj hs ▸ .released hpc hd fun hm => hv (hret.mpr hm)
  case h_5 hpc => exact Option.some.inj hs ▸ .returned hpc
  case h_6 => exact nomatch hs

omit decG decP in
/-- The handler task goes to a place where it does not sleep. -/
theorem rests_goto {s : Signals G H P} {h : H} {pc : HandlerPc} {unserved}
    (hr : ∀ u, Rests s u) (hd : s.suspdepth h = 0) (hst : s.sigState h = {.ready})
    (hpc : pc = .test ∨ pc = .wait ∨ pc = .handler) :
    ∀ u, Rests { s with pc := Function.update s.pc h pc, unserved } u := by
  refine rests_change hr (h := h) ?_ ?_
  · intro u hu
    exact ⟨Function.update_of_ne hu _ _, rfl, rfl, rfl, Iff.rfl⟩
  · have hself : Function.update s.pc h pc h = pc := Function.update_self ..
    constructor
    · exact fun _ => ⟨hd, hst⟩
    · intro ha
      have ha : pc = .asleep := hself.symm.trans ha
      subst ha
      simp at hpc
    · intro ha
      have ha : pc = .unborn ∨ pc = .ended := hself ▸ ha
      obtain rfl | rfl := ha
      · simp at hpc
      · simp at hpc

omit decG decP in
theorem rests_exited {s : Signals G H P} {h : H} (hr : ∀ u, Rests s u)
    (hd : s.suspdepth h = 0) (hst : s.sigState h = {.ready}) :
    ∀ u, Rests (exited s h) u := by
  refine rests_change hr (h := h) ?_ ?_
  · intro u hu
    exact ⟨Function.update_of_ne hu _ _, rfl, rfl, rfl, mem_erase_other hu⟩
  · have hself : (exited s h).pc h = .ended := Function.update_self ..
    constructor
    · exact fun _ => ⟨hd, hst⟩
    · intro ha
      exact nomatch hself.symm.trans ha
    · exact fun _ => Finset.notMem_erase h s.started

omit decG decP in
theorem rests_slept {s : Signals G H P} {h : H} (hr : ∀ u, Rests s u) :
    ∀ u, Rests (slept s h) u := by
  refine rests_change hr (h := h) ?_ ?_
  · intro u hu
    exact ⟨Function.update_of_ne hu _ _, Function.update_of_ne hu _ _,
      Function.update_of_ne hu _ _, rfl, mem_erase_other hu⟩
  · constructor
    · intro hne
      exact absurd (Function.update_self ..) hne
    · exact fun _ => Or.inl ⟨Function.update_self .., Function.update_self ..,
        Finset.notMem_erase h s.started⟩
    · exact fun _ => Finset.notMem_erase h s.started

omit decG decH decP in
theorem Rests.up {s : Signals G H P} {h : H} (hr : Rests s h)
    (hd : s.suspdepth h = 0) : s.sigState h = {.ready} := by
  by_cases hpc : s.pc h = .asleep
  · obtain ⟨h1, -, -⟩ | ⟨-, hst, -⟩ := hr.asleep hpc
    · exact absurd (hd.symm.trans h1) (by decide)
    · exact hst
  · exact (hr.awake hpc).2

omit decP in
theorem rests_runs {s s' : Signals G H P} {h : H} (hr : ∀ u, Rests s u)
    (hs : Runs s h s') : ∀ u, Rests s' u := by
  have hdown : s.pc h ≠ .asleep → s.suspdepth h = 0 := fun hpc =>
    ((hr h).awake hpc).1
  cases hs with
  | entered hpc =>
    have hd := hdown (by rw [hpc]; exact nofun)
    exact rests_goto hr hd ((hr h).up hd) (.inr (.inl rfl))
  | left hpc =>
    have hd := hdown (by rw [hpc]; exact nofun)
    exact rests_exited hr hd ((hr h).up hd)
  | slept => exact rests_slept hr
  | began _ hd => exact rests_goto hr hd ((hr h).up hd) (.inr (.inr rfl))
  | released _ hd => exact rests_exited hr hd ((hr h).up hd)
  | returned hpc =>
    have hd := hdown (by rw [hpc]; exact nofun)
    exact rests_goto hr hd ((hr h).up hd) (.inl rfl)

/-- The ways in which the signals go on. -/
inductive Steps (s : Signals G H P) : Action G H P → Signals G H P → Prop
  | woke {a s'} (ha : ∀ h, a ≠ .run h) (hw : Woke s s') : Steps s a s'
  | requested {g h s'} (hpc : s.pc h = .unborn)
      (hq : Quiet { s with pc := Function.update s.pc h .test } s') :
      Steps s (.request g h) s'
  | ran {h s'} (hs : Runs s h s') : Steps s (.run h) s'

theorem signalStep_steps {s s' : Signals G H P} {a : Action G H P} {o : Unit}
    (hr : ∀ h, Rests s h) (hs : signalStep s a = some (s', o)) :
    Steps s a s' := by
  simp only [signalStep] at hs
  split at hs
  · exact nomatch hs
  cases a with
  | request g h =>
    by_cases hpc : s.pc h = .unborn
    · simp only [if_pos hpc] at hs
      cases hs
      exact .requested hpc (.intro rfl rfl rfl rfl rfl rfl Iff.rfl)
    · simp only [if_neg hpc] at hs
      exact nomatch hs
  | trigger p g =>
    refine .woke nofun (Or.inl ?_)
    simp only at hs
    split at hs
    · split at hs
      · cases hs
        exact .intro rfl rfl rfl rfl rfl rfl Iff.rfl
      · cases hs
        exact .intro rfl rfl rfl rfl rfl rfl Iff.rfl
    · exact nomatch hs
  | release p g =>
    refine .woke nofun (Or.inl ?_)
    simp only at hs
    split at hs
    · split at hs
      · cases hs
        exact .intro rfl rfl rfl rfl rfl rfl Iff.rfl
      · cases hs
        exact .intro rfl rfl rfl rfl rfl rfl Iff.rfl
    · exact nomatch hs
  | enable p g =>
    refine .woke nofun (Or.inl ?_)
    simp only at hs
    split at hs
    · cases hs
      exact .intro rfl rfl rfl rfl rfl rfl Iff.rfl
    · exact nomatch hs
  | disable p g =>
    refine .woke nofun (Or.inl ?_)
    simp only at hs
    split at hs
    · cases hs
      exact .intro rfl rfl rfl rfl rfl rfl Iff.rfl
    · exact nomatch hs
  | goOn p =>
    obtain ⟨t, ht, he⟩ := Option.map_eq_some_iff.mp hs
    cases he
    exact .woke nofun (goOn_woke hr ht)
  | run h =>
    obtain ⟨t, ht, he⟩ := Option.map_eq_some_iff.mp hs
    cases he
    exact .ran (runHandler_runs (hr h) ht)
  | elsewhere state =>
    refine .woke nofun (Or.inl ?_)
    simp only at hs
    split at hs
    · next hst =>
      cases hs
      exact .intro rfl rfl rfl rfl rfl rfl hst
    · exact nomatch hs

omit decP in
theorem rests_step {s s' : Signals G H P} {a : Action G H P}
    (hr : ∀ u, Rests s u) (hs : Steps s a s') : ∀ u, Rests s' u := by
  cases hs with
  | woke _ hw => exact rests_woke hr hw
  | requested hpc hq =>
    have hd := (hr _).awake (by rw [hpc]; exact nofun)
    exact rests_quiet (rests_goto hr hd.1 hd.2 (.inl rfl)) hq
  | ran hs => exact rests_runs hr hs

omit decG decH decP in
theorem rests_unsignalled (signal : H → G) (h : H) :
    Rests (unsignalled signal : Signals G H P) h where
  awake _ := ⟨rfl, rfl⟩
  asleep := nofun
  out _ := Finset.notMem_empty h

/-! ## Stopping and restarting the task -/

/-- The task is stopped while handlers run. -/
structure Balanced (s : Signals G H P) : Prop where
  pstate : s.pstate = s.started.card
  sigsusp : .sigsusp ∈ s.state ↔ 0 < s.pstate

/-- No handler that has been started finds its signal released when it comes
    back to wait, and none waits for the first time while another runs. -/
def Timely (s : Signals G H P) : Action G H P → Prop
  | .run h =>
    (s.pc h = .test → s.rtSignals h = false → h ∉ s.started) ∧
    (s.pc h = .wait → h ∉ s.started → s.pstate = 0)
  | _ => True

omit decG decH decP in
theorem Balanced.quiet {s s' : Signals G H P} (hb : Balanced s)
    (hq : Quiet s s') : Balanced s' where
  pstate := by rw [hq.pstate, hq.started]; exact hb.pstate
  sigsusp := by rw [hq.pstate, hq.sigsusp]; exact hb.sigsusp

omit decG decP in
theorem Balanced.woken {s : Signals G H P} {h : H} (task : Bool)
    (hb : Balanced s) (hn : h ∉ s.started) : Balanced (woken s h task) := by
  cases task with
  | false => exact ⟨hb.pstate, hb.sigsusp⟩
  | true =>
    constructor
    · show s.pstate + 1 = (insert h s.started).card
      rw [Finset.card_insert_of_notMem hn, hb.pstate]
    · show _ ∈ (if s.pstate = 0 then s.state ∪ {.sigsusp} else s.state) ↔ _
      refine iff_of_true ?_ (Nat.succ_pos _)
      by_cases h0 : s.pstate = 0
      · rw [if_pos h0]
        exact Finset.mem_union_right _ (Finset.mem_singleton_self _)
      · rw [if_neg h0]
        exact hb.sigsusp.mpr (Nat.pos_of_ne_zero h0)

omit decG decP in
theorem Balanced.woke {s s' : Signals G H P} (hb : Balanced s)
    (hw : Woke s s') : Balanced s' := by
  obtain hq | ⟨h, task, -, -, hn, hq⟩ := hw
  · exact hb.quiet hq
  · exact (hb.woken task hn).quiet hq

omit decG decP in
/-- A handler that comes back to wait gives its stop back. -/
theorem Balanced.slept {s : Signals G H P} {h : H} (hb : Balanced s) :
    Balanced (slept s h) ↔ (h ∉ s.started → s.pstate = 0) := by
  by_cases hm : h ∈ s.started
  · refine iff_of_true ?_ fun hn => absurd hm hn
    have hpos : 0 < s.pstate := hb.pstate ▸ Finset.card_pos.mpr ⟨h, hm⟩
    constructor
    · show s.pstate - 1 = (s.started.erase h).card
      rw [Finset.card_erase_of_mem hm, hb.pstate]
    · show _ ∈ (if s.pstate = 1 then s.state \ {.sigsusp} else s.state) ↔ 0 < s.pstate - 1
      by_cases h1 : s.pstate = 1
      · rw [if_pos h1, h1]
        simp
      · rw [if_neg h1, hb.sigsusp]
        omega
  · have hst : (RtaiSignals.slept s h).started = s.started :=
      Finset.erase_eq_of_notMem hm
    constructor
    · intro hb' _
      have hp : s.pstate - 1 = s.started.card := hst ▸ hb'.pstate
      have hb := hb.pstate
      omega
    · intro h0
      have h0 := h0 hm
      constructor
      · show s.pstate - 1 = _
        rw [hst, h0, ← hb.pstate, h0]
      · show _ ∈ (if s.pstate = 1 then s.state \ {.sigsusp} else s.state) ↔ 0 < s.pstate - 1
        rw [if_neg (by omega), hb.sigsusp]
        omega

omit decG decP in
theorem Balanced.exited {s : Signals G H P} {h : H} (hb : Balanced s) :
    Balanced (exited s h) ↔ h ∉ s.started := by
  constructor
  · intro hb' hm
    have hp : s.pstate = (s.started.erase h).card := hb'.pstate
    rw [Finset.card_erase_of_mem hm, hb.pstate] at hp
    have hpos := Finset.card_pos.mpr ⟨h, hm⟩
    omega
  · intro hn
    exact ⟨by rw [show (RtaiSignals.exited s h).started = s.started from
      Finset.erase_eq_of_notMem hn]; exact hb.pstate, hb.sigsusp⟩

omit decG decH decP in
theorem timely_run {s : Signals G H P} {h : H} (ht : s.pc h ≠ .test)
    (hw : s.pc h ≠ .wait) : Timely s (.run h) :=
  ⟨fun hpc => absurd hpc ht, fun hpc => absurd hpc hw⟩

omit decP in
theorem balanced_step {s s' : Signals G H P} {a : Action G H P}
    (hb : Balanced s) (hs : Steps s a s') : Balanced s' ↔ Timely s a := by
  cases hs with
  | woke ha hw =>
    refine iff_of_true (hb.woke hw) ?_
    cases a with
    | run h => exact absurd rfl (ha h)
    | _ => trivial
  | @requested g h _ _ hq =>
    have hb' : Balanced { s with pc := Function.update s.pc h .test } :=
      ⟨hb.pstate, hb.sigsusp⟩
    exact iff_of_true (hb'.quiet hq) trivial
  | ran hs =>
    cases hs with
    | entered hpc hrt =>
      refine iff_of_true ⟨hb.pstate, hb.sigsusp⟩ ⟨?_, ?_⟩
      · intro _ hrt'
        exact nomatch hrt.symm.trans hrt'
      · intro hpc'
        exact nomatch hpc.symm.trans hpc'
    | left hpc hrt =>
      refine hb.exited.trans ⟨?_, ?_⟩
      · intro hn
        refine ⟨fun _ _ => hn, ?_⟩
        intro hpc'
        exact nomatch hpc.symm.trans hpc'
      · intro ht
        exact ht.1 hpc hrt
    | slept hpc =>
      refine hb.slept.trans ⟨?_, ?_⟩
      · intro h0
        refine ⟨?_, fun _ => h0⟩
        intro hpc'
        exact nomatch hpc.symm.trans hpc'
      · intro ht
        exact ht.2 hpc
    | began hpc =>
      exact iff_of_true ⟨hb.pstate, hb.sigsusp⟩
        (timely_run (by rw [hpc]; exact nofun) (by rw [hpc]; exact nofun))
    | released hpc _ hst =>
      exact iff_of_true (hb.exited.mpr hst)
        (timely_run (by rw [hpc]; exact nofun) (by rw [hpc]; exact nofun))
    | returned hpc =>
      exact iff_of_true ⟨hb.pstate, hb.sigsusp⟩
        (timely_run (by rw [hpc]; exact nofun) (by rw [hpc]; exact nofun))

omit decG decH decP in
theorem balanced_unsignalled (signal : H → G) :
    Balanced (unsignalled signal : Signals G H P) where
  pstate := rfl
  sigsusp := by
    show Flag.sigsusp ∈ ({.ready} : TaskState) ↔ 0 < 0
    decide

theorem rests_reach {guard : Signals G H P → Action G H P → Prop}
    {signal : H → G} {s : Signals G H P}
    (hs : Reach signalStep guard (unsignalled signal) s) : ∀ h, Rests s h :=
  hs.invariant (rests_unsignalled signal) fun _ _ _ _ hr _ ht =>
    rests_step hr (signalStep_steps hr ht)

/-- **The task is stopped as often as its handlers run**, in every run in which
    no started handler finds its signal released. -/
theorem signal_stops_restarts (signal : H → G) (s : Signals G H P)
    (hs : Reach signalStep Timely (unsignalled signal) s) :
    Balanced s ∧
    ∀ a o s', signalStep s a = some (s', o) → (Balanced s' ↔ Timely s a) := by
  have hr := rests_reach hs
  have hb : Balanced s := by
    -- the tasks that rest are needed for the balance
    have hboth : (∀ h, Rests s h) ∧ Balanced s := by
      refine hs.invariant (I := fun s => (∀ h, Rests s h) ∧ Balanced s)
        ⟨rests_unsignalled signal, balanced_unsignalled signal⟩ ?_
      intro t a t' o ⟨hr, hb⟩ ht hstep
      have hsteps := signalStep_steps hr hstep
      exact ⟨rests_step hr hsteps, (balanced_step hb hsteps).mpr ht⟩
    exact hboth.2
  refine ⟨hb, ?_⟩
  intro a o s' hstep
  exact balanced_step hb (signalStep_steps hr hstep)

end Model

instance (s : Signals (Fin 1) (Fin 1) (Fin 1)) (a : Action (Fin 1) (Fin 1) (Fin 1)) :
    Decidable (Timely s a) :=
  match a with
  | .run _ => inferInstanceAs (Decidable ((_ → _ → _) ∧ (_ → _ → _)))
  | .request _ _ => isTrue trivial
  | .trigger _ _ => isTrue trivial
  | .release _ _ => isTrue trivial
  | .enable _ _ => isTrue trivial
  | .disable _ _ => isTrue trivial
  | .goOn _ => isTrue trivial
  | .elsewhere _ => isTrue trivial

/-- The handler waits, the signal is triggered and the handler begins. -/
def handlerRun : List (Action (Fin 1) (Fin 1) (Fin 1)) :=
  [.request 0 0, .run 0, .run 0, .trigger 0 0, .goOn 0, .goOn 0, .goOn 0, .run 0]

theorem signal_stops_restarts_handler :
    ∃ s : Signals (Fin 1) (Fin 1) (Fin 1), s.pstate = 1 ∧ Balanced s := by
  obtain ⟨s, hplay, hp⟩ : ∃ s, play signalStep Timely (unsignalled fun _ => 0)
      handlerRun = some s ∧ s.pstate = 1 := ⟨_, rfl, rfl⟩
  exact ⟨s, hp, (signal_stops_restarts _ s (reach_of_play hplay)).1⟩

/-- The signal is released while the handler executes, and the handler comes
    back to `rt_wait_signal`. -/
def releasedRun : List (Action (Fin 1) (Fin 1) (Fin 1)) :=
  handlerRun ++ [Action.goOn 0, .goOn 0, .release 0 0, .goOn 0, .goOn 0, .goOn 0,
    .goOn 0, .run 0, .run 0]

/-- **THE TASK IS LEFT SUSPENDED**, with no handler left to restart it. -/
theorem released_left_suspended : ∃ s : Signals (Fin 1) (Fin 1) (Fin 1),
      Reach signalStep (fun _ _ => True) (unsignalled fun _ => 0) s ∧
      s.pc 0 = .ended ∧ ¬ Balanced s := by
  obtain ⟨s, hplay, hp, hpc, hst⟩ : ∃ s, play signalStep (fun _ _ => True)
      (unsignalled fun _ => 0) releasedRun = some s ∧ s.pstate = 1 ∧
      s.pc 0 = .ended ∧ s.started.card = 0 := ⟨_, rfl, rfl, rfl, rfl⟩
  refine ⟨s, reach_of_play hplay, hpc, fun hb => ?_⟩
  have h1 := hb.pstate
  omega

end RtaiSignals
