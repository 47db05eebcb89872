import Rtai.ByteStream

/-! # The sleepers of a mailbox

    Senders and receivers share one `waiting_task`.  Here the sections of
    `Mailbox` go on beside the `state` of the tasks, with any mask for
    `rt_task_masked_unblock`, and with tasks that are hard or soft: a soft one
    that has been woken keeps `RT_SCHED_SFTRDY` until Linux runs it.

    A task in the queue of `sndsem` or `rcvsem` is not followed there. -/

namespace RtaiSleepers

open RtaiRuns RtaiMailbox
open RtaiByteStream (role sem_setSem)
open RtaiKernel (Flag Ret TaskState)

/-- The mailboxes with the states of the tasks. -/
structure Sys (T M : Type) where
  st : St T M
  isHard : T → Bool
  state : T → TaskState
  /-- The call has updated counters since its last `mbx_signal`. -/
  owes : T → Bool

/-- The sections, and what the timer does. -/
inductive Action (T M : Type) where
  | call (t : T) (r : Request M)
  | run (t : T)
  | giveUp (t : T) (error : Ret T)
  | expire (t : T)
  | unblock (t : T) (mask : TaskState)
  | tick (time timeH : Int)

section Model

variable {T M : Type} [decT : DecidableEq T] [decM : DecidableEq M]

/-- `state` of a task. -/
def Sys.setState (s : Sys T M) (t : T) (state : TaskState) : Sys T M :=
  { s with state := Function.update s.state t state }

/-- `enq_ready_task`, for a task that sleeps in `mbx_wait`. -/
def enqReadyTask (s : Sys T M) (t : T) : Sys T M :=
  let st := s.st.goto t (s.st.pc t).readyMbx
  if s.isHard t then { s with st }
  else { s with st }.setState t (s.state t ∪ {Flag.sftrdy})

/-- `mbx_wait` and `mbx_wait_until` up to the reschedule, with the bits that
    they set. -/
def mbxSleep (s : Sys T M) (t : T) (c : Call M) : Sys T M :=
  let s := { s with st := mbxWait s.st t c }
  match s.st.pc t with
  | .call _ (.asleep false) => s.setState t (s.state t ∪ {Flag.mbxsusp})
  | .call _ (.asleep true) => s.setState t (s.state t ∪ {Flag.mbxsusp, Flag.delayed})
  | _ => s

/-- The return to `mbx_wait` and `mbx_wait_until`.  The state of a soft task is
    set behind the `schedule()` of `rt_schedule`. -/
def mbxResume (s : Sys T M) (t : T) (c : Call M) : Sys T M :=
  let s := if s.isHard t then s
    else s.setState t ((s.state t \ {.sftrdy}) ∪ {.ready})
  { s with st := mbxWaitTail s.st t c }

/-- `mbx_signal` -/
def signalWaiter (s : Sys T M) (m : M) : Sys T M :=
  match (s.st.mbx m).waitingTask with
  | none => s
  | some u =>
    let x := { s.st.mbx m with waitingTask := none }
    let s := { s with st := (s.st.setMbx m x).block u .null }
    if s.state u ≠ {.ready} then
      let s := s.setState u (s.state u \ {.mbxsusp, .delayed})
      if s.state u = {.ready} then enqReadyTask s u else s
    else s

/-- A pass of the loop of `wake_up_timed_tasks`. -/
def wakeUpTimedTask (s : Sys T M) (t : T) : Sys T M :=
  let s := s.setState t (s.state t \ {.delayed, .suspended, .semaphore,
    .receive, .send, .rpc, .ret, .mbxsusp, .poll})
  if s.state t = {.ready} then enqReadyTask s t else s

/-- `rt_task_masked_unblock` of a task in `mbx_wait` or `mbx_wait_until`. -/
def rtTaskMaskedUnblock (s : Sys T M) (t : T) (mask : TaskState) : Sys T M :=
  if s.state t ≠ ∅ ∧ s.state t ≠ {.ready} then
    let s := s.setState t (s.state t \ mask)
    if s.state t = {.ready} then
      enqReadyTask { s with st := s.st.block t .unblkd } t
    else s
  else s

/-- The next section of a send or a receive. -/
def runSection (s : Sys T M) (t : T) (c : Call M) : Stage T → Option (Sys T M × Event T M)
  | .loop =>
    if c.msgSize ≠ 0 then some (mbxSleep s t c, .silent)
    else some ({ s with st := s.st.goto t (.call c (.semSignal none)) }, .silent)
  | .woken => some (mbxResume s t c, .silent)
  | .counters n bytes =>
    let r := counters s.st t c n bytes
    some ({ s with st := r.1, owes := Function.update s.owes t true }, r.2)
  | .dropCounters n =>
    some ({ s with
      st := dropCounters s.st t c n
      owes := Function.update s.owes t true }, .silent)
  | .mbxSignal =>
    let s := signalWaiter s c.mbx
    some ({ s with
      st := s.st.goto t (.call c c.mode.afterSignal)
      owes := Function.update s.owes t false }, .silent)
  | stage =>
    (runCall s.st t c stage).map fun r => ({ s with st := r.1 }, r.2)

/-- The task stands in `mbx_wait` or `mbx_wait_until`. -/
def waiting : Pc T M → Bool
  | .call _ (.asleep _) => true
  | .call _ .woken => true
  | _ => false

/-- One step.  There is none after a copy has gone outside a buffer. -/
def sleepStep (s : Sys T M) (a : Action T M) : Option (Sys T M × Event T M) :=
  if s.st.wild then none
  else
    match a with
    | .call t r =>
      match s.st.pc t, r with
      | _, .poll _ _ => none
      | .idle, r =>
        let p := request s.st t r
        some ({ s with st := p.1 }, p.2)
      | _, _ => none
    | .run t =>
      match s.st.pc t with
      | .call c stage => runSection s t c stage
      | _ => none
    | .giveUp t error =>
      match s.st.pc t with
      | .call c .semWait =>
        some ({ s with st := s.st.goto t .idle }, .returned t (semError c error))
      | _ => none
    | .expire t =>
      match s.st.pc t with
      | .call _ (.asleep _) =>
        if .delayed ∈ s.state t ∧ s.st.resumeTime t ≤ s.st.timeH then
          some (wakeUpTimedTask s t, .silent)
        else none
      | _ => none
    | .unblock t mask =>
      if waiting (s.st.pc t) then
        some (rtTaskMaskedUnblock s t mask, .silent)
      else none
    | .tick time timeH => some ({ s with st := { s.st with time, timeH } }, .silent)

/-- Every mailbox is new and no task is in a call. -/
def quiet (buffer : M → List UInt8) (priority : T → Int) (isHard : T → Bool) :
    Sys T M where
  st := boot buffer priority
  isHard := isHard
  state := fun _ => {.ready}
  owes := fun _ => false

/-! ## The property -/

/-- `t` is blocked with `RT_SCHED_MBXSUSP` on the mailbox. -/
def Sleeps (s : Sys T M) (t : T) (m : M) (side : Side) : Prop :=
  ∃ c delayed, s.st.pc t = .call c (.asleep delayed) ∧ c.mbx = m ∧
    c.side = side ∧ .mbxsusp ∈ s.state t

/-- No task is between a counter update and the following `mbx_signal`. -/
def Signalled (s : Sys T M) (m : M) : Prop :=
  ∀ t c stage, s.st.pc t = .call c stage → c.mbx = m → s.owes t = false

/-- No sleeper is left behind. -/
def NoneLeft (s : Sys T M) : Prop :=
  ∀ m, Signalled s m → (∀ t t' side side', Sleeps s t m side → Sleeps s t' m side' → t = t') ∧
    ∀ t side, Sleeps s t m side → (s.st.mbx m).waitingTask = some t ∧
      (s.st.mbx m).fravbs side = 0

/-- A task that goes on in `mbx_wait` or `mbx_wait_until` with an error finds
    in `waiting_task` no other that is blocked there. -/
def Spares (s : Sys T M) : Action T M → Prop
  | .run t => ∀ c u side, s.st.pc t = .call c .woken →
      s.st.blockedOn t ≠ .null → Sleeps s u c.mbx side →
      (s.st.mbx c.mbx).waitingTask ≠ some u
  | _ => True

/-- No `rt_task_masked_unblock` makes a task ready in `mbx_wait` or
    `mbx_wait_until` that `mbx_signal` has been at. -/
def Leaves (s : Sys T M) : Action T M → Prop
  | .unblock t mask => waiting (s.st.pc t) = true → s.state t ≠ {.ready} →
      s.state t \ mask = {.ready} → s.st.blockedOn t ≠ .null
  | _ => True

end Model

/-! ## One step and the mailboxes -/

section Rooms

variable {T M : Type} [decT : DecidableEq T] [decM : DecidableEq M]

/-- Two mailboxes alike but for the buffer and the pollers. -/
structure SameRoom (x y : Mbx T) : Prop where
  size : x.size = y.size
  frbs : x.frbs = y.frbs
  avbs : x.avbs = y.avbs
  sem : x.sem = y.sem
  waitingTask : x.waitingTask = y.waitingTask

omit decT in
theorem SameRoom.refl (x : Mbx T) : SameRoom x x :=
  ⟨rfl, rfl, rfl, rfl, rfl⟩

omit decT in
theorem SameRoom.fravbs {x y : Mbx T} (h : SameRoom x y) (side : Side) :
    x.fravbs side = y.fravbs side := by
  cases side with
  | send => exact h.frbs
  | recv => exact h.avbs

/-- A section of `t` that leaves the counters, the semaphores and
    `waiting_task` alone. -/
structure Moved (s s' : St T M) (t : T) (pc : Pc T M) : Prop where
  pc : s'.pc = Function.update s.pc t pc
  blockedOn : s'.blockedOn = s.blockedOn
  room : ∀ m, SameRoom (s'.mbx m) (s.mbx m)

theorem room_setMbx {s : St T M} {m : M} {x : Mbx T} (h : SameRoom x (s.mbx m))
    (m' : M) : SameRoom ((s.setMbx m x).mbx m') (s.mbx m') := by
  by_cases hm : m' = m
  · rw [hm, setMbx_self]
    exact h
  · rw [setMbx_of_ne hm]
    exact SameRoom.refl _

omit decM in
theorem moved_goto (s : St T M) (t : T) (pc : Pc T M) : Moved s (s.goto t pc) t pc :=
  ⟨rfl, rfl, fun _ => SameRoom.refl _⟩

theorem moved_setMbx {s : St T M} {m : M} {x : Mbx T} (h : SameRoom x (s.mbx m))
    (t : T) (pc : Pc T M) : Moved s ((s.setMbx m x).goto t pc) t pc :=
  ⟨rfl, rfl, room_setMbx h⟩

omit decM in
theorem moved_wild (s : St T M) (t : T) (b : Bool) : Moved s { s with wild := b } t (s.pc t) :=
  ⟨(Function.update_eq_self t s.pc).symm, rfl, fun _ => SameRoom.refl _⟩

/-- The stages between two counter updates, and up to the `mbx_signal`. -/
def passing : Stage T → Bool
  | .copy | .counters _ _ | .index _ | .drop | .dropCounters _
  | .dropIndex _ | .mbxSignal => true
  | _ => false

/-- A section inside a pass: the task stays in its call and in the pass. -/
def Passes (s s' : St T M) (t : T) (c : Call M) : Prop :=
  ∃ c' stage, Moved s s' t (.call c' stage) ∧ c'.mbx = c.mbx ∧
    c'.side = c.side ∧ passing stage = true

theorem mbxputCopy_passes {s : St T M} {t : T} {c : Call M}
    (hpc : s.pc t = .call c .copy) : Passes s (mbxputCopy s t c) t c := by
  simp only [mbxputCopy]
  split
  · refine ⟨c, .copy, ?_, rfl, rfl, rfl⟩
    rw [← hpc]
    exact moved_wild s t true
  · next buf _ =>
      exact ⟨c, .counters _ _, moved_setMbx (x := { s.mbx c.mbx with bufadr := buf })
        ⟨rfl, rfl, rfl, rfl, rfl⟩ t _, rfl, rfl, rfl⟩

theorem mbxgetCopy_passes {s : St T M} {t : T} {c : Call M}
    (hpc : s.pc t = .call c .copy) : Passes s (mbxgetCopy s t c) t c := by
  simp only [mbxgetCopy]
  split
  · refine ⟨c, .copy, ?_, rfl, rfl, rfl⟩
    rw [← hpc]
    exact moved_wild s t true
  · exact ⟨c, .counters _ _, moved_goto s t _, rfl, rfl, rfl⟩

theorem copy_passes {s : St T M} {t : T} {c : Call M}
    (hpc : s.pc t = .call c .copy) : Passes s (copy s t c) t c := by
  have hgo : ∀ (c' : Call M) (stage : Stage T), c'.mbx = c.mbx →
      c'.side = c.side → passing stage = true →
      Passes s (s.goto t (.call c' stage)) t c := fun c' stage hm hs hp =>
    ⟨c', stage, moved_goto s t _, hm, hs, hp⟩
  simp only [copy]
  split
  · split
    · split
      · exact mbxputCopy_passes hpc
      · exact hgo c .drop rfl rfl rfl
    · exact hgo _ .mbxSignal rfl rfl rfl
  · split
    · exact mbxputCopy_passes hpc
    · exact hgo c .mbxSignal rfl rfl rfl
  · split
    · exact mbxgetCopy_passes hpc
    · exact hgo c .mbxSignal rfl rfl rfl

theorem index_passes (s : St T M) (t : T) (c : Call M) (n : Int) :
    Passes s (index s t c n) t c := by
  refine ⟨c, _, moved_setMbx ?_ t _, rfl, rfl, ?_⟩
  · cases c.side with
    | send => exact ⟨rfl, rfl, rfl, rfl, rfl⟩
    | recv => exact ⟨rfl, rfl, rfl, rfl, rfl⟩
  · split <;> rfl

theorem drop_passes (s : St T M) (t : T) (c : Call M) : Passes s (drop s t c) t c := by
  simp only [drop]
  split
  · exact ⟨c, .dropCounters _, moved_goto s t _, rfl, rfl, rfl⟩
  · exact ⟨c, .copy, moved_goto s t _, rfl, rfl, rfl⟩

theorem dropIndex_passes (s : St T M) (t : T) (c : Call M) (n : Int) :
    Passes s (dropIndex s t c n) t c :=
  ⟨c, .drop, moved_setMbx (x := (s.mbx c.mbx).advance .recv n)
    ⟨rfl, rfl, rfl, rfl, rfl⟩ t _, rfl, rfl, rfl⟩

omit decT decM in
theorem polling_of_not {s : St T M} {u : T}
    (h : ∀ p stage, s.pc u ≠ .poll p stage) : polling s u = false := by
  simp only [polling]
  split
  · next hpc => exact (h _ _ hpc).elim
  · next hpc => exact (h _ _ hpc).elim
  · rfl

/-- Where nobody polls, a pass of `rt_wakeup_pollers` makes nobody ready. -/
theorem wakeupPoller_moved {s s' : St T M} {m : M} {ql : Side} {reason : Ret T}
    (hp : ∀ u p stage, s.pc u ≠ .poll p stage)
    (h : wakeupPoller s m ql reason = some s') (t : T) :
    Moved s s' t (s.pc t) := by
  simp only [wakeupPoller] at h
  split at h
  · cases h
  · next u i rest _ =>
      rw [← Option.some.inj h]
      simp only [rtPollSignal]
      split
      · next hpoll =>
          rw [polling_of_not] at hpoll
          · cases hpoll
          · exact hp u
      · exact ⟨(Function.update_eq_self t s.pc).symm, rfl, room_setMbx
          (x := (s.mbx m).setPollq ql rest) ⟨rfl, rfl, rfl, rfl, rfl⟩⟩

end Rooms

/-! ## What a sleeper relies on -/

section Invariant

variable {T M : Type} [decT : DecidableEq T] [decM : DecidableEq M] {s s' : Sys T M} {t u : T}
  {m : M} {side : Side} {b : Bool}

/-- `t` relies on being the one in `waiting_task`: blocked there with
    `RT_SCHED_MBXSUSP` or, with `b`, until it goes on with an error. -/
def Relies (b : Bool) (s : Sys T M) (t : T) (m : M) (side : Side) : Prop :=
  ∃ c stage, s.st.pc t = .call c stage ∧ c.mbx = m ∧ c.side = side ∧ s.st.blockedOn t ≠ .null ∧
    ((∃ delayed, stage = .asleep delayed ∧ (b = true ∨ .mbxsusp ∈ s.state t)) ∨
      stage = .woken ∧ b = true)

/-- `t`, inside a semaphore of the mailbox, is going to signal it. -/
def Owes (s : Sys T M) (t : T) (m : M) : Prop :=
  s.owes t = true ∧ ∃ side, role (s.st.pc t) = some (m, side)

/-- What a task owes, and when it sleeps. -/
structure Tame (s : Sys T M) (t : T) : Prop where
  owes : s.owes t = true → ∃ c stage, s.st.pc t = .call c stage ∧ passing stage = true
  susp : ∀ c delayed, s.st.pc t = .call c (.asleep delayed) →
    .mbxsusp ∈ s.state t → s.st.blockedOn t ≠ .null
  call : ∀ p stage, s.st.pc t ≠ .poll p stage

/-- **THE SLOT**: who relies on `waiting_task` is in it, and has nothing to go
    on with unless a task owes the signal. -/
structure SlotInv (b : Bool) (s : Sys T M) : Prop where
  seat : ∀ m side t, (s.st.mbx m).sem side = some t ↔ role (s.st.pc t) = some (m, side)
  total : ∀ m, (s.st.mbx m).frbs + (s.st.mbx m).avbs = (s.st.mbx m).size ∧
    0 < (s.st.mbx m).size
  slot : ∀ t m side, Relies b s t m side → (s.st.mbx m).waitingTask = some t ∧
      ((s.st.mbx m).fravbs side = 0 ∨ ∃ u, Owes s u m)
  tame : ∀ t, Tame s t

/-- A step leaves the task `u` as it is. -/
structure Same (s s' : Sys T M) (u : T) : Prop where
  pc : s'.st.pc u = s.st.pc u
  blockedOn : s'.st.blockedOn u = s.st.blockedOn u
  state : s'.state u = s.state u
  owes : s'.owes u = s.owes u

omit decT decM in
theorem Same.relies (h : Same s s' u) : Relies b s' u m side ↔ Relies b s u m side := by
  simp only [Relies, h.pc, h.blockedOn, h.state]

omit decT decM in
theorem Same.owes_iff (h : Same s s' u) : Owes s' u m ↔ Owes s u m := by
  simp only [Owes, h.pc, h.owes]

omit decT decM in
theorem Same.tame (h : Same s s' u) (ht : Tame s u) : Tame s' u := by
  constructor
  · rw [h.owes, h.pc]
    exact ht.owes
  · rw [h.pc, h.state, h.blockedOn]
    exact ht.susp
  · rw [h.pc]
    exact ht.call

omit decT decM in
/-- A task that relies on a mailbox is inside one of its semaphores. -/
theorem Relies.role (h : Relies b s t m side) :
    RtaiByteStream.role (s.st.pc t) = some (m, side) := by
  obtain ⟨c, stage, hpc, rfl, rfl, -, hst⟩ := h
  rw [hpc]
  rcases hst with ⟨_, rfl, -⟩ | ⟨rfl, -⟩
  · rfl
  · rfl

omit decT decM in
/-- One that relies on it owes no signal. -/
theorem Relies.not_owes (I : SlotInv b s) (h : Relies b s t m side) : s.owes t = false := by
  by_contra howes
  obtain ⟨c, stage, hpc, hpass⟩ := (I.tame t).owes (Bool.eq_true_of_not_eq_false howes)
  obtain ⟨c', stage', hpc', -, -, -, hst⟩ := h
  rw [hpc] at hpc'
  cases hpc'
  rcases hst with ⟨_, rfl, -⟩ | ⟨rfl, -⟩
  · exact nomatch hpass
  · exact nomatch hpass

omit decT decM in
theorem relies_of_sleeps (I : SlotInv b s) (h : Sleeps s t m side) :
    Relies b s t m side := by
  obtain ⟨c, delayed, hpc, hm, hside, hsusp⟩ := h
  exact ⟨c, _, hpc, hm, hside, (I.tame t).susp c delayed hpc hsusp,
    Or.inl ⟨delayed, rfl, Or.inr hsusp⟩⟩

/-- No sleeper is left in a state in which the slot is right. -/
theorem SlotInv.noneLeft (I : SlotInv b s) : NoneLeft s := by
  intro m hsig
  have hslot : ∀ t side, Sleeps s t m side →
      (s.st.mbx m).waitingTask = some t ∧ (s.st.mbx m).fravbs side = 0 := by
    intro t side hs
    obtain ⟨hw, hz⟩ := I.slot t m side (relies_of_sleeps I hs)
    refine ⟨hw, hz.resolve_right ?_⟩
    rintro ⟨u, howes, side', hrole⟩
    obtain ⟨c, stage, hpc, hpass⟩ := (I.tame u).owes howes
    have hm : c.mbx = m := by
      rw [hpc] at hrole
      cases stage with
      | semWait => exact nomatch hrole
      | wakeup ql reason retval => exact nomatch hrole
      | _ => exact congrArg Prod.fst (Option.some.inj hrole)
    exact nomatch howes.symm.trans (hsig u c stage hpc hm)
  refine ⟨fun t t' side side' h h' => ?_, hslot⟩
  exact Option.some.inj ((hslot t side h).1.symm.trans (hslot t' side' h').1)

/-- **A STEP OF ONE TASK** that leaves `waiting_task` alone. -/
theorem SlotInv.change (I : SlotInv b s) (hsame : ∀ u, u ≠ t → Same s s' u)
    (hseat : ∀ m side u, (s'.st.mbx m).sem side = some u ↔ role (s'.st.pc u) = some (m, side))
    (hsize : ∀ m, (s'.st.mbx m).size = (s.st.mbx m).size ∧
      (s'.st.mbx m).frbs + (s'.st.mbx m).avbs = (s.st.mbx m).frbs + (s.st.mbx m).avbs)
    (hwait : ∀ m, (s'.st.mbx m).waitingTask = (s.st.mbx m).waitingTask)
    (hcount : ∀ m, (∀ side, (s'.st.mbx m).fravbs side = (s.st.mbx m).fravbs side) ∨
      Owes s' t m)
    (howes : ∀ m, Owes s t m → Owes s' t m ∨ ∀ u side, ¬ Relies b s u m side)
    (hrely : ∀ m side, Relies b s' t m side → Relies b s t m side)
    (htame : Tame s' t) : SlotInv b s' := by
  have hold : ∀ u m side, Relies b s' u m side → Relies b s u m side := by
    intro u m side h
    by_cases hu : u = t
    · rw [hu] at h ⊢
      exact hrely m side h
    · exact (hsame u hu).relies.mp h
  constructor
  · exact hseat
  · intro m
    rw [(hsize m).1, (hsize m).2]
    exact I.total m
  · intro u m side h
    obtain ⟨hw, hz⟩ := I.slot u m side (hold u m side h)
    refine ⟨(hwait m).trans hw, ?_⟩
    rcases hcount m with hc | ho
    · rcases hz with hz | ⟨v, hv⟩
      · exact Or.inl ((hc side).trans hz)
      · -- whoever owes the signal still does
        by_cases hvt : v = t
        · rw [hvt] at hv
          rcases howes m hv with ho | hno
          · exact Or.inr ⟨t, ho⟩
          · exact (hno u side (hold u m side h)).elim
        · exact Or.inr ⟨v, (hsame v hvt).owes_iff.mpr hv⟩
    · exact Or.inr ⟨t, ho⟩
  · intro u
    by_cases hu : u = t
    · rw [hu]
      exact htame
    · exact (hsame u hu).tame (I.tame u)

omit decT decM in
/-- Where a task has not waited it does not rely on anything. -/
theorem not_relies (h : waiting (s.st.pc t) = false) : ¬ Relies b s t m side := by
  rintro ⟨c, stage, hpc, -, -, -, hst⟩
  rw [hpc] at h
  rcases hst with ⟨_, rfl, -⟩ | ⟨rfl, -⟩
  · exact nomatch h
  · exact nomatch h

/-- The `pc` after a section that neither sleeps nor polls. -/
structure Runs (owes : Bool) (pc : Pc T M) : Prop where
  awake : waiting pc = false
  owes : owes = true → ∃ c stage, pc = .call c stage ∧ passing stage = true
  call : ∀ p stage, pc ≠ .poll p stage

omit decT decM in
theorem runs_passing {c : Call M} {stage : Stage T} (h : passing stage = true)
    (o : Bool) : Runs o (.call c stage) := by
  refine ⟨?_, fun _ => ⟨c, stage, rfl, h⟩, nofun⟩
  cases stage with
  | asleep delayed => exact nomatch h
  | woken => exact nomatch h
  | _ => rfl

omit decT decM in
theorem call_ne_poll (c : Call M) (stage : Stage T) (p : Poll M) (st : PollStage T) :
    (Pc.call c stage : Pc T M) ≠ .poll p st := by
  rintro ⟨⟩

omit decT decM in
theorem idle_ne_poll (p : Poll M) (st : PollStage T) : (Pc.idle : Pc T M) ≠ .poll p st := by
  rintro ⟨⟩

theorem runs_idle : Runs false (Pc.idle : Pc T M) where
  awake := rfl
  owes := by rintro ⟨⟩
  call := idle_ne_poll

/-- In a call that gives nobody the byte. -/
theorem runs_call {c : Call M} {stage : Stage T}
    (hw : waiting (.call c stage : Pc T M) = false) : Runs false (.call c stage) where
  awake := hw
  owes := by rintro ⟨⟩
  call := call_ne_poll c stage

omit decT decM in
theorem runs_free {o : Bool} {pc : Pc T M} (ho : o = false)
    (hw : waiting pc = false) (hp : ∀ p stage, pc ≠ .poll p stage) : Runs o pc :=
  ⟨hw, fun h => (nomatch ho.symm.trans h), hp⟩

omit decT decM in
theorem Runs.tame {o : Bool} {pc : Pc T M} (h : Runs o pc)
    (hpc : s.st.pc t = pc) (ho : s.owes t = o) : Tame s t := by
  rw [← hpc, ← ho] at h
  refine ⟨h.owes, fun c delayed hc => ?_, h.call⟩
  have hw := h.awake
  rw [hc] at hw
  exact nomatch hw

omit decT decM in
/-- Outside a pass a task owes no signal. -/
theorem Tame.not_owes (h : Tame s t) {c : Call M} {stage : Stage T}
    (hpc : s.st.pc t = .call c stage) (hp : passing stage = false) :
    s.owes t = false := by
  by_contra ho
  obtain ⟨c', stage', hpc', hp'⟩ := h.owes (Bool.eq_true_of_not_eq_false ho)
  rw [hpc] at hpc'
  cases hpc'
  exact nomatch hp.symm.trans hp'

omit decT decM in
theorem Tame.not_owes_idle (h : Tame s t) (hpc : s.st.pc t = .idle) : s.owes t = false := by
  by_contra ho
  obtain ⟨c, stage, hpc', -⟩ := h.owes (Bool.eq_true_of_not_eq_false ho)
  exact nomatch hpc.symm.trans hpc'

omit decM in
theorem same_of_update {st' : St T M} {pc : Pc T M} {owes : T → Bool}
    (hpc : st'.pc = Function.update s.st.pc t pc)
    (hb : st'.blockedOn = s.st.blockedOn) (ho : ∀ u, u ≠ t → owes u = s.owes u)
    (hu : u ≠ t) : Same s { s with st := st', owes } u :=
  ⟨by rw [hpc, Function.update_of_ne hu], by rw [hb], rfl, ho u hu⟩

omit decM in
/-- The seats, when `t` changes neither. -/
theorem SlotInv.seats (I : SlotInv b s) {st' : St T M}
    (hpc : ∀ u, u ≠ t → st'.pc u = s.st.pc u)
    (hrole : role (st'.pc t) = role (s.st.pc t))
    (hsem : ∀ m, (st'.mbx m).sem = (s.st.mbx m).sem) (m : M) (side : Side) (u : T) :
    (st'.mbx m).sem side = some u ↔ role (st'.pc u) = some (m, side) := by
  rw [hsem m]
  refine (I.seat m side u).trans ?_
  by_cases hu : u = t
  · rw [hu, hrole]
  · rw [hpc u hu]

/-- A section that keeps the counters and the semaphores. -/
theorem SlotInv.moved (I : SlotInv b s) {st' : St T M} {pc : Pc T M}
    (h : Moved s.st st' t pc) (hrole : role pc = role (s.st.pc t))
    (hruns : Runs (s.owes t) pc) : SlotInv b { s with st := st' } := by
  have hpc : st'.pc t = pc := by rw [h.pc, Function.update_self]
  refine I.change (t := t) (fun u hu => same_of_update h.pc h.blockedOn
    (fun _ _ => rfl) hu) (I.seats (fun u hu => by rw [h.pc, Function.update_of_ne hu])
      (hpc ▸ hrole) fun m => (h.room m).sem)
    (fun m => ⟨(h.room m).size, ?_⟩) (fun m => (h.room m).waitingTask)
    (fun m => Or.inl (h.room m).fravbs) ?_ ?_ (hruns.tame hpc rfl)
  · show (st'.mbx m).frbs + (st'.mbx m).avbs = _
    rw [(h.room m).frbs, (h.room m).avbs]
  · rintro m ⟨ho, side, hr⟩
    refine Or.inl ⟨ho, side, ?_⟩
    show role (st'.pc t) = some (m, side)
    rw [hpc, hrole]
    exact hr
  · intro m side hrel
    refine (not_relies ?_ hrel).elim
    show waiting (st'.pc t) = false
    rw [hpc]
    exact hruns.awake

theorem SlotInv.passes (I : SlotInv b s) {st' : St T M} {c : Call M}
    {stage : Stage T} (hpc : s.st.pc t = .call c stage)
    (hin : passing stage = true) (h : Passes s.st st' t c) :
    SlotInv b { s with st := st' } := by
  obtain ⟨c', stage', hmoved, hm, hside, hp⟩ := h
  have hrole : ∀ (c : Call M) (stage : Stage T), passing stage = true →
      role (.call c stage) = some (c.mbx, c.side) := by
    intro c stage hp
    cases stage with
    | semWait => exact nomatch hp
    | wakeup ql reason retval => exact nomatch hp
    | _ => rfl
  refine I.moved hmoved ?_ (runs_passing hp _)
  rw [hpc, hrole c' stage' hp, hrole c stage hin, hm, hside]

/-- **A COUNTER UPDATE**: whoever makes it owes the signal. -/
theorem SlotInv.counted (I : SlotInv b s) {x : Mbx T} {c c' : Call M}
    {stage stage' : Stage T} (hpc : s.st.pc t = .call c stage)
    (hin : role (.call c stage) = some (c.mbx, c.side))
    (hin' : role (.call c' stage') = some (c.mbx, c.side))
    (hp : passing stage' = true)
    (hsize : x.size = (s.st.mbx c.mbx).size)
    (htotal : x.frbs + x.avbs = (s.st.mbx c.mbx).frbs + (s.st.mbx c.mbx).avbs)
    (hsem : x.sem = (s.st.mbx c.mbx).sem)
    (hwait : x.waitingTask = (s.st.mbx c.mbx).waitingTask) :
    SlotInv b { s with
      st := (s.st.setMbx c.mbx x).goto t (.call c' stage')
      owes := Function.update s.owes t true } := by
  have hset : Function.update s.st.pc t (.call c' stage') t = .call c' stage' :=
    Function.update_self ..
  have hrole : role (Function.update s.st.pc t (.call c' stage') t) = role (s.st.pc t) := by
    rw [hset, hpc, hin, hin']
  have hnew : ∀ m, ((s.st.setMbx c.mbx x).mbx m).size = (s.st.mbx m).size ∧
      ((s.st.setMbx c.mbx x).mbx m).frbs + ((s.st.setMbx c.mbx x).mbx m).avbs =
        (s.st.mbx m).frbs + (s.st.mbx m).avbs ∧
      ((s.st.setMbx c.mbx x).mbx m).sem = (s.st.mbx m).sem ∧
      ((s.st.setMbx c.mbx x).mbx m).waitingTask = (s.st.mbx m).waitingTask := by
    intro m
    by_cases hm : m = c.mbx
    · rw [hm, setMbx_self]
      exact ⟨hsize, htotal, hsem, hwait⟩
    · rw [setMbx_of_ne hm]
      exact ⟨rfl, rfl, rfl, rfl⟩
  refine I.change (t := t) (fun u hu => same_of_update rfl rfl
    (fun v hv => Function.update_of_ne hv ..) hu)
    (I.seats (fun u hu => Function.update_of_ne hu ..) hrole fun m => (hnew m).2.2.1)
    (fun m => ⟨(hnew m).1, (hnew m).2.1⟩) (fun m => (hnew m).2.2.2)
    (fun m => ?_) ?_ ?_ ((runs_passing hp true).tame hset (Function.update_self ..))
  · by_cases hm : m = c.mbx
    · rw [hm]
      refine Or.inr ⟨Function.update_self .., c.side, ?_⟩
      show role (Function.update s.st.pc t _ t) = _
      rw [hset, hin']
    · refine Or.inl fun side => ?_
      show Mbx.fravbs ((s.st.setMbx c.mbx x).mbx m) side = _
      rw [setMbx_of_ne hm]
  · rintro m ⟨-, side, hr⟩
    exact Or.inl ⟨Function.update_self .., side, hrole.trans hr⟩
  · intro m side hrel
    refine (not_relies ?_ hrel).elim
    show waiting (Function.update s.st.pc t _ t) = false
    rw [hset]
    exact (runs_passing hp true).awake

/-- A task takes a free semaphore of a mailbox, or gives up the one it is in. -/
theorem SlotInv.seated (I : SlotInv b s) {o : Option T} {pc : Pc T M}
    (hfree : (s.st.mbx m).sem side = none ∧ role (s.st.pc t) = none ∧
        o = some t ∧ role pc = some (m, side) ∨
      role (s.st.pc t) = some (m, side) ∧ o = none ∧ role pc = none)
    (howes : s.owes t = false) (hruns : Runs false pc) :
    SlotInv b { s with
      st := (s.st.setMbx m ((s.st.mbx m).setSem side o)).goto t pc } := by
  have hset : Function.update s.st.pc t pc t = pc := Function.update_self ..
  have hnew : ∀ m',
      SameRoom { (s.st.setMbx m ((s.st.mbx m).setSem side o)).mbx m' with
        sem := (s.st.mbx m').sem } (s.st.mbx m') := by
    intro m'
    by_cases hm : m' = m
    · rw [hm, setMbx_self]
      exact ⟨rfl, rfl, rfl, rfl, rfl⟩
    · rw [setMbx_of_ne hm]
      exact SameRoom.refl _
  refine I.change (t := t) (fun u hu => same_of_update rfl rfl
    (fun _ _ => rfl) hu) ?_ (fun m' => ⟨(hnew m').size, ?_⟩)
    (fun m' => (hnew m').waitingTask) (fun m' => Or.inl fun d => (hnew m').fravbs d)
    ?_ ?_ (hruns.tame hset howes)
  · intro m' d u
    show (Function.update s.st.mbx m ((s.st.mbx m).setSem side o) m').sem d =
      some u ↔ role (Function.update s.st.pc t pc u) = some (m', d)
    rw [sem_setSem]
    have hold := I.seat m' d u
    by_cases hm : m' = m ∧ d = side
    · rw [if_pos hm]
      obtain ⟨rfl, rfl⟩ := hm
      by_cases hu : u = t
      · subst hu
        rw [hset]
        rcases hfree with ⟨-, -, rfl, hr⟩ | ⟨-, rfl, hr⟩
        · exact iff_of_true rfl hr
        · exact iff_of_false nofun (by rw [hr]; nofun)
      · rw [Function.update_of_ne hu, ← hold]
        rcases hfree with ⟨hs, -, rfl, -⟩ | ⟨hs, rfl, -⟩
        · rw [hs]
          exact iff_of_false (fun h => hu (Option.some.inj h).symm) nofun
        · rw [(I.seat m' d t).mpr hs]
          exact iff_of_false nofun fun h => hu (Option.some.inj h).symm
    · -- another semaphore
      rw [if_neg hm, hold]
      by_cases hu : u = t
      · subst hu
        rw [hset]
        have hne : ∀ r : Option (M × Side), r = some (m, side) → r ≠ some (m', d) := by
          rintro _ rfl h
          cases h
          exact hm ⟨rfl, rfl⟩
        rcases hfree with ⟨-, hr, -, hr'⟩ | ⟨hr, -, hr'⟩
        · rw [hr]
          exact iff_of_false nofun (hne _ hr')
        · rw [hr']
          exact iff_of_false (hne _ hr) nofun
      · rw [Function.update_of_ne hu]
  · show ((s.st.setMbx m _).mbx m').frbs + ((s.st.setMbx m _).mbx m').avbs = _
    rw [(hnew m').frbs, (hnew m').avbs]
  · intro m' ho
    exact nomatch ho.1.symm.trans howes
  · intro m' d hrel
    refine (not_relies ?_ hrel).elim
    show waiting (Function.update s.st.pc t pc t) = false
    rw [hset]
    exact hruns.awake

/-- A task that has nothing to go on with and owes no signal is the only one
    that may come to rely on the mailbox. -/
theorem SlotInv.nobody (I : SlotInv b s) (hrole : role (s.st.pc t) = some (m, side))
    (howes : s.owes t = false) (hzero : (s.st.mbx m).fravbs side = 0) (u : T)
    (d : Side) (hu : u ≠ t) : ¬ Relies b s u m d := by
  intro hrel
  have hd : d ≠ side := by
    rintro rfl
    have h1 := (I.seat m d u).mpr hrel.role
    have h2 := (I.seat m d t).mpr hrole
    exact hu (Option.some.inj (h1.symm.trans h2))
  have hz : (s.st.mbx m).fravbs d = 0 := by
    refine (I.slot u m d hrel).2.resolve_right ?_
    rintro ⟨v, hv, d', hrole'⟩
    -- `v` is inside one of the two semaphores
    have hseat := (I.seat m d' v).mpr hrole'
    by_cases hd' : d' = side
    · rw [hd', (I.seat m side t).mpr hrole] at hseat
      rw [← Option.some.inj hseat, howes] at hv
      exact nomatch hv
    · have hdd : d' = d := by
        cases d <;> cases d' <;> cases side <;>
          first
            | rfl
            | exact (hd rfl).elim
            | exact (hd' rfl).elim
      rw [hdd, (I.seat m d u).mpr hrel.role] at hseat
      rw [← Option.some.inj hseat, hrel.not_owes I] at hv
      exact nomatch hv
  obtain ⟨htotal, hpos⟩ := I.total m
  cases d <;> cases side <;> simp only [Mbx.fravbs] at hz hzero <;>
    first
      | exact hd rfl
      | omega

/-- **A CHANGE OF `waiting_task`** on which nobody else relies. -/
theorem SlotInv.slotted (I : SlotInv b s) {o : Option T} (hsame : ∀ u, u ≠ t → Same s s' u)
    (hrole : role (s'.st.pc t) = role (s.st.pc t)) (howes : s'.owes t = s.owes t)
    (hmbx : s'.st.mbx = Function.update s.st.mbx m { s.st.mbx m with waitingTask := o })
    (hnobody : ∀ u side, u ≠ t → ¬ Relies b s u m side)
    (hrely : ∀ m' side, Relies b s' t m' side →
      m' = m ∧ o = some t ∧ (s.st.mbx m).fravbs side = 0)
    (htame : Tame s' t) : SlotInv b s' := by
  have hself : s'.st.mbx m = { s.st.mbx m with waitingTask := o } := by
    rw [hmbx, Function.update_self]
  have hother : ∀ m', m' ≠ m → s'.st.mbx m' = s.st.mbx m' := fun m' hm => by
    rw [hmbx, Function.update_of_ne hm]
  have hkeeps : ∀ u m', Owes s u m' → Owes s' u m' := by
    intro u m' h
    by_cases hu : u = t
    · rw [hu] at h ⊢
      exact ⟨howes.trans h.1, h.2.imp fun d hr => hrole.trans hr⟩
    · exact (hsame u hu).owes_iff.mpr h
  constructor
  · refine I.seats (fun u hu => (hsame u hu).pc) hrole fun m' => ?_
    by_cases hm : m' = m
    · rw [hm, hself]
    · rw [hother m' hm]
  · intro m'
    by_cases hm : m' = m
    · rw [hm, hself]
      exact I.total m
    · rw [hother m' hm]
      exact I.total m'
  · intro u m' side hrel
    by_cases hu : u = t
    · rw [hu] at hrel ⊢
      obtain ⟨rfl, ho, hz⟩ := hrely m' side hrel
      rw [hself]
      exact ⟨ho, Or.inl hz⟩
    · have hrel' := (hsame u hu).relies.mp hrel
      by_cases hm : m' = m
      · rw [hm] at hrel'
        exact (hnobody u side hu hrel').elim
      · rw [hother m' hm]
        obtain ⟨hw, hz⟩ := I.slot u m' side hrel'
        exact ⟨hw, hz.imp_right fun ⟨v, hv⟩ => ⟨v, hkeeps v m' hv⟩⟩
  · intro u
    by_cases hu : u = t
    · rw [hu]
      exact htame
    · exact (hsame u hu).tame (I.tame u)

/-! ## The sections that change `waiting_task` -/

/-- `mbx_wait` with nothing to go on with: the task sleeps in the slot, or its
    time is over already. -/
theorem SlotInv.slept (I : SlotInv b s) {c : Call M} {stage : Stage T}
    {o : Option T} (hpc : s.st.pc t = .call c .loop)
    (hzero : (s.st.mbx c.mbx).fravbs c.side = 0)
    (hmbx : s'.st.mbx = Function.update s.st.mbx c.mbx
      { s.st.mbx c.mbx with waitingTask := o })
    (hpc' : s'.st.pc = Function.update s.st.pc t (.call c stage))
    (hblocked : s'.st.blockedOn = Function.update s.st.blockedOn t .ptr)
    (hstate : ∀ u, u ≠ t → s'.state u = s.state u) (howes : s'.owes = s.owes)
    (hstage : (∃ r, stage = .semSignal r) ∨
      (∃ delayed, stage = .asleep delayed) ∧ o = some t) : SlotInv b s' := by
  have hset : s'.st.pc t = .call c stage := by rw [hpc', Function.update_self]
  have hblk : s'.st.blockedOn t = .ptr := by rw [hblocked, Function.update_self]
  have hrole : role (s.st.pc t) = some (c.mbx, c.side) := by rw [hpc]; rfl
  have hno := (I.tame t).not_owes hpc rfl
  refine I.slotted (t := t) (fun u hu => ?_) ?_ (by rw [howes]) hmbx
    (fun u d hu => I.nobody hrole hno hzero u d hu) ?_ ?_
  · refine ⟨?_, ?_, hstate u hu, by rw [howes]⟩
    · rw [hpc', Function.update_of_ne hu]
    · rw [hblocked, Function.update_of_ne hu]
  · rw [hrole, hset]
    rcases hstage with ⟨r, rfl⟩ | ⟨⟨d, rfl⟩, -⟩
    · rfl
    · rfl
  · rintro m' d ⟨c', stage', hc', rfl, rfl, -, hst⟩
    rw [hset] at hc'
    cases hc'
    refine ⟨rfl, ?_, hzero⟩
    rcases hstage with ⟨r, rfl⟩ | ⟨-, ho⟩
    · rcases hst with ⟨_, hs, -⟩ | ⟨hs, -⟩
      · exact nomatch hs
      · exact nomatch hs
    · exact ho
  · refine ⟨fun ho => ?_, fun _ _ _ _ => by rw [hblk]; nofun, fun p st => ?_⟩
    · rw [howes, hno] at ho
      exact nomatch ho
    · rw [hset]
      nofun

theorem SlotInv.sleep (I : SlotInv b s) {c : Call M}
    (hpc : s.st.pc t = .call c .loop) : SlotInv b (mbxSleep s t c) := by
  have hstate : ∀ f u, u ≠ t → Function.update s.state t (s.state t ∪ f) u = s.state u :=
    fun f u hu => Function.update_of_ne hu ..
  by_cases hz : (s.st.mbx c.mbx).fravbs c.side = 0
  · have hwait : ∀ delayed, SlotInv b
        (Sys.setState { s with
            st := ((s.st.setMbx c.mbx { s.st.mbx c.mbx with
              waitingTask := some t }).block t .ptr).goto t (.call c (.asleep delayed)) } t
          (s.state t ∪ if delayed then {.mbxsusp, .delayed} else {.mbxsusp})) :=
      fun delayed => I.slept hpc hz rfl rfl rfl (hstate _) rfl (Or.inr ⟨⟨delayed, rfl⟩, rfl⟩)
    have hplain : ∀ mode, c.mode = mode → (∀ time, mode ≠ .until time) →
        SlotInv b (mbxSleep s t c) := by
      intro mode hm hne
      have heq : mbxWait s.st t c = ((s.st.setMbx c.mbx { s.st.mbx c.mbx with
          waitingTask := some t }).block t .ptr).goto t (.call c (.asleep false)) := by
        simp only [mbxWait, if_pos hz, hm]
      simp only [mbxSleep, heq, St.goto, Function.update_self]
      exact hwait false
    cases hm : c.mode with
    | «until» time =>
      by_cases ht : time > s.st.timeH
      · simp only [mbxSleep, mbxWait, if_pos hz, hm, if_pos ht, St.goto, Function.update_self]
        exact I.slept hpc hz rfl rfl rfl (hstate _) rfl (Or.inr ⟨⟨true, rfl⟩, rfl⟩)
      · simp only [mbxSleep, mbxWait, if_pos hz, hm, if_neg ht, St.goto, Function.update_self]
        exact I.slept hpc hz rfl rfl rfl (fun _ _ => rfl) rfl (Or.inl ⟨_, rfl⟩)
    | wait => exact hplain _ hm (by rintro _ ⟨⟩)
    | wp => exact hplain _ hm (by rintro _ ⟨⟩)
    | cond => exact hplain _ hm (by rintro _ ⟨⟩)
    | ovrwr => exact hplain _ hm (by rintro _ ⟨⟩)
  · simp only [mbxSleep, mbxWait, if_neg hz, St.goto, Function.update_self]
    exact I.moved (moved_goto s.st t _) (by rw [hpc]; rfl) (runs_passing rfl _)

omit decT decM in
theorem role_readyMbx (pc : Pc T M) : role pc.readyMbx = role pc := by
  cases pc with
  | call c st => cases st <;> rfl
  | _ => rfl

omit decT decM in
theorem readyMbx_of_awake {pc : Pc T M} (h : waiting pc = false) : pc.readyMbx = pc := by
  cases pc with
  | call c st =>
    cases st with
    | asleep delayed => exact nomatch h
    | _ => rfl
  | _ => rfl

omit decT decM in
theorem not_asleep_readyMbx (pc : Pc T M) (c : Call M) (delayed : Bool) :
    pc.readyMbx ≠ .call c (.asleep delayed) := by
  cases pc with
  | call c st => cases st <;> nofun
  | _ => nofun

omit decT decM in
/-- A woken task was asleep or woken in the same call. -/
theorem of_readyMbx_woken {pc : Pc T M} {c : Call M} (h : pc.readyMbx = .call c .woken) :
    (∃ delayed, pc = .call c (.asleep delayed)) ∨ pc = .call c .woken := by
  cases pc with
  | call c' st =>
    cases st with
    | asleep delayed =>
      cases h
      exact Or.inl ⟨delayed, rfl⟩
    | _ => exact Or.inr h
  | _ => exact nomatch h

theorem Tame.readyMbx (h : Tame s t) (hpc : s'.st.pc t = (s.st.pc t).readyMbx)
    (howes : s'.owes t = s.owes t) : Tame s' t := by
  constructor
  · intro ho
    obtain ⟨c, stage, hc, hp⟩ := h.owes (howes.symm.trans ho)
    refine ⟨c, stage, ?_, hp⟩
    rw [hpc, hc]
    cases stage with
    | asleep delayed => exact nomatch hp
    | _ => rfl
  · intro c delayed hc
    exact (not_asleep_readyMbx _ c delayed (hpc.symm.trans hc)).elim
  · intro p stage hc
    rw [hpc] at hc
    cases hpc₀ : s.st.pc t with
    | call c st =>
      rw [hpc₀] at hc
      cases st <;> exact nomatch hc
    | idle =>
      rw [hpc₀] at hc
      exact nomatch hc
    | poll p' st => exact h.call p' st hpc₀

/-- A step that leaves the mailboxes and the semaphores alone. -/
theorem SlotInv.kept (I : SlotInv b s) (hsame : ∀ u, u ≠ t → Same s s' u)
    (hmbx : ∀ m, s'.st.mbx m = s.st.mbx m) (howes : s'.owes t = s.owes t)
    (hrole : role (s'.st.pc t) = role (s.st.pc t))
    (hrely : ∀ m side, Relies b s' t m side → Relies b s t m side)
    (htame : Tame s' t) : SlotInv b s' := by
  refine I.change hsame ?_ (fun m => ?_) (fun m => ?_) (fun m => Or.inl fun d => ?_)
    (fun m ho => Or.inl ⟨howes.trans ho.1, ?_⟩) hrely htame
  · exact I.seats (fun u hu => (hsame u hu).pc) hrole fun m => by rw [hmbx m]
  · rw [hmbx m]
    exact ⟨rfl, rfl⟩
  · rw [hmbx m]
  · rw [hmbx m]
  · obtain ⟨d, hr⟩ := ho.2
    exact ⟨d, hrole.trans hr⟩

omit decM in
theorem same_setState (s : Sys T M) (f : TaskState) (hu : u ≠ t) : Same s (s.setState t f) u :=
  ⟨rfl, rfl, Function.update_of_ne hu .., rfl⟩

/-- `RT_SCHED_MBXSUSP` is at most cleared. -/
theorem SlotInv.setState (I : SlotInv b s) {f : TaskState}
    (hf : .mbxsusp ∈ f → .mbxsusp ∈ s.state t) : SlotInv b (s.setState t f) := by
  have hset : (s.setState t f).state t = f := Function.update_self ..
  refine I.kept (fun u hu => same_setState s f hu) (fun _ => rfl) rfl rfl ?_
    ⟨(I.tame t).owes, ?_, (I.tame t).call⟩
  · rintro m side ⟨c, stage, hpc, hm, hs, hb, hst⟩
    rw [hset] at hst
    exact ⟨c, stage, hpc, hm, hs, hb, hst.imp_left fun ⟨d, hd, hx⟩ => ⟨d, hd, hx.imp_right hf⟩⟩
  · intro c delayed hpc hx
    rw [hset] at hx
    exact (I.tame t).susp c delayed hpc (hf hx)

omit decM in
theorem enqReadyTask_pc (s : Sys T M) (t : T) :
    (enqReadyTask s t).st = s.st.goto t (s.st.pc t).readyMbx := by
  simp only [enqReadyTask]
  split <;> rfl

omit decM in
theorem enqReadyTask_same (s : Sys T M) (hu : u ≠ t) : Same s (enqReadyTask s t) u := by
  have hpc : (s.st.goto t (s.st.pc t).readyMbx).pc u = s.st.pc u :=
    Function.update_of_ne hu ..
  simp only [enqReadyTask]
  split
  · exact ⟨hpc, rfl, rfl, rfl⟩
  · exact ⟨hpc, rfl, Function.update_of_ne hu .., rfl⟩

omit decM in
theorem enqReadyTask_owes (s : Sys T M) (t : T) : (enqReadyTask s t).owes = s.owes := by
  simp only [enqReadyTask]
  split <;> rfl

theorem SlotInv.enqReady (I : SlotInv b s) (t : T) : SlotInv b (enqReadyTask s t) := by
  have hst := enqReadyTask_pc s t
  have hpc : (enqReadyTask s t).st.pc t = (s.st.pc t).readyMbx := by
    rw [hst]
    exact Function.update_self ..
  have howes : (enqReadyTask s t).owes t = s.owes t := by rw [enqReadyTask_owes]
  refine I.kept (fun u hu => enqReadyTask_same s hu) (fun m => by rw [hst]; rfl)
    howes (by rw [hpc, role_readyMbx]) ?_ ((I.tame t).readyMbx hpc howes)
  rintro m side ⟨c, stage, hc, hm, hs, hb, hx⟩
  rw [hpc] at hc
  rw [hst] at hb
  rcases hx with ⟨d, rfl, -⟩ | ⟨rfl, hb'⟩
  · exact (not_asleep_readyMbx _ c d hc).elim
  · rcases of_readyMbx_woken hc with ⟨d, hd⟩ | hw
    · exact ⟨c, _, hd, hm, hs, hb, Or.inl ⟨d, rfl, Or.inl hb'⟩⟩
    · exact ⟨c, _, hw, hm, hs, hb, Or.inr ⟨rfl, hb'⟩⟩

theorem SlotInv.expired (I : SlotInv b s) (t : T) : SlotInv b (wakeUpTimedTask s t) := by
  have I' := I.setState (t := t) (f := s.state t \ {.delayed, .suspended,
    .semaphore, .receive, .send, .rpc, .ret, .mbxsusp, .poll})
    fun h => (Finset.mem_sdiff.mp h).1
  simp only [wakeUpTimedTask]
  split
  · exact I'.enqReady t
  · exact I'

/-- The condition on `rt_task_masked_unblock` counts with `b`. -/
theorem SlotInv.unblocked (I : SlotInv b s) {mask : TaskState}
    (h : b = true → s.state t ≠ {.ready} → s.state t \ mask = {.ready} →
      s.st.blockedOn t ≠ .null) : SlotInv b (rtTaskMaskedUnblock s t mask) := by
  simp only [rtTaskMaskedUnblock]
  split
  · next hne =>
      have I' := I.setState (t := t) (f := s.state t \ mask) fun h => (Finset.mem_sdiff.mp h).1
      have hset : (s.setState t (s.state t \ mask)).state t = s.state t \ mask :=
        Function.update_self ..
      rw [hset]
      split
      · next hr =>
          have hno : Flag.mbxsusp ∉ s.state t \ mask := by
            rw [hr]
            decide
          have hblk : ((s.setState t (s.state t \ mask)).st.block t
              .unblkd).blockedOn t = .unblkd := Function.update_self ..
          refine SlotInv.enqReady (s := { s.setState t (s.state t \ mask) with
            st := (s.setState t (s.state t \ mask)).st.block t .unblkd })
            (I'.kept (t := t) (fun u hu => ⟨rfl, Function.update_of_ne hu .., rfl,
              rfl⟩) (fun _ => rfl) rfl rfl ?_
              ⟨(I'.tame t).owes, ?_, (I'.tame t).call⟩) t
          · rintro m side ⟨c, stage, hc, hm, hs, -, hx⟩
            rw [hset] at hx
            have hb : b = true := by
              rcases hx with ⟨_, -, hb | hx⟩ | ⟨-, hb⟩
              · exact hb
              · exact (hno hx).elim
              · exact hb
            refine ⟨c, stage, hc, hm, hs, h hb hne.2 hr, ?_⟩
            exact hx.imp_left fun ⟨d, hd, _⟩ => ⟨d, hd, Or.inl hb⟩
          · intro c delayed _ _
            rw [hblk]
            nofun
      · exact I'
  · exact I

/-- **THE SIGNAL** frees the slot: nobody relies on it any more. -/
theorem SlotInv.signalled (I : SlotInv b s) (m : M) : SlotInv b (signalWaiter s m) ∧
      ∀ u side, ¬ Relies b (signalWaiter s m) u m side := by
  simp only [signalWaiter]
  split
  · next hw =>
      exact ⟨I, fun u side h => nomatch hw.symm.trans (I.slot u m side h).1⟩
  · next u hw =>
      have hnobody : ∀ v side, v ≠ u → ¬ Relies b s v m side := by
        intro v side hv h
        exact hv (Option.some.inj ((I.slot v m side h).1.symm.trans hw))
      -- the new state of `u`, whichever it is, is without the bit
      have hfree : ∀ (s' : Sys T M), s'.st =
            (s.st.setMbx m { s.st.mbx m with waitingTask := none }).block u .null →
          s'.owes = s.owes → (∀ v, v ≠ u → s'.state v = s.state v) →
          .mbxsusp ∉ s'.state u → SlotInv b s' := by
        intro s' hst ho hstate hno
        have hblk : s'.st.blockedOn u = .null := by
          rw [hst]
          exact Function.update_self ..
        have hpc : s'.st.pc = s.st.pc := by rw [hst]; rfl
        refine I.slotted (t := u) (m := m) (o := none) (fun v hv => ?_)
          (by rw [hpc]) (by rw [ho]) (by rw [hst]; rfl) hnobody ?_ ?_
        · refine ⟨by rw [hpc], ?_, hstate v hv, by rw [ho]⟩
          rw [hst]
          exact Function.update_of_ne hv ..
        · rintro m' side ⟨_, _, -, -, -, hb, -⟩
          exact (hb hblk).elim
        · refine ⟨?_, fun _ _ _ h => (hno h).elim, ?_⟩
          · rw [ho, hpc]
            exact (I.tame u).owes
          · rw [hpc]
            exact (I.tame u).call
      have hgone : ∀ s' : Sys T M, SlotInv b s' →
          (s'.st.mbx m).waitingTask = none → ∀ v side, ¬ Relies b s' v m side :=
        fun s' I' hw' v side h => nomatch hw'.symm.trans (I'.slot v m side h).1
      have hnone : ((s.st.setMbx m { s.st.mbx m with
          waitingTask := none }).mbx m).waitingTask = none := by
        rw [setMbx_self]
      split
      · have I' := hfree ((Sys.setState { s with
            st := (s.st.setMbx m { s.st.mbx m with waitingTask := none }).block u
              .null } u (s.state u \ {.mbxsusp, .delayed}))) rfl rfl
          (fun v hv => Function.update_of_ne hv ..) (by
            simp only [Sys.setState, Function.update_self]
            exact fun h => (Finset.mem_sdiff.mp h).2 (by decide))
        split
        · have I'' := I'.enqReady u
          refine ⟨I'', hgone _ I'' ?_⟩
          rw [enqReadyTask_pc]
          exact hnone
        · exact ⟨I', hgone _ I' hnone⟩
      · next hr =>
          have I' := hfree { s with
            st := (s.st.setMbx m { s.st.mbx m with waitingTask := none }).block u
              .null } rfl rfl (fun _ _ => rfl) (by
                rw [not_not.mp hr]
                decide)
          exact ⟨I', hgone _ I' hnone⟩

theorem enqReadyTask_awake (s : Sys T M) (u : T)
    (h : waiting (s.st.pc t) = false) : (enqReadyTask s u).st.pc t = s.st.pc t := by
  by_cases hu : t = u
  · rw [← hu, enqReadyTask_pc]
    exact (Function.update_self ..).trans (readyMbx_of_awake h)
  · exact (enqReadyTask_same s hu).pc

theorem signalWaiter_awake (m : M) (h : waiting (s.st.pc t) = false) :
    (signalWaiter s m).st.pc t = s.st.pc t := by
  simp only [signalWaiter]
  split
  · rfl
  · split
    · split
      · rw [enqReadyTask_awake]
        · rfl
        · exact h
      · rfl
    · rfl

/-- The section at `mbx_signal`: whoever owed the signal has given it. -/
theorem SlotInv.signals (I : SlotInv b s) {c : Call M} (hpc : s.st.pc t = .call c .mbxSignal) :
    SlotInv b { signalWaiter s c.mbx with
      st := (signalWaiter s c.mbx).st.goto t (.call c c.mode.afterSignal)
      owes := Function.update (signalWaiter s c.mbx).owes t false } := by
  obtain ⟨I', hnobody⟩ := I.signalled c.mbx
  have hold : (signalWaiter s c.mbx).st.pc t = .call c .mbxSignal := by
    rw [signalWaiter_awake c.mbx (by rw [hpc]; rfl), hpc]
  generalize signalWaiter s c.mbx = s₁ at I' hnobody hold ⊢
  have hset : Function.update s₁.st.pc t (.call c c.mode.afterSignal) t =
      .call c c.mode.afterSignal := Function.update_self ..
  have hrun : Runs false (Pc.call c (c.mode.afterSignal (T := T))) := by
    refine ⟨?_, nofun, nofun⟩
    cases c.mode <;> rfl
  have hrole : role (Pc.call c (c.mode.afterSignal (T := T))) = some (c.mbx, c.side) := by
    cases c.mode <;> rfl
  refine I'.change (t := t) (fun u hu => same_of_update rfl rfl
    (fun v hv => Function.update_of_ne hv ..) hu) ?_ (fun _ => ⟨rfl, rfl⟩)
    (fun _ => rfl) (fun _ => Or.inl fun _ => rfl) ?_ ?_
    (hrun.tame hset (Function.update_self ..))
  · refine I'.seats (fun u hu => Function.update_of_ne hu ..) ?_ fun _ => rfl
    show role (Function.update s₁.st.pc t _ t) = _
    rw [hset, hrole, hold]
    rfl
  · rintro m ⟨-, side, hr⟩
    rw [hold] at hr
    cases hr
    exact Or.inr hnobody
  · intro m side hrel
    refine (not_relies ?_ hrel).elim
    show waiting (Function.update s₁.st.pc t _ t) = false
    rw [hset]
    exact hrun.awake

theorem mbxResume_eq (s : Sys T M) (t : T) (c : Call M) :
    ∃ f, mbxResume s t c = { s.setState t f with st := mbxWaitTail s.st t c } ∧
      (.mbxsusp ∈ f → .mbxsusp ∈ s.state t) := by
  simp only [mbxResume]
  split
  · refine ⟨s.state t, ?_, id⟩
    rw [Sys.setState, Function.update_eq_self]
  · refine ⟨_, rfl, fun hm => ?_⟩
    rcases Finset.mem_union.mp hm with hm | hm
    · exact (Finset.mem_sdiff.mp hm).1
    · exact nomatch Finset.mem_singleton.mp hm

/-- With an error the task leaves, and `waiting_task` is NULL. -/
theorem mbxWaitTail_error {s : St T M} (h : s.blockedOn t ≠ .null) (c : Call M) :
    ∃ r, mbxWaitTail s t c = (s.setMbx c.mbx { s.mbx c.mbx with waitingTask := none }).goto t
        (.call c (.semSignal (some r))) := by
  cases hb : s.blockedOn t with
  | null => exact (h hb).elim
  | ptr =>
    simp only [mbxWaitTail, hb, Blocked.error]
    exact ⟨_, rfl⟩
  | unblkd =>
    simp only [mbxWaitTail, hb, Blocked.error]
    exact ⟨_, rfl⟩

/-- **THE RETURN TO THE WAIT**: with an error the task clears the slot, and
    nobody else may be in it. -/
theorem SlotInv.resume (I : SlotInv b s) {c : Call M} (hpc : s.st.pc t = .call c .woken)
    (h : b = false → Spares s (.run t)) : SlotInv b (mbxResume s t c) := by
  obtain ⟨f, heq, hf⟩ := mbxResume_eq s t c
  rw [heq]
  have I' := I.setState hf
  by_cases hbl : s.st.blockedOn t = .null
  · have htail : mbxWaitTail s.st t c = s.st.goto t (.call c .copy) := by
      simp only [mbxWaitTail, hbl, Blocked.error]
    rw [htail]
    refine I'.moved (t := t) (moved_goto s.st t _) ?_ (runs_passing rfl _)
    show _ = role (s.st.pc t)
    rw [hpc]
    rfl
  · obtain ⟨r, htail⟩ := mbxWaitTail_error hbl c
    rw [htail]
    have hset : Function.update s.st.pc t (.call c (.semSignal (some r))) t =
        .call c (.semSignal (some r)) := Function.update_self ..
    have hrun : Runs false (Pc.call c (.semSignal (some r))) :=
      runs_call rfl
    have hno := (I.tame t).not_owes hpc rfl
    refine I'.slotted (t := t) (m := c.mbx) (o := none)
      (fun u hu => same_of_update rfl rfl (fun _ _ => rfl) hu) ?_ rfl rfl ?_ ?_
      (hrun.tame hset hno)
    · show role (Function.update s.st.pc t _ t) = role (s.st.pc t)
      rw [hset, hpc]
      rfl
    · intro u side hu hrel
      have hrel' := (same_setState s f hu).relies.mp hrel
      have hslot := (I.slot u c.mbx side hrel').1
      cases b with
      | false =>
        obtain ⟨c', stage, hc, hm, hs, -, hx⟩ := hrel'
        rcases hx with ⟨d, rfl, hx | hx⟩ | ⟨-, hx⟩
        · cases hx
        · exact h rfl c u side hpc hbl ⟨c', d, hc, hm, hs, hx⟩ hslot
        · cases hx
      | true =>
        -- `t` itself is in the slot
        have ht := (I.slot t c.mbx c.side ⟨c, .woken, hpc, rfl, rfl, hbl, Or.inr ⟨rfl, rfl⟩⟩).1
        exact hu (Option.some.inj (hslot.symm.trans ht))
    · intro m side hrel
      refine (not_relies ?_ hrel).elim
      show waiting (Function.update s.st.pc t _ t) = false
      rw [hset]
      rfl

/-! ## Every step -/

theorem tryCall_cases (s : St T M) (t : T) (c : Call M) (able : Bool) :
    (tryCall s t c able).1 = s ∨ (s.mbx c.mbx).sem c.side = none ∧
      (tryCall s t c able).1 = enter s t c .copy := by
  simp only [tryCall]
  split
  · next h => exact Or.inr ⟨h.1, rfl⟩
  · exact Or.inl rfl

/-- A call is refused, waits for the semaphore or is inside at once. -/
theorem request_cases (s : St T M) (t : T) (r : Request M)
    (hp : ∀ pds timeout, r ≠ .poll pds timeout) :
    (request s t r).1 = s ∨ (∃ c, (request s t r).1 = s.goto t (.call c .semWait)) ∨
      ∃ c, (s.mbx c.mbx).sem c.side = none ∧ (request s t r).1 = enter s t c .copy := by
  have htry : ∀ c able, (tryCall s t c able).1 = s ∨
      (∃ c', (tryCall s t c able).1 = s.goto t (.call c' .semWait)) ∨
      ∃ c', (s.mbx c'.mbx).sem c'.side = none ∧
        (tryCall s t c able).1 = enter s t c' .copy := fun c able =>
    (tryCall_cases s t c able).imp_right fun h => Or.inr ⟨c, h⟩
  cases r with
  | mbxSend m msg n => exact Or.inr (Or.inl ⟨_, rfl⟩)
  | mbxSendWp m msg n => exact htry _ _
  | mbxSendIf m msg n => exact htry _ _
  | mbxSendUntil m msg n time => exact Or.inr (Or.inl ⟨_, rfl⟩)
  | mbxOvrwrSend m msg n =>
    simp only [request, rtMbxOvrwrSend]
    split
    · next h => exact Or.inr (Or.inr ⟨_, h.1, rfl⟩)
    · exact htry _ _
  | mbxReceive m n => exact Or.inr (Or.inl ⟨_, rfl⟩)
  | mbxReceiveWp m n => exact htry _ _
  | mbxReceiveIf m n => exact htry _ _
  | mbxReceiveUntil m n time => exact Or.inr (Or.inl ⟨_, rfl⟩)
  | poll pds timeout => exact (hp pds timeout rfl).elim

theorem SlotInv.called (I : SlotInv b s) {r : Request M}
    (hp : ∀ pds timeout, r ≠ .poll pds timeout) (hpc : s.st.pc t = .idle) :
    SlotInv b { s with st := (request s.st t r).1 } := by
  have hno := (I.tame t).not_owes_idle hpc
  rcases request_cases s.st t r hp with h | ⟨c, h⟩ | ⟨c, hfree, h⟩
  · rw [h]
    exact I
  · rw [h]
    exact I.moved (moved_goto s.st t _) (by rw [hpc]; rfl) (runs_free hno rfl nofun)
  · rw [h]
    exact I.seated (Or.inl ⟨hfree, by rw [hpc]; rfl, rfl, rfl⟩) hno (runs_passing rfl _)

/-- The sections of a call. -/
theorem SlotInv.section (I : SlotInv b s) {c : Call M} {stage : Stage T}
    {e : Event T M} (hpc : s.st.pc t = .call c stage)
    (hb : b = false → Spares s (.run t))
    (h : runSection s t c stage = some (s', e)) : SlotInv b s' := by
  have hpasses : ∀ st', passing stage = true → Passes s.st st' t c →
      SlotInv b { s with st := st' } := fun st' hp h => I.passes hpc hp h
  cases stage with
  | semWait =>
    simp only [runSection, runCall] at h
    split at h
    · next hfree =>
        cases h
        exact I.seated (Or.inl ⟨hfree, by rw [hpc]; rfl, rfl, rfl⟩)
          ((I.tame t).not_owes hpc rfl) (runs_call rfl)
    · cases h
  | loop =>
    simp only [runSection] at h
    split at h
    · cases h
      exact I.sleep hpc
    · cases h
      have hno := (I.tame t).not_owes hpc rfl
      exact I.moved (moved_goto s.st t _) (by rw [hpc]; rfl)
        (runs_free hno rfl (call_ne_poll _ _))
  | asleep delayed => cases h
  | woken =>
    cases h
    exact I.resume hpc hb
  | copy =>
    cases h
    exact hpasses _ rfl (copy_passes hpc)
  | counters n bytes =>
    simp only [runSection, counters] at h
    cases hside : c.side with
    | send =>
      rw [hside] at h
      cases h
      refine I.counted (x := (s.st.mbx c.mbx).fill n) hpc rfl
        rfl rfl rfl ?_ rfl rfl
      show (s.st.mbx c.mbx).frbs - n + ((s.st.mbx c.mbx).avbs + n) = _
      omega
    | recv =>
      rw [hside] at h
      cases h
      refine I.counted (x := (s.st.mbx c.mbx).drain n) hpc rfl
        rfl rfl rfl ?_ rfl rfl
      show (s.st.mbx c.mbx).frbs + n + ((s.st.mbx c.mbx).avbs - n) = _
      omega
  | index n =>
    cases h
    exact hpasses _ rfl (index_passes s.st t c n)
  | drop =>
    cases h
    exact hpasses _ rfl (drop_passes s.st t c)
  | dropCounters n =>
    cases h
    refine I.counted (x := (s.st.mbx c.mbx).drain n) hpc rfl rfl rfl rfl ?_ rfl rfl
    show (s.st.mbx c.mbx).frbs + n + ((s.st.mbx c.mbx).avbs - n) = _
    omega
  | dropIndex n =>
    cases h
    exact hpasses _ rfl (dropIndex_passes s.st t c n)
  | mbxSignal =>
    cases h
    exact I.signals hpc
  | semSignal error =>
    have hno := (I.tame t).not_owes hpc rfl
    have hin : role (s.st.pc t) = some (c.mbx, c.side) := by rw [hpc]; rfl
    simp only [runSection, runCall, Option.map_some] at h
    cases h
    simp only [semSignal]
    split
    · next pc hrel =>
        have hw : ∃ ql reason retval, pc = .call c (.wakeup ql reason retval) := by
          simp only [afterRelease] at hrel
          split at hrel
          · cases hrel
            exact ⟨_, _, _, rfl⟩
          · split at hrel
            · split at hrel
              · cases hrel
                exact ⟨_, _, _, rfl⟩
              · cases hrel
            · cases hrel
            · cases hrel
              exact ⟨_, _, _, rfl⟩
        obtain ⟨ql, reason, retval, rfl⟩ := hw
        exact I.seated (Or.inr ⟨hin, rfl, rfl⟩) hno (runs_call rfl)
    · exact I.seated (Or.inr ⟨hin, rfl, rfl⟩) hno runs_idle
  | wakeup ql reason retval =>
    have hno := (I.tame t).not_owes hpc rfl
    simp only [runSection, runCall] at h
    cases hw : wakeupPoller s.st c.mbx ql reason with
    | none =>
      rw [hw] at h
      cases h
      exact I.moved (moved_goto s.st t _) (by rw [hpc]; rfl) (runs_free hno rfl idle_ne_poll)
    | some st' =>
      rw [hw] at h
      cases h
      exact I.moved (wakeupPoller_moved (fun u => (I.tame u).call) hw t) rfl
        (runs_free hno (by rw [hpc]; rfl) (by rw [hpc]; exact call_ne_poll _ _))

/-- **EVERY STEP KEEPS THE SLOT RIGHT**, under one condition or the other. -/
theorem SlotInv.step (I : SlotInv b s) {a : Action T M} {e : Event T M}
    (hspares : b = false → Spares s a) (hleaves : b = true → Leaves s a)
    (h : sleepStep s a = some (s', e)) : SlotInv b s' := by
  simp only [sleepStep] at h
  split at h
  · exact nomatch h
  · cases a with
    | call t r =>
      cases hpc : s.st.pc t with
      | idle =>
        cases r with
        | poll pds timeout =>
          simp only at h
          exact nomatch h
        | _ =>
          simp only [hpc] at h
          cases h
          exact I.called nofun hpc
      | call c stage =>
        simp only [hpc] at h
        cases r <;> exact nomatch h
      | poll p stage => exact ((I.tame t).call p stage hpc).elim
    | run t =>
      cases hpc : s.st.pc t with
      | call c stage =>
        simp only [hpc] at h
        exact I.section hpc hspares h
      | idle => simp only [hpc] at h; exact nomatch h
      | poll p stage => exact ((I.tame t).call p stage hpc).elim
    | giveUp t error =>
      simp only at h
      split at h
      · next c hpc =>
          cases h
          have hno := (I.tame t).not_owes hpc rfl
          exact I.moved (moved_goto s.st t _) (by rw [hpc]; rfl) (runs_free hno rfl nofun)
      · exact nomatch h
    | expire t =>
      simp only at h
      split at h
      · split at h
        · cases h
          exact I.expired t
        · exact nomatch h
      · exact nomatch h
    | unblock t mask =>
      simp only at h
      split at h
      · next hw =>
          cases h
          exact I.unblocked fun hb => hleaves hb hw
      · exact nomatch h
    | tick time timeH =>
      cases h
      exact ⟨I.seat, I.total, I.slot, fun t =>
        ⟨(I.tame t).owes, (I.tame t).susp, (I.tame t).call⟩⟩

omit decT decM in
theorem slotInv_quiet (b : Bool) (buffer : M → List UInt8) (priority : T → Int)
    (isHard : T → Bool) (hb : ∀ m, buffer m ≠ []) :
    SlotInv b (quiet buffer priority isHard) := by
  constructor
  · intro m side t
    exact iff_of_false nofun nofun
  · intro m
    have hpos := List.length_pos_of_ne_nil (hb m)
    exact ⟨Int.add_zero _, Int.natCast_pos.mpr hpos⟩
  · rintro t m side ⟨c, stage, hpc, -⟩
    exact nomatch hpc
  · exact fun t => ⟨nofun, nofun, nofun⟩

/-- A step that does not spare the sleeper in the slot leaves it behind. -/
theorem left_of_not_spares (I : SlotInv false s) {a : Action T M} {e : Event T M}
    (h : sleepStep s a = some (s', e)) (hnone : NoneLeft s') : Spares s a := by
  cases a with
  | run t =>
    intro c u side hpc hb hu hslot
    have hrel := relies_of_sleeps I hu
    have hut : u ≠ t := by
      rintro rfl
      obtain ⟨c', d, hc', -⟩ := hu
      exact nomatch hc'.symm.trans hpc
    -- the section clears the slot and leaves the sleeper alone
    have hstep : s' = mbxResume s t c := by
      simp only [sleepStep, hpc, runSection] at h
      split at h
      · exact nomatch h
      · cases h
        rfl
    obtain ⟨f, hres, -⟩ := mbxResume_eq s t c
    obtain ⟨r, htail⟩ := mbxWaitTail_error hb c
    have heq := hstep.trans hres
    have hst : s'.st = (s.st.setMbx c.mbx { s.st.mbx c.mbx with
        waitingTask := none }).goto t (.call c (.semSignal (some r))) := by
      rw [heq, htail]
    have howes : s'.owes = s.owes := by
      rw [heq]
      rfl
    have hstate : s'.state u = s.state u := by
      rw [heq]
      exact Function.update_of_ne hut ..
    have hpcs : ∀ v, v ≠ t → s'.st.pc v = s.st.pc v := fun v hv => by
      rw [hst]
      exact Function.update_of_ne hv ..
    have hnot : ∀ v, (∃ d, role (s.st.pc v) = some (c.mbx, d)) → s.owes v = false := by
      rintro v ⟨d, hv⟩
      have htrole : role (s.st.pc t) = some (c.mbx, c.side) := by rw [hpc]; rfl
      have hseat := (I.seat c.mbx d v).mpr hv
      have hside : side ≠ c.side := by
        rintro rfl
        have h1 := (I.seat c.mbx c.side u).mpr hrel.role
        exact hut (Option.some.inj (h1.symm.trans ((I.seat _ _ t).mpr htrole)))
      by_cases hd : d = c.side
      · rw [hd, (I.seat _ _ t).mpr htrole] at hseat
        rw [← Option.some.inj hseat]
        exact (I.tame t).not_owes hpc rfl
      · have hds : d = side := by
          cases d <;> cases side <;> cases hcs : c.side <;> simp_all
        rw [hds, (I.seat _ _ u).mpr hrel.role] at hseat
        rw [← Option.some.inj hseat]
        exact hrel.not_owes I
    have hsignalled : Signalled s' c.mbx := by
      intro v c' stage hc' hm
      rw [howes]
      by_contra ho
      have ho' := Bool.eq_true_of_not_eq_false ho
      have hvt : v ≠ t := by
        rintro rfl
        exact ho ((I.tame v).not_owes hpc rfl)
      obtain ⟨c'', stage', hc'', hp⟩ := (I.tame v).owes ho'
      rw [hpcs v hvt, hc''] at hc'
      cases hc'
      refine ho (hnot v ⟨c'.side, ?_⟩)
      rw [hc'', ← hm]
      cases stage <;> first | rfl | exact nomatch hp
    have hsleeps : Sleeps s' u c.mbx side := by
      obtain ⟨c', d, hc', hm, hs, hf⟩ := hu
      exact ⟨c', d, (hpcs u hut).trans hc', hm, hs, by rw [hstate]; exact hf⟩
    have hw := ((hnone c.mbx hsignalled).2 u side hsleeps).1
    rw [hst] at hw
    simp only [St.goto, setMbx_self] at hw
    exact nomatch hw
  | _ => trivial

end Invariant

/-! ## The sleepers of every run -/

section Runs

variable {T M : Type} [decT : DecidableEq T] [decM : DecidableEq M]

/-- **NO SLEEPER IS LEFT BEHIND** as long as every task that goes on with an
    error spares the one in the slot, and no longer. -/
theorem no_sleeper_left (buffer : M → List UInt8) (priority : T → Int)
    (isHard : T → Bool) (hb : ∀ m, buffer m ≠ []) {s : Sys T M}
    (h : Reach sleepStep Spares (quiet buffer priority isHard) s) :
    NoneLeft s ∧ ∀ a e s', sleepStep s a = some (s', e) → (NoneLeft s' ↔ Spares s a) := by
  have I : SlotInv false s :=
    h.invariant (slotInv_quiet false buffer priority isHard hb)
      fun _ _ _ _ I hP hs => I.step (fun _ => hP) nofun hs
  refine ⟨I.noneLeft, fun a e s' hs => ⟨left_of_not_spares I hs, fun hP => ?_⟩⟩
  exact (I.step (fun _ => hP) nofun hs).noneLeft

/-- A receiver goes to sleep on an empty mailbox. -/
theorem no_sleeper_left_asleep :
    ∃ s : Sys (Fin 2) (Fin 1), Sleeps s 0 0 .recv ∧ NoneLeft s := by
  refine ⟨_, ⟨newCall .recv .wait 0 (fun _ => 0) 1, false, rfl, rfl, rfl, ?_⟩,
    (no_sleeper_left (fun _ => [0]) (fun _ => 0) (fun _ => true)
      (fun _ => List.cons_ne_nil _ _)
      ((((Reach.refl _).tail (a := .call 0 (.mbxReceive 0 1)) trivial rfl).tail
        (a := .run 0) (by rintro _ _ _ ⟨⟩) rfl).tail
        (a := .run 0) (by rintro _ _ _ ⟨⟩) rfl)).1⟩
  decide

/-- `~RT_SCHED_READY` -/
def notReady : TaskState :=
  {.suspended, .delayed, .semaphore, .send, .receive, .rpc, .ret, .mbxsusp,
    .sftrdy, .poll, .sigsusp}

/-- Task 0, a soft one, waits for a byte; task 1 sends two and sleeps behind
    the first.  Task 0 has been signalled, but is unblocked before Linux runs
    it. -/
def unblockedRun : List (Action (Fin 2) (Fin 1)) :=
  Action.call 0 (.mbxReceive 0 1) :: List.replicate 2 (Action.run 0) ++
    Action.call 1 (.mbxSend 0 (fun _ => 0) 2) :: List.replicate 8 (Action.run 1) ++
    [Action.unblock 0 notReady, .run 0]

/-- **A SENDER IS LEFT BEHIND**: the receiver clears the slot it is in. -/
theorem sender_left_behind : ∃ s : Sys (Fin 2) (Fin 1), Reach sleepStep (fun _ _ => True)
      (quiet (fun _ => [0]) (fun _ => 0) (fun t => decide (t = 1))) s ∧
      ¬ NoneLeft s := by
  obtain ⟨s, hplay, hpc, hsusp, h0, h1, hw⟩ : ∃ s, play sleepStep (fun _ _ => True)
      (quiet (fun _ => [0]) (fun _ => 0) (fun t => decide (t = 1))) unblockedRun = some s ∧
      (∃ c, s.st.pc 1 = .call c (.asleep false) ∧ c.mbx = 0 ∧ c.side = .send) ∧
      .mbxsusp ∈ s.state 1 ∧ s.owes 0 = false ∧ s.owes 1 = false ∧
      (s.st.mbx 0).waitingTask = none :=
    ⟨_, rfl, ⟨_, rfl, rfl, rfl⟩, by decide, rfl, rfl, rfl⟩
  refine ⟨s, reach_of_play hplay, fun hnone => ?_⟩
  obtain ⟨c, hc, hm, hs⟩ := hpc
  have hsig : Signalled s 0 := by
    intro t _ _ _ _
    fin_cases t
    · exact h0
    · exact h1
  have hslot := ((hnone 0 hsig).2 1 .send ⟨c, false, hc, hm, hs, hsusp⟩).1
  cases hw.symm.trans hslot

end Runs

end RtaiSleepers
