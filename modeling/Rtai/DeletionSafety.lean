import Rtai.MailboxDelete
import Rtai.Runs

/-! # What a deletion leaves behind

    The tasks of a mailbox while it is deleted.  As long as the buffer is freed
    when nobody has bytes to move, and the mailbox when nobody is in it, no
    section touches freed memory, who has been told returns an error, and nobody
    waits for ever. -/

namespace RtaiDeletionSafety

open RtaiMailbox RtaiMailboxDelete
open RtaiKernel (Ret)

section Invariant

variable {T M : Type} [decT : DecidableEq T] [decM : DecidableEq M]

/-- What a call that has been told can still do. -/
def Answers (d : Door) : Stage T → Prop
  | .semWait =>
    match d with
    | .queued => True
    | _ => False
  | .woken => True
  | .semSignal error => error = some .objrem
  | .wakeup _ _ retval => retval = .objrem
  | _ => False

/-- Where a task stands. -/
structure Stands (s : Sys T M) (t : T) : Prop where
  begun : ∀ r, s.begun t = some r → s.st.pc t = .idle ∧ s.told t = false
  poll : ∀ p stage, s.st.pc t ≠ .poll p stage
  mode : ∀ c stage, s.st.pc t = .call c stage → c.mode ≠ .ovrwr
  answers : ∀ c stage, s.st.pc t = .call c stage → s.told t = true → Answers (s.door t) stage
  finished : ∀ m, s.bufFreed m = true → Finished s m t
  gone : ∀ m, s.mbxFreed m = true → Gone s m t

/-- The task may be in `waiting_task`. -/
def Waits (s : Sys T M) (m : M) (t : T) : Prop :=
  s.st.blockedOn t ≠ .null ∧ ∃ c, c.mbx = m ∧
    (s.st.pc t = .call c .woken ∨ ∃ d, s.st.pc t = .call c (.asleep d))

/-- The semaphores that are deleted before a section of the deletion. -/
def shuts : DelPc → Side → Prop
  | .sem .recv, side => side = .send
  | .waiter, _ => True
  | .freeBuf, _ => True
  | .freeMbx, _ => True
  | .done, _ => True
  | _, _ => False

/-- The magics of a mailbox and its deletion. -/
structure Order (s : Sys T M) (m : M) : Prop where
  magic : s.deletion m ≠ .none → s.magic m = false
  semMagic : ∀ side, shuts (s.deletion m) side → s.semMagic m side = false
  freed : s.bufFreed m = true ∨ s.mbxFreed m = true →
    s.magic m = false ∧ ∀ side, s.semMagic m side = false

/-- What holds all along a deletion. -/
structure DelInv (s : Sys T M) : Prop where
  stands : ∀ t, Stands s t
  slot : ∀ m t, (s.st.mbx m).waitingTask = some t → Waits s m t
  pollq : ∀ m side, (s.st.mbx m).pollq side = []
  order : ∀ m, Order s m
  touched : s.touched = false
  late : ∀ t, s.late t = false
  sound : ∀ x ∈ s.returns, x.Heard

omit decT decM in
theorem delInv_start (buffer : M → List UInt8) (priority : T → Int) :
    DelInv (start buffer priority) where
  stands _ :=
    { begun := fun _ h => nomatch h
      poll := fun _ _ h => nomatch h
      mode := fun _ _ h => nomatch h
      answers := fun _ _ h => nomatch h
      finished := fun _ h => nomatch h
      gone := fun _ h => nomatch h }
  slot _ _ h := nomatch h
  pollq _ _ := rfl
  order _ :=
    { magic := fun h => absurd rfl h
      semMagic := fun _ h => h.elim
      freed := fun h => h.elim nofun nofun }
  touched := rfl
  late _ := rfl
  sound _ h := nomatch h

omit decT decM in
/-- Nobody waits for a mailbox whose buffer is freed. -/
theorem DelInv.released {s : Sys T M} (h : DelInv s) {m : M} {t : T}
    (hm : s.bufFreed m = true) : ¬ Stuck s m t := by
  intro hstuck
  obtain ⟨-, hpast⟩ := (h.stands t).finished m hm
  simp only [Stuck] at hstuck
  cases hpc : s.st.pc t with
  | idle => rw [hpc] at hstuck; exact hstuck
  | poll p stage => rw [hpc] at hstuck; exact hstuck
  | call c stage =>
    rw [hpc] at hstuck hpast
    cases stage with
    | asleep d => exact hpast hstuck
    | semWait =>
      obtain ⟨hc, htold, hd⟩ := hstuck
      have hp := hpast hc
      simp only [Past] at hp
      cases hdoor : s.door t with
      | queued =>
        rw [hdoor] at hp
        rw [htold] at hp
        exact nomatch hp
      | calling => rw [hdoor] at hd; exact hd
      | checked => rw [hdoor] at hd; exact hd
      | ended e => rw [hdoor] at hd; exact hd
      | granted => rw [hdoor] at hd; exact hd
    | _ => exact hstuck

/-! ## A task and the freed memory -/

omit decT decM in
theorem gone_elsewhere {s : Sys T M} {t : T} {m : M} {c : Call M}
    {stage : Stage T} (hpc : s.st.pc t = .call c stage)
    (hbegun : s.begun t = none) (hne : c.mbx ≠ m) : Gone s m t := by
  refine ⟨fun r hr => ?_, ?_⟩
  · rw [hbegun] at hr
    exact nomatch hr
  · rw [hpc]
    cases stage with
    | semWait => exact fun h => absurd h hne
    | _ => exact hne

/-- A task in a call on a mailbox that is not freed. -/
theorem stands_call {s : Sys T M} {t : T} {c : Call M} {stage : Stage T}
    (hpc : s.st.pc t = .call c stage) (hbegun : s.begun t = none)
    (hmode : c.mode ≠ .ovrwr)
    (hans : s.told t = true → Answers (s.door t) stage)
    (hpast : s.bufFreed c.mbx = true → Past s c.mbx t c stage)
    (hlive : s.mbxFreed c.mbx = false) : Stands s t where
  begun r hr := by
    rw [hbegun] at hr
    exact nomatch hr
  poll p st hp := by
    rw [hpc] at hp
    exact nomatch hp
  mode c' st hp := by
    rw [hpc] at hp
    cases hp
    exact hmode
  answers c' st hp := by
    rw [hpc] at hp
    cases hp
    exact hans
  finished m hm := by
    refine ⟨fun r hr => ?_, ?_⟩
    · rw [hbegun] at hr
      exact nomatch hr
    · rw [hpc]
      intro hc
      rw [← hc] at hm ⊢
      exact hpast hm
  gone m hm := by
    refine gone_elsewhere hpc hbegun ?_
    intro hc
    rw [← hc, hlive] at hm
    exact nomatch hm

omit decT decM in
theorem stands_idle {s : Sys T M} {t : T} (hpc : s.st.pc t = .idle)
    (hbegun : s.begun t = none) : Stands s t where
  begun r hr := by
    rw [hbegun] at hr
    exact nomatch hr
  poll p st hp := by
    rw [hpc] at hp
    exact nomatch hp
  mode c st hp := by
    rw [hpc] at hp
    exact nomatch hp
  answers c st hp := by
    rw [hpc] at hp
    exact nomatch hp
  finished m hm := by
    refine ⟨fun r hr => ?_, ?_⟩
    · rw [hbegun] at hr
      exact nomatch hr
    · rw [hpc]
      trivial
  gone m hm := by
    refine ⟨fun r hr => ?_, ?_⟩
    · rw [hbegun] at hr
      exact nomatch hr
    · rw [hpc]
      trivial

omit decT decM in
theorem Stands.notBegun {s : Sys T M} {t : T} {c : Call M} {stage : Stage T}
    (h : Stands s t) (hpc : s.st.pc t = .call c stage) : s.begun t = none := by
  cases hb : s.begun t with
  | none => rfl
  | some r =>
    obtain ⟨hidle, -⟩ := h.begun r hb
    rw [hpc] at hidle
    exact nomatch hidle

omit decT decM in
/-- Behind the semaphore the mailbox is there. -/
theorem Stands.live {s : Sys T M} {t : T} {c : Call M} {stage : Stage T}
    (h : Stands s t) (hpc : s.st.pc t = .call c stage)
    (hstage : stage ≠ .semWait) : s.mbxFreed c.mbx = false := by
  cases hm : s.mbxFreed c.mbx with
  | false => rfl
  | true =>
    obtain ⟨-, hg⟩ := h.gone c.mbx hm
    rw [hpc] at hg
    cases stage with
    | semWait => exact absurd rfl hstage
    | _ => exact absurd rfl hg

omit decT decM in
/-- And before it, for who has not been told. -/
theorem Stands.liveSem {s : Sys T M} {t : T} {c : Call M} (h : Stands s t)
    (hpc : s.st.pc t = .call c .semWait) (htold : s.told t = false) :
    s.mbxFreed c.mbx = false := by
  cases hm : s.mbxFreed c.mbx with
  | false => rfl
  | true =>
    obtain ⟨-, hg⟩ := h.gone c.mbx hm
    rw [hpc] at hg
    obtain ⟨hg, -⟩ := hg rfl
    rw [htold] at hg
    exact nomatch hg

omit decT decM in
theorem Stands.past {s : Sys T M} {t : T} {c : Call M} {stage : Stage T}
    (h : Stands s t) (hpc : s.st.pc t = .call c stage)
    (hm : s.bufFreed c.mbx = true) : Past s c.mbx t c stage := by
  obtain ⟨-, hp⟩ := h.finished c.mbx hm
  rw [hpc] at hp
  exact hp rfl

omit decT decM in
theorem access_eq {s : Sys T M} {m : M} (h : s.mbxFreed m = false) : s.access m = s := by
  simp only [Sys.access, h, Bool.or_false]

omit decM in
theorem accessBuf_eq {s : Sys T M} {t : T} {m : M} (h : s.bufFreed m = false) :
    s.accessBuf t m = s := by
  simp only [Sys.accessBuf, h, Bool.or_false, Function.update_eq_self]

/-! ## A section of one task -/

/-- What a section of `t` leaves alone. -/
structure Turn (s s' : Sys T M) (t : T) : Prop where
  begun : ∀ x ≠ t, s'.begun x = s.begun x
  pc : ∀ x ≠ t, s'.st.pc x = s.st.pc x
  blockedOn : ∀ x ≠ t, s'.st.blockedOn x = s.st.blockedOn x
  door : ∀ x ≠ t, s'.door x = s.door x
  told : ∀ x ≠ t, s'.told x = s.told x
  slot : ∀ m x, x ≠ t → (s'.st.mbx m).waitingTask = some x → (s.st.mbx m).waitingTask = some x
  pollq : ∀ m side, (s'.st.mbx m).pollq side = (s.st.mbx m).pollq side
  magic : s'.magic = s.magic
  semMagic : s'.semMagic = s.semMagic
  deletion : s'.deletion = s.deletion
  bufFreed : s'.bufFreed = s.bufFreed
  mbxFreed : s'.mbxFreed = s.mbxFreed
  touched : s'.touched = s.touched
  late : s'.late = s.late

omit decT decM in
theorem Turn.trans {s s' s'' : Sys T M} {t : T} (h : Turn s s' t)
    (h' : Turn s' s'' t) : Turn s s'' t where
  begun x hx := (h'.begun x hx).trans (h.begun x hx)
  pc x hx := (h'.pc x hx).trans (h.pc x hx)
  blockedOn x hx := (h'.blockedOn x hx).trans (h.blockedOn x hx)
  door x hx := (h'.door x hx).trans (h.door x hx)
  told x hx := (h'.told x hx).trans (h.told x hx)
  slot m x hx hs := h.slot m x hx (h'.slot m x hx hs)
  pollq m side := (h'.pollq m side).trans (h.pollq m side)
  magic := h'.magic.trans h.magic
  semMagic := h'.semMagic.trans h.semMagic
  deletion := h'.deletion.trans h.deletion
  bufFreed := h'.bufFreed.trans h.bufFreed
  mbxFreed := h'.mbxFreed.trans h.mbxFreed
  touched := h'.touched.trans h.touched
  late := h'.late.trans h.late

omit decT decM in
/-- Where a task stands is said by what is its own and by `waiting_task`. -/
theorem Past.kept {s s' : Sys T M} {x : T} {m : M} {c : Call M} {stage : Stage T}
    (hdoor : s'.door x = s.door x) (htold : s'.told x = s.told x)
    (hblocked : s'.st.blockedOn x = s.st.blockedOn x)
    (hslot : (s'.st.mbx m).waitingTask = some x → (s.st.mbx m).waitingTask = some x)
    (h : Past s m x c stage) : Past s' m x c stage := by
  cases stage with
  | semWait =>
    simp only [Past] at h ⊢
    rw [hdoor, htold]
    exact h
  | woken =>
    obtain ⟨htb, hne⟩ := h
    refine ⟨?_, fun hs => hne (hslot hs)⟩
    rw [htold, hblocked]
    exact htb
  | _ => exact h

theorem Finished.kept {s s' : Sys T M} {x : T} {m : M}
    (hbegun : s'.begun x = s.begun x) (hpc : s'.st.pc x = s.st.pc x)
    (hdoor : s'.door x = s.door x) (htold : s'.told x = s.told x)
    (hblocked : s'.st.blockedOn x = s.st.blockedOn x)
    (hslot : (s'.st.mbx m).waitingTask = some x → (s.st.mbx m).waitingTask = some x)
    (h : Finished s m x) : Finished s' m x := by
  obtain ⟨hb, hp⟩ := h
  refine ⟨by rw [hbegun]; exact hb, ?_⟩
  rw [hpc]
  cases hx : s.st.pc x with
  | idle => trivial
  | poll p stage => trivial
  | call c stage =>
    rw [hx] at hp
    intro hc
    exact Past.kept hdoor htold hblocked hslot (hp hc)

omit decT decM in
theorem Gone.kept {s s' : Sys T M} {x : T} {m : M}
    (hbegun : s'.begun x = s.begun x) (hpc : s'.st.pc x = s.st.pc x)
    (hdoor : s'.door x = s.door x) (htold : s'.told x = s.told x)
    (h : Gone s m x) : Gone s' m x := by
  simp only [Gone, hbegun, hpc, hdoor, htold]
  exact h

theorem Stands.kept {s s' : Sys T M} {x : T} (h : Stands s x)
    (hbegun : s'.begun x = s.begun x) (hpc : s'.st.pc x = s.st.pc x)
    (hdoor : s'.door x = s.door x) (htold : s'.told x = s.told x)
    (hblocked : s'.st.blockedOn x = s.st.blockedOn x)
    (hslot : ∀ m, (s'.st.mbx m).waitingTask = some x → (s.st.mbx m).waitingTask = some x)
    (hbuf : s'.bufFreed = s.bufFreed) (hmbx : s'.mbxFreed = s.mbxFreed) :
    Stands s' x where
  begun r hr := by
    rw [hbegun] at hr
    rw [hpc, htold]
    exact h.begun r hr
  poll := by
    rw [hpc]
    exact h.poll
  mode := by
    rw [hpc]
    exact h.mode
  answers := by
    rw [hpc, htold, hdoor]
    exact h.answers
  finished m hm := by
    rw [hbuf] at hm
    exact Finished.kept hbegun hpc hdoor htold hblocked (hslot m) (h.finished m hm)
  gone m hm := by
    rw [hmbx] at hm
    exact Gone.kept hbegun hpc hdoor htold (h.gone m hm)

omit decT decM in
theorem Waits.kept {s s' : Sys T M} {x : T} {m : M} (h : Waits s m x)
    (hpc : s'.st.pc x = s.st.pc x)
    (hblocked : s'.st.blockedOn x = s.st.blockedOn x) : Waits s' m x := by
  simp only [Waits, hpc, hblocked]
  exact h

/-- **One section**: the others stand where they stood. -/
theorem DelInv.turn {s s' : Sys T M} {t : T} (h : DelInv s) (ht : Turn s s' t)
    (hstands : Stands s' t)
    (hslot : ∀ m, (s'.st.mbx m).waitingTask = some t → Waits s' m t)
    (hsound : ∀ x ∈ s'.returns, x.Heard) : DelInv s' where
  stands x := by
    by_cases hx : x = t
    · rw [hx]
      exact hstands
    · exact (h.stands x).kept (ht.begun x hx) (ht.pc x hx) (ht.door x hx)
        (ht.told x hx) (ht.blockedOn x hx) (fun m => ht.slot m x hx)
        ht.bufFreed ht.mbxFreed
  slot m x hs := by
    by_cases hx : x = t
    · rw [hx] at hs ⊢
      exact hslot m hs
    · exact (h.slot m x (ht.slot m x hx hs)).kept (ht.pc x hx) (ht.blockedOn x hx)
  pollq m side := (ht.pollq m side).trans (h.pollq m side)
  order m :=
    { magic := by rw [ht.deletion, ht.magic]; exact (h.order m).magic
      semMagic := by rw [ht.deletion, ht.semMagic]; exact (h.order m).semMagic
      freed := by
        rw [ht.bufFreed, ht.mbxFreed, ht.magic, ht.semMagic]
        exact (h.order m).freed }
  touched := ht.touched.trans h.touched
  late x := by
    rw [ht.late]
    exact h.late x
  sound := hsound

/-! ## The sections of a pass -/

/-- A section that leaves `waiting_task` and the pollers alone. -/
structure Moves (s s' : St T M) (t : T) (pc : Pc T M) : Prop where
  pc : s'.pc = Function.update s.pc t pc
  blockedOn : s'.blockedOn = s.blockedOn
  slot : ∀ m, (s'.mbx m).waitingTask = (s.mbx m).waitingTask
  pollq : ∀ m side, (s'.mbx m).pollq side = (s.mbx m).pollq side

omit decM in
theorem moves_goto (s : St T M) (t : T) (pc : Pc T M) : Moves s (s.goto t pc) t pc :=
  ⟨rfl, rfl, fun _ => rfl, fun _ _ => rfl⟩

theorem moves_setMbx {s : St T M} {m : M} {x : Mbx T}
    (hw : x.waitingTask = (s.mbx m).waitingTask)
    (hq : x.pollq = (s.mbx m).pollq) (t : T) (pc : Pc T M) :
    Moves s ((s.setMbx m x).goto t pc) t pc where
  pc := rfl
  blockedOn := rfl
  slot m' := by
    show ((s.setMbx m x).mbx m').waitingTask = _
    by_cases hm : m' = m
    · rw [hm, setMbx_self]
      exact hw
    · rw [setMbx_of_ne hm]
  pollq m' side := by
    show ((s.setMbx m x).mbx m').pollq side = _
    by_cases hm : m' = m
    · rw [hm, setMbx_self, hq]
    · rw [setMbx_of_ne hm]

omit decM in
theorem Moves.turn {s : Sys T M} {st' : St T M} {t : T} {pc : Pc T M}
    (h : Moves s.st st' t pc) : Turn s { s with st := st' } t where
  begun _ _ := rfl
  pc x hx := by
    show st'.pc x = s.st.pc x
    rw [h.pc, Function.update_of_ne hx]
  blockedOn x hx := congrFun h.blockedOn x
  door _ _ := rfl
  told _ _ := rfl
  slot m x hx hs := (h.slot m).symm.trans hs
  pollq := h.pollq
  magic := rfl
  semMagic := rfl
  deletion := rfl
  bufFreed := rfl
  mbxFreed := rfl
  touched := rfl
  late := rfl

omit decM in
theorem turn_enterDoor (s : Sys T M) (t : T) (d : Door) :
    Turn s (s.enterDoor t d) t where
  begun _ _ := rfl
  pc _ _ := rfl
  blockedOn _ _ := rfl
  door _ hx := Function.update_of_ne hx _ _
  told _ _ := rfl
  slot _ _ _ hs := hs
  pollq _ _ := rfl
  magic := rfl
  semMagic := rfl
  deletion := rfl
  bufFreed := rfl
  mbxFreed := rfl
  touched := rfl
  late := rfl

omit decM in
theorem turn_setTold (s : Sys T M) (t : T) (b : Bool) :
    Turn s (s.setTold t b) t where
  begun _ _ := rfl
  pc _ _ := rfl
  blockedOn _ _ := rfl
  door _ _ := rfl
  told _ hx := Function.update_of_ne hx _ _
  slot _ _ _ hs := hs
  pollq _ _ := rfl
  magic := rfl
  semMagic := rfl
  deletion := rfl
  bufFreed := rfl
  mbxFreed := rfl
  touched := rfl
  late := rfl

omit decT decM in
theorem turn_returns (s : Sys T M) (t : T) (l : List (Return T)) :
    Turn s { s with returns := l } t where
  begun _ _ := rfl
  pc _ _ := rfl
  blockedOn _ _ := rfl
  door _ _ := rfl
  told _ _ := rfl
  slot _ _ _ hs := hs
  pollq _ _ := rfl
  magic := rfl
  semMagic := rfl
  deletion := rfl
  bufFreed := rfl
  mbxFreed := rfl
  touched := rfl
  late := rfl

/-- The task is not in `mbx_wait`. -/
def awake : Stage T → Prop
  | .woken => False
  | .asleep _ => False
  | _ => True

omit decT decM in
theorem DelInv.awake {s : Sys T M} {t : T} {c : Call M} {stage : Stage T}
    (h : DelInv s) (hpc : s.st.pc t = .call c stage) (hs : awake stage) (m : M) :
    (s.st.mbx m).waitingTask ≠ some t := by
  intro hw
  obtain ⟨-, c', -, hp | ⟨d, hp⟩⟩ := h.slot m t hw
  · rw [hpc] at hp
    cases hp
    exact hs
  · rw [hpc] at hp
    cases hp
    exact hs

/-- `t` goes from a stage to another. -/
theorem DelInv.goes {s : Sys T M} {st' : St T M} {t : T} {c c' : Call M}
    {stage stage' : Stage T} (h : DelInv s)
    (hpc : s.st.pc t = .call c stage) (hs : RtaiDeletionSafety.awake stage)
    (hm : Moves s.st st' t (.call c' stage')) (hmbx : c'.mbx = c.mbx)
    (hmode : c'.mode = c.mode)
    (hans : s.told t = true → Answers (s.door t) stage')
    (hpast : s.bufFreed c.mbx = true → Past { s with st := st' } c.mbx t c' stage')
    (hlive : s.mbxFreed c.mbx = false) : DelInv { s with st := st' } := by
  have hself : st'.pc t = .call c' stage' := by
    rw [hm.pc, Function.update_self]
  refine h.turn hm.turn ?_ ?_ h.sound
  · refine stands_call hself ((h.stands t).notBegun hpc) ?_ hans ?_ ?_
    · rw [hmode]
      exact (h.stands t).mode c stage hpc
    · rw [hmbx]
      exact hpast
    · rw [hmbx]
      exact hlive
  · intro m hw
    exact absurd ((hm.slot m).symm.trans hw) (h.awake hpc hs m)

/-- `t` returns. -/
theorem DelInv.finishes {s : Sys T M} {t : T} {c : Call M} {stage : Stage T}
    {v : Ret T} (h : DelInv s) (hpc : s.st.pc t = .call c stage)
    (hs : RtaiDeletionSafety.awake stage)
    (hv : s.told t = true → v = .objrem ∨ v = .val c.msgSize) :
    DelInv (finish s t c v) := by
  have hm : Moves s.st (s.st.goto t .idle) t .idle := moves_goto s.st t .idle
  refine h.turn (hm.turn.trans (turn_returns _ t _)) ?_ ?_ ?_
  · exact stands_idle (Function.update_self ..) ((h.stands t).notBegun hpc)
  · intro m hw
    exact absurd hw (h.awake hpc hs m)
  · intro x hx
    rcases List.mem_cons.mp hx with he | hx
    · rw [he]
      exact ⟨h.late t, hv⟩
    · exact h.sound x hx

omit decT decM in
/-- A pass is over with a task that has not been told. -/
theorem DelInv.untold {s : Sys T M} {t : T} {c : Call M} {stage : Stage T}
    (h : DelInv s) (hpc : s.st.pc t = .call c stage)
    (hs : ¬ Answers (s.door t) stage) : s.told t = false := by
  cases ht : s.told t with
  | false => rfl
  | true => exact absurd ((h.stands t).answers c stage hpc ht) hs

omit decT in
theorem Answers.of_untold {told : Bool} {d : Door} (h : told = false)
    (stage : Stage T) : told = true → Answers d stage := by
  intro ht
  rw [h] at ht
  exact nomatch ht

/-- A section inside a pass. -/
def Passes (s s' : St T M) (t : T) (c : Call M) : Prop :=
  ∃ c' stage, Moves s s' t (.call c' stage) ∧ c'.mbx = c.mbx ∧ c'.mode = c.mode

omit decM in
theorem passes_wild {s : St T M} {t : T} {c : Call M} {stage : Stage T}
    (hpc : s.pc t = .call c stage) : Passes s { s with wild := true } t c := by
  refine ⟨c, stage, ⟨?_, rfl, fun _ => rfl, fun _ _ => rfl⟩, rfl, rfl⟩
  rw [← hpc]
  exact (Function.update_eq_self t s.pc).symm

theorem copy_passes {s : St T M} {t : T} {c : Call M}
    (hpc : s.pc t = .call c .copy) : Passes s (copy s t c) t c := by
  have hput : Passes s (mbxputCopy s t c) t c := by
    simp only [mbxputCopy]
    split
    · exact passes_wild hpc
    · exact ⟨c, _, moves_setMbx (by rfl) (by rfl) t _, rfl, rfl⟩
  have hget : Passes s (mbxgetCopy s t c) t c := by
    simp only [mbxgetCopy]
    split
    · exact passes_wild hpc
    · exact ⟨c, _, moves_goto s t _, rfl, rfl⟩
  have hgoto (c' : Call M) (stage : Stage T) (hmbx : c'.mbx = c.mbx)
      (hmode : c'.mode = c.mode) : Passes s (s.goto t (.call c' stage)) t c :=
    ⟨c', stage, moves_goto s t _, hmbx, hmode⟩
  simp only [copy]
  split
  · split
    · split
      · exact hput
      · exact hgoto c _ rfl rfl
    · exact hgoto _ _ rfl rfl
  · split
    · exact hput
    · exact hgoto c _ rfl rfl
  · split
    · exact hget
    · exact hgoto c _ rfl rfl

/-- A call with nothing to move leaves the loop. -/
theorem copy_of_rest {s : St T M} {t : T} {c : Call M} (hmode : c.mode ≠ .ovrwr)
    (h : Rest c 0) : copy s t c = s.goto t (.call c .mbxSignal) := by
  have hle : ¬ c.msgSize > 0 := by
    simp only [Rest] at h
    split at h <;> omega
  simp only [copy]
  split
  · exact absurd ‹c.mode = .ovrwr› hmode
  · exact if_neg fun hc => hle hc.1
  · exact if_neg fun hc => hle hc.1

theorem DelInv.copy {s : Sys T M} {t : T} {c : Call M} (h : DelInv s)
    (hpc : s.st.pc t = .call c .copy) :
    DelInv { s with st := RtaiMailbox.copy s.st t c } := by
  have hlive := (h.stands t).live hpc nofun
  have htold := h.untold hpc id
  cases hb : s.bufFreed c.mbx with
  | false =>
    obtain ⟨c', stage, hm, hmbx, hmode⟩ := copy_passes (s := s.st) hpc
    refine h.goes hpc trivial hm hmbx hmode (Answers.of_untold htold _) ?_ hlive
    intro hb'
    rw [hb] at hb'
    exact nomatch hb'
  | true =>
    have hrest : Rest c 0 := (h.stands t).past hpc hb
    rw [copy_of_rest ((h.stands t).mode c _ hpc) hrest]
    refine h.goes hpc trivial (moves_goto s.st t _) rfl rfl
      (Answers.of_untold htold _) ?_ hlive
    intro _ hw
    simp only [Rest, hw, if_true] at hrest
    exact hrest

theorem DelInv.counters {s : Sys T M} {t : T} {c : Call M} {n : Int}
    {bytes : List UInt8} (h : DelInv s)
    (hpc : s.st.pc t = .call c (.counters n bytes)) :
    DelInv { s with st := (RtaiMailbox.counters s.st t c n bytes).1 } := by
  have hm : Moves s.st (RtaiMailbox.counters s.st t c n bytes).1 t
      (.call (c.advance n) (.index n)) := by
    simp only [RtaiMailbox.counters]
    cases c.side with
    | send => exact moves_setMbx (by rfl) (by rfl) t _
    | recv => exact moves_setMbx (by rfl) (by rfl) t _
  refine h.goes hpc trivial hm rfl rfl
    (Answers.of_untold (h.untold hpc id) _) ?_ ((h.stands t).live hpc nofun)
  intro hb
  have hrest : Rest c n := (h.stands t).past hpc hb
  show Rest (c.advance n) 0
  simp only [Rest] at hrest ⊢
  show if waits c.mode = true then c.msgSize - n = 0 else c.msgSize - n ≤ 0
  cases hw : waits c.mode with
  | false =>
    simp only [hw] at hrest
    exact Int.sub_nonpos_of_le hrest
  | true =>
    simp only [hw] at hrest
    exact Int.sub_eq_zero_of_eq hrest

theorem DelInv.index {s : Sys T M} {t : T} {c : Call M} {n : Int} (h : DelInv s)
    (hpc : s.st.pc t = .call c (.index n)) :
    DelInv { s with st := RtaiMailbox.index s.st t c n } := by
  have hmode := (h.stands t).mode c _ hpc
  have hm : Moves s.st (RtaiMailbox.index s.st t c n) t (.call c .copy) := by
    simp only [RtaiMailbox.index, if_neg hmode]
    cases c.side with
    | send => exact moves_setMbx (by rfl) (by rfl) t _
    | recv => exact moves_setMbx (by rfl) (by rfl) t _
  refine h.goes hpc trivial hm rfl rfl
    (Answers.of_untold (h.untold hpc id) _) ?_ ((h.stands t).live hpc nofun)
  intro hb
  have hrest : Rest c 0 := (h.stands t).past hpc hb
  exact hrest

/-! ## `waiting_task` -/

omit decT in
/-- A section of `t` that sets `waiting_task` to nobody or to `t`. -/
theorem turn_slot {s : Sys T M} {st' : St T M} {t : T} {m : M} {w : Option T}
    (hw : ∀ x, w = some x → x = t)
    (hmbx : st'.mbx = (s.st.setMbx m { s.st.mbx m with waitingTask := w }).mbx)
    (hpc : ∀ x ≠ t, st'.pc x = s.st.pc x)
    (hblocked : ∀ x ≠ t, st'.blockedOn x = s.st.blockedOn x) :
    Turn s { s with st := st' } t where
  begun _ _ := rfl
  pc := hpc
  blockedOn := hblocked
  door _ _ := rfl
  told _ _ := rfl
  slot m' x hx hs := by
    have hs' : (st'.mbx m').waitingTask = some x := hs
    rw [hmbx] at hs'
    by_cases hm : m' = m
    · rw [hm, setMbx_self] at hs'
      exact absurd (hw x hs') hx
    · rw [setMbx_of_ne hm] at hs'
      exact hs'
  pollq m' side := by
    show (st'.mbx m').pollq side = _
    rw [hmbx]
    by_cases hm : m' = m
    · rw [hm, setMbx_self]
    · rw [setMbx_of_ne hm]
  magic := rfl
  semMagic := rfl
  deletion := rfl
  bufFreed := rfl
  mbxFreed := rfl
  touched := rfl
  late := rfl

/-- Who is in `waiting_task` waits for a mailbox whose buffer is there. -/
theorem DelInv.waiter {s : Sys T M} {m : M} {u : T} (h : DelInv s)
    (hw : (s.st.mbx m).waitingTask = some u) :
    ∃ c, c.mbx = m ∧ (s.st.pc u).readyMbx = .call c .woken ∧
      c.mode ≠ .ovrwr ∧ s.begun u = none ∧ s.bufFreed c.mbx = false ∧
      s.mbxFreed c.mbx = false := by
  obtain ⟨-, c, hc, hpc | ⟨d, hpc⟩⟩ := h.slot m u hw
  · refine ⟨c, hc, by rw [hpc]; rfl, (h.stands u).mode c _ hpc,
      (h.stands u).notBegun hpc, ?_, (h.stands u).live hpc nofun⟩
    cases hb : s.bufFreed c.mbx with
    | false => rfl
    | true =>
      obtain ⟨-, hne⟩ := (h.stands u).past hpc hb
      rw [hc] at hne
      exact absurd hw hne
  · refine ⟨c, hc, by rw [hpc]; rfl, (h.stands u).mode c _ hpc,
      (h.stands u).notBegun hpc, ?_, (h.stands u).live hpc nofun⟩
    cases hb : s.bufFreed c.mbx with
    | false => rfl
    | true => exact ((h.stands u).past hpc hb).elim

/-- `mbx_signal` or `mbx_delete_signal` of the task in `waiting_task`. -/
theorem DelInv.rouse {s : Sys T M} {st' : St T M} {m : M} {u : T}
    (h : DelInv s) (hw : (s.st.mbx m).waitingTask = some u) (b : Bool)
    (hmbx : st'.mbx = (s.st.setMbx m { s.st.mbx m with waitingTask := none }).mbx)
    (hpc : st'.pc = Function.update s.st.pc u (s.st.pc u).readyMbx)
    (hblocked : ∀ x ≠ u, st'.blockedOn x = s.st.blockedOn x) :
    DelInv { s.setTold u b with st := st' } := by
  obtain ⟨c, hc, hready, hmode, hbegun, hbuf, hlive⟩ := h.waiter hw
  have hturn : Turn (s.setTold u b) { s.setTold u b with st := st' } u :=
    turn_slot (s := s.setTold u b) (w := none) nofun hmbx
      (fun x hx => by rw [hpc, Function.update_of_ne hx]; rfl) hblocked
  have hself : st'.pc u = .call c .woken := by
    rw [hpc, Function.update_self, hready]
  refine h.turn ((turn_setTold s u b).trans hturn) ?_ ?_ h.sound
  · refine stands_call hself hbegun hmode (fun _ => trivial) ?_ hlive
    intro hb
    exact nomatch hbuf.symm.trans hb
  · intro m' hs
    have hs' : (st'.mbx m').waitingTask = some u := hs
    rw [hmbx] at hs'
    by_cases hm : m' = m
    · rw [hm, setMbx_self] at hs'
      exact nomatch hs'
    · rw [setMbx_of_ne hm] at hs'
      obtain ⟨c', hc', hready', -⟩ := h.waiter hs'
      rw [hready] at hready'
      cases hready'
      exact absurd (hc'.symm.trans hc) hm

theorem DelInv.runSignal {s : Sys T M} {t : T} {c : Call M} (h : DelInv s)
    (hpc : s.st.pc t = .call c .mbxSignal) :
    DelInv (RtaiMailboxDelete.runSignal s t c) := by
  have hlive := (h.stands t).live hpc nofun
  have htold := h.untold hpc id
  simp only [RtaiMailboxDelete.runSignal]
  rw [access_eq hlive]
  have hpast (x : Sys T M) : s.bufFreed c.mbx = true →
      Past x c.mbx t c c.mode.afterSignal := by
    intro hb
    have hp : waits c.mode = true → c.msgSize = 0 := (h.stands t).past hpc hb
    cases hmode : c.mode with
    | wait =>
      rw [hmode] at hp
      exact hp rfl
    | «until» time =>
      rw [hmode] at hp
      exact hp rfl
    | _ => trivial
  cases hw : (s.st.mbx c.mbx).waitingTask with
  | none =>
    have hs : RtaiMailbox.mbxSignal s.st c.mbx = s.st := by
      simp only [RtaiMailbox.mbxSignal, hw]
    rw [hs]
    exact h.goes hpc trivial (moves_goto s.st t _) rfl rfl
      (Answers.of_untold htold _) (hpast _) hlive
  | some u =>
    have hut : t ≠ u := by
      intro hu
      rw [← hu] at hw
      exact h.awake hpc trivial c.mbx hw
    have hs : RtaiMailbox.mbxSignal s.st c.mbx =
        ((s.st.setMbx c.mbx { s.st.mbx c.mbx with waitingTask := none }).block
          u .null).goto u (s.st.pc u).readyMbx := by
      simp only [RtaiMailbox.mbxSignal, hw]
    have h₁ : DelInv { s.setTold u false with
        st := RtaiMailbox.mbxSignal s.st c.mbx } := by
      rw [hs]
      exact h.rouse hw false rfl rfl fun x hx => Function.update_of_ne hx _ _
    have hpc₁ : (RtaiMailbox.mbxSignal s.st c.mbx).pc t = .call c .mbxSignal := by
      rw [hs]
      exact (Function.update_of_ne hut _ _).trans hpc
    have htold₁ : (s.setTold u false).told t = false :=
      (Function.update_of_ne hut _ _).trans htold
    exact h₁.goes hpc₁ trivial (moves_goto _ t _) rfl rfl
      (Answers.of_untold htold₁ _) (hpast _) hlive

/-- `mbx_wait` up to the reschedule. -/
theorem DelInv.mbxWait {s : Sys T M} {t : T} {c : Call M} (h : DelInv s)
    (hpc : s.st.pc t = .call c .loop) (hsize : c.msgSize ≠ 0) :
    DelInv { s.setTold t false with st := RtaiMailbox.mbxWait s.st t c } := by
  have hlive := (h.stands t).live hpc nofun
  have hbegun := (h.stands t).notBegun hpc
  have hmode := (h.stands t).mode c _ hpc
  have hbuf : s.bufFreed c.mbx = true → False := by
    intro hb
    exact hsize ((h.stands t).past hpc hb)
  have htold : (s.setTold t false).told t = false := Function.update_self ..
  -- the three ends of the section
  have hgoes : ∀ st' : St T M, ∀ stage, ∀ w : Option T,
      st'.mbx = (s.st.setMbx c.mbx { s.st.mbx c.mbx with waitingTask := w }).mbx →
      (∀ x, w = some x → x = t) →
      st'.pc = Function.update s.st.pc t (.call c stage) →
      st'.blockedOn = Function.update s.st.blockedOn t .ptr →
      (w = some t → ∃ d, stage = .asleep d) →
      DelInv { s.setTold t false with st := st' } := by
    intro st' stage w hmbx hw hpc' hblocked hstage
    have hturn : Turn (s.setTold t false) { s.setTold t false with st := st' } t :=
      turn_slot (s := s.setTold t false) hw hmbx
        (fun x hx => by rw [hpc', Function.update_of_ne hx]; rfl)
        (fun x hx => by rw [hblocked, Function.update_of_ne hx]; rfl)
    have hpc'' : st'.pc t = .call c stage := by
      rw [hpc', Function.update_self]
    refine h.turn ((turn_setTold s t false).trans hturn) ?_ ?_ h.sound
    · exact stands_call hpc'' hbegun hmode (Answers.of_untold htold _)
        (fun hb => (hbuf hb).elim) hlive
    · intro m hs
      have hs' : (st'.mbx m).waitingTask = some t := hs
      rw [hmbx] at hs'
      by_cases hm : m = c.mbx
      · rw [hm, setMbx_self] at hs'
        obtain ⟨d, hd⟩ := hstage hs'
        refine ⟨?_, c, hm.symm, Or.inr ⟨d, ?_⟩⟩
        · show st'.blockedOn t ≠ .null
          rw [hblocked, Function.update_self]
          exact nofun
        · rw [← hd]
          exact hpc''
      · rw [setMbx_of_ne hm] at hs'
        exact absurd hs' (h.awake hpc trivial m)
  simp only [RtaiMailbox.mbxWait]
  split
  · split
    · split
      · exact hgoes _ _ (some t) rfl (fun x hx => (Option.some.inj hx).symm) rfl rfl
          fun _ => ⟨true, rfl⟩
      · exact hgoes _ _ none rfl nofun rfl rfl nofun
    · exact hgoes _ _ (some t) rfl (fun x hx => (Option.some.inj hx).symm) rfl rfl
        fun _ => ⟨false, rfl⟩
  · have hm : Moves s.st (s.st.goto t (.call c .copy)) t (.call c .copy) :=
      moves_goto s.st t _
    refine h.turn ((turn_setTold s t false).trans
      (Moves.turn (s := s.setTold t false) hm)) ?_ ?_ h.sound
    · exact stands_call (Function.update_self ..) hbegun hmode (Answers.of_untold htold _)
        (fun hb => (hbuf hb).elim) hlive
    · intro m hs
      exact absurd hs (h.awake hpc trivial m)

theorem DelInv.runWoken {s : Sys T M} {t : T} {c : Call M} (h : DelInv s)
    (hpc : s.st.pc t = .call c .woken) :
    DelInv (RtaiMailboxDelete.runWoken s t c) := by
  have hlive := (h.stands t).live hpc nofun
  have hbegun := (h.stands t).notBegun hpc
  have hmode := (h.stands t).mode c _ hpc
  have hclear : ∀ r, (s.told t = true → some r = some Ret.objrem) →
      DelInv { s with
        st := (s.st.setMbx c.mbx
          { s.st.mbx c.mbx with waitingTask := none }).goto t
            (.call c (.semSignal (some r))) } := by
    intro r hr
    refine h.turn (turn_slot (m := c.mbx) (w := none) nofun rfl
      (fun x hx => Function.update_of_ne hx _ _) fun _ _ => rfl) ?_ ?_ h.sound
    · exact stands_call (Function.update_self ..) hbegun hmode hr (fun _ => trivial) hlive
    · intro m hs
      have hs' : ((s.st.setMbx c.mbx
          { s.st.mbx c.mbx with waitingTask := none }).mbx m).waitingTask =
            some t := hs
      by_cases hm : m = c.mbx
      · rw [hm, setMbx_self] at hs'
        exact nomatch hs'
      · rw [setMbx_of_ne hm] at hs'
        obtain ⟨c', hc', hready, -⟩ := h.waiter hs'
        rw [hpc] at hready
        cases hready
        exact absurd hc'.symm hm
  simp only [RtaiMailboxDelete.runWoken]
  cases htold : s.told t with
  | true =>
    rw [if_pos rfl, access_eq hlive]
    exact hclear .objrem fun _ => rfl
  | false =>
    rw [if_neg nofun, access_eq hlive, ite_self]
    have hr (r : Ret T) : s.told t = true → some r = some Ret.objrem := by
      rw [htold]
      exact nofun
    simp only [RtaiMailbox.mbxWaitTail]
    cases hb : s.st.blockedOn t with
    | null =>
      -- who has been signalled is in no `waiting_task` any more
      have hslot (m : M) : (s.st.mbx m).waitingTask ≠ some t := by
        intro hs
        obtain ⟨hne, -⟩ := h.slot m t hs
        exact hne hb
      have hm : Moves s.st (s.st.goto t (.call c .copy)) t (.call c .copy) :=
        moves_goto s.st t _
      refine h.turn hm.turn ?_ ?_ h.sound
      · refine stands_call (Function.update_self ..) hbegun hmode
          (Answers.of_untold htold _) ?_ hlive
        intro hbuf
        obtain ⟨ht | hne, -⟩ := (h.stands t).past hpc hbuf
        · rw [htold] at ht
          exact nomatch ht
        · exact absurd hb hne
      · intro m hs
        exact absurd hs (hslot m)
    | ptr => exact hclear .timout (hr _)
    | unblkd => exact hclear .unblkd (hr _)

/-- The end of the sleep of a task: the timer or an unblock. -/
theorem DelInv.wakes {s : Sys T M} {st' : St T M} {t : T} {c : Call M} {d : Bool}
    (h : DelInv s) (hpc : s.st.pc t = .call c (.asleep d))
    (hpc' : st'.pc = Function.update s.st.pc t (.call c .woken))
    (hmbx : st'.mbx = s.st.mbx)
    (hblocked : ∀ x ≠ t, st'.blockedOn x = s.st.blockedOn x)
    (hnull : s.st.blockedOn t ≠ .null → st'.blockedOn t ≠ .null) :
    DelInv { s with st := st' } := by
  have hturn : Turn s { s with st := st' } t :=
    { begun := fun _ _ => rfl
      pc := fun x hx => by
        show st'.pc x = _
        rw [hpc', Function.update_of_ne hx]
      blockedOn := hblocked
      door := fun _ _ => rfl
      told := fun _ _ => rfl
      slot := fun m x _ hs => by
        have hs' : (st'.mbx m).waitingTask = some x := hs
        rw [hmbx] at hs'
        exact hs'
      pollq := fun m side => by
        show (st'.mbx m).pollq side = _
        rw [hmbx]
      magic := rfl
      semMagic := rfl
      deletion := rfl
      bufFreed := rfl
      mbxFreed := rfl
      touched := rfl
      late := rfl }
  have hself : st'.pc t = .call c .woken := by
    rw [hpc', Function.update_self]
  refine h.turn hturn ?_ ?_ h.sound
  · exact stands_call hself ((h.stands t).notBegun hpc)
      ((h.stands t).mode c _ hpc) (fun _ => trivial)
      (fun hb => ((h.stands t).past hpc hb).elim) ((h.stands t).live hpc nofun)
  · intro m hs
    have hs' : (st'.mbx m).waitingTask = some t := hs
    rw [hmbx] at hs'
    obtain ⟨hne, c', hc', hp | ⟨d', hp⟩⟩ := h.slot m t hs'
    · rw [hpc] at hp
      exact nomatch hp
    · rw [hpc] at hp
      cases hp
      exact ⟨hnull hne, c, hc', Or.inl hself⟩

/-! ## `sndsem` and `rcvsem` -/

omit decT decM in
theorem afterRelease_told (c : Call M) (error : Option (Ret T)) :
    (∃ ql reason v, afterRelease c error = .inl (.call c (.wakeup ql reason v)) ∧
      ∀ r, error = some r → v = r) ∨
    ∃ v, afterRelease c error = .inr v ∧ error = none := by
  cases error with
  | some r => exact Or.inl ⟨_, _, _, rfl, fun r' hr => Option.some.inj hr⟩
  | none =>
    simp only [afterRelease]
    split
    · split
      · exact Or.inl ⟨_, _, _, rfl, nofun⟩
      · exact Or.inr ⟨_, rfl, trivial⟩
    · exact Or.inr ⟨_, rfl, trivial⟩
    · exact Or.inl ⟨_, _, _, rfl, nofun⟩

theorem DelInv.runSemSignal {s : Sys T M} {t : T} {c : Call M}
    {error : Option (Ret T)} (h : DelInv s)
    (hpc : s.st.pc t = .call c (.semSignal error)) :
    DelInv (RtaiMailboxDelete.runSemSignal s t c error) := by
  have hlive := (h.stands t).live hpc nofun
  simp only [RtaiMailboxDelete.runSemSignal]
  rw [access_eq hlive]
  generalize hs : (if s.semMagic c.mbx c.side = true then
    { s with st := s.st.setMbx c.mbx ((s.st.mbx c.mbx).setSem c.side none) }
    else s) = s₁
  have h₁ : DelInv s₁ ∧ s₁.st.pc t = .call c (.semSignal error) := by
    rw [← hs]
    split
    · have hm : Moves s.st ((s.st.setMbx c.mbx
          ((s.st.mbx c.mbx).setSem c.side none)).goto t (s.st.pc t)) t
            (s.st.pc t) := moves_setMbx (by rfl) (by rfl) t _
      have hst : (s.st.setMbx c.mbx ((s.st.mbx c.mbx).setSem c.side none)).goto t
          (s.st.pc t) = s.st.setMbx c.mbx ((s.st.mbx c.mbx).setSem c.side none) := by
        simp only [St.goto, St.setMbx, Function.update_eq_self]
      rw [hst, hpc] at hm
      exact ⟨h.goes hpc trivial hm rfl rfl ((h.stands t).answers c _ hpc)
        (fun _ => trivial) hlive, hpc⟩
    · exact ⟨h, hpc⟩
  obtain ⟨h₁, hpc₁⟩ := h₁
  have hlive₁ := (h₁.stands t).live hpc₁ nofun
  have hans := (h₁.stands t).answers c _ hpc₁
  obtain ⟨ql, reason, v, he, hv⟩ | ⟨v, he, hv⟩ :=
    afterRelease_told c error
  · rw [he]
    exact h₁.goes hpc₁ trivial (moves_goto _ t _) rfl rfl
      (fun ht => hv _ (hans ht)) (fun _ => trivial) hlive₁
  · rw [he]
    refine h₁.finishes hpc₁ trivial fun ht => ?_
    have hsome : error = some .objrem := hans ht
    rw [hv] at hsome
    exact nomatch hsome

theorem DelInv.wakeupPoller {s : Sys T M} (h : DelInv s) (m : M) (ql : Side)
    (reason : Ret T) : RtaiMailbox.wakeupPoller s.st m ql reason = none := by
  simp only [RtaiMailbox.wakeupPoller, h.pollq m ql]

omit decT decM in
theorem semError_cases (c : Call M) (r : Ret T) :
    semError c r = r ∨ semError c r = .val c.msgSize := by
  simp only [semError]
  split
  · exact Or.inr rfl
  · exact Or.inl rfl

/-- A section in front of the semaphore. -/
theorem DelInv.stays {s : Sys T M} {st' : St T M} {t : T} {c : Call M} {d : Door}
    (h : DelInv s) (hpc : s.st.pc t = .call c .semWait)
    (hm : Moves s.st st' t (.call c .semWait)) (b : Bool)
    (hans : b = true → Answers d (.semWait : Stage T))
    (hpast : s.bufFreed c.mbx = true →
      Past (({ s with st := st' }.enterDoor t d).setTold t b) c.mbx t c .semWait)
    (hlive : s.mbxFreed c.mbx = false) :
    DelInv (({ s with st := st' }.enterDoor t d).setTold t b) := by
  have hself : st'.pc t = .call c .semWait := by
    rw [hm.pc, Function.update_self]
  refine h.turn (hm.turn.trans ((turn_enterDoor _ t d).trans
    (turn_setTold _ t b))) ?_ ?_ h.sound
  · refine stands_call hself ((h.stands t).notBegun hpc)
      ((h.stands t).mode c _ hpc) ?_ hpast hlive
    intro ht
    have hd : (({ s with st := st' }.enterDoor t d).setTold t b).door t = d :=
      Function.update_self ..
    rw [hd]
    exact hans ((Function.update_self (f := s.told) ..).symm.trans ht)
  · intro m hs
    exact absurd ((hm.slot m).symm.trans hs) (h.awake hpc trivial m)

omit decM in
theorem moves_self {s : St T M} {t : T} {pc : Pc T M} (hpc : s.pc t = pc) :
    Moves s s t pc where
  pc := by
    rw [← hpc]
    exact (Function.update_eq_self t s.pc).symm
  blockedOn := rfl
  slot _ := rfl
  pollq _ _ := rfl

omit decM in
theorem setTold_self {s : Sys T M} {t : T} (h : s.told t = false) (st' : St T M) (d : Door) :
    ({ s with st := st' }.enterDoor t d).setTold t false =
      { s with st := st' }.enterDoor t d := by
  simp only [Sys.setTold, Sys.enterDoor]
  rw [← h, Function.update_eq_self]

/-- Outside the queue nobody has been told. -/
theorem DelInv.untoldSem {s : Sys T M} {t : T} {c : Call M} (h : DelInv s)
    (hpc : s.st.pc t = .call c .semWait) (hd : s.door t ≠ .queued) :
    s.told t = false := by
  refine h.untold hpc fun ha => ?_
  simp only [Answers] at ha

theorem DelInv.runSem {s s' : Sys T M} {t : T} {c : Call M} (h : DelInv s)
    (hpc : s.st.pc t = .call c .semWait)
    (hrun : RtaiMailboxDelete.runSem s t c = some s') : DelInv s' := by
  have hpast := fun hb => (h.stands t).past hpc hb
  have henter : s.told t = false → s.mbxFreed c.mbx = false →
      s.bufFreed c.mbx = false → ∀ st', Moves s.st st' t (.call c .loop) →
        DelInv { s with st := st' } := by
    intro htold hlive hbuf st' hm
    refine h.goes hpc trivial hm rfl rfl (Answers.of_untold htold _) ?_ hlive
    intro hb
    rw [hbuf] at hb
    exact nomatch hb
  simp only [RtaiMailboxDelete.runSem] at hrun
  cases hd : s.door t with
  | calling =>
    have htold := h.untoldSem hpc (by rw [hd]; exact nofun)
    have hlive := (h.stands t).liveSem hpc htold
    simp only [hd, access_eq hlive] at hrun
    split at hrun
    · rename_i hmagic
      rw [← Option.some.inj hrun, ← setTold_self htold s.st]
      refine h.stays hpc (moves_self hpc) false nofun ?_ hlive
      intro hb
      obtain ⟨-, hsem⟩ := (h.order c.mbx).freed (Or.inl hb)
      rw [hsem] at hmagic
      exact nomatch hmagic
    · rw [← Option.some.inj hrun]
      refine h.finishes hpc trivial fun ht => ?_
      rw [htold] at ht
      exact nomatch ht
  | checked =>
    have htold := h.untoldSem hpc (by rw [hd]; exact nofun)
    have hlive := (h.stands t).liveSem hpc htold
    have hbuf : s.bufFreed c.mbx = false := by
      cases hb : s.bufFreed c.mbx with
      | false => rfl
      | true =>
        have hp := hpast hb
        simp only [Past, hd] at hp
    simp only [hd, access_eq hlive] at hrun
    split at hrun
    · rw [← Option.some.inj hrun]
      exact henter htold hlive hbuf _ (moves_setMbx (by rfl) (by rfl) t _)
    · rw [← Option.some.inj hrun]
      refine h.stays hpc (moves_self hpc) false nofun ?_ hlive
      intro hb
      rw [hbuf] at hb
      exact nomatch hb
  | queued =>
    simp only [hd] at hrun
    split at hrun
    · rw [← Option.some.inj hrun]
      exact h.finishes hpc trivial fun _ => semError_cases c .objrem
    · exact nomatch hrun
  | ended unblocked =>
    have htold := h.untoldSem hpc (by rw [hd]; exact nofun)
    have hlive := (h.stands t).liveSem hpc htold
    simp only [hd, access_eq hlive] at hrun
    rw [← Option.some.inj hrun]
    refine h.finishes hpc trivial fun ht => ?_
    rw [htold] at ht
    exact nomatch ht
  | granted =>
    have htold := h.untoldSem hpc (by rw [hd]; exact nofun)
    have hlive := (h.stands t).liveSem hpc htold
    have hbuf : s.bufFreed c.mbx = false := by
      cases hb : s.bufFreed c.mbx with
      | false => rfl
      | true =>
        have hp := hpast hb
        simp only [Past, hd] at hp
    simp only [hd, access_eq hlive] at hrun
    rw [← Option.some.inj hrun]
    exact henter htold hlive hbuf _ (moves_goto s.st t _)

theorem DelInv.grant {s s' : Sys T M} {t : T} {c : Call M} (h : DelInv s)
    (hpc : s.st.pc t = .call c .semWait)
    (hrun : RtaiMailboxDelete.grant s t c = some s') : DelInv s' := by
  simp only [RtaiMailboxDelete.grant] at hrun
  split at hrun
  · rename_i hfree
    obtain ⟨hmagic, -⟩ := hfree
    have hthere : s.bufFreed c.mbx = true ∨ s.mbxFreed c.mbx = true → False := by
      intro hf
      obtain ⟨-, hsem⟩ := (h.order c.mbx).freed hf
      rw [hsem] at hmagic
      exact nomatch hmagic
    have hm : Moves s.st ((s.st.setMbx c.mbx
        ((s.st.mbx c.mbx).setSem c.side (some t))).goto t (s.st.pc t)) t
          (s.st.pc t) := moves_setMbx (by rfl) (by rfl) t _
    have hst : (s.st.setMbx c.mbx ((s.st.mbx c.mbx).setSem c.side (some t))).goto t
        (s.st.pc t) = s.st.setMbx c.mbx ((s.st.mbx c.mbx).setSem c.side (some t)) := by
      simp only [St.goto, St.setMbx, Function.update_eq_self]
    rw [hst, hpc] at hm
    have hin := h.stays (d := .granted) hpc hm false nofun
      (fun hb => (hthere (Or.inl hb)).elim)
      (Bool.eq_false_of_not_eq_true fun hf => hthere (Or.inr hf))
    split at hrun
    · rw [← Option.some.inj hrun]
      exact hin
    · rw [← Option.some.inj hrun]
      exact hin
    · exact nomatch hrun
  · exact nomatch hrun

/-- A section of a task in a call. -/
theorem DelInv.runSection {s s' : Sys T M} {t : T} {c : Call M} {stage : Stage T}
    (h : DelInv s) (hpc : s.st.pc t = .call c stage)
    (hrun : RtaiMailboxDelete.runSection s t c stage = some s') : DelInv s' := by
  cases stage with
  | semWait => exact h.runSem hpc hrun
  | loop =>
    have hlive := (h.stands t).live hpc nofun
    simp only [RtaiMailboxDelete.runSection, access_eq hlive] at hrun
    split at hrun
    · rw [← Option.some.inj hrun]
      exact h.mbxWait hpc ‹_›
    · rw [← Option.some.inj hrun]
      exact h.goes hpc trivial (moves_goto s.st t _) rfl rfl
        (Answers.of_untold (h.untold hpc id) _) (fun _ => trivial) hlive
  | asleep d => exact nomatch hrun
  | woken =>
    rw [← Option.some.inj hrun]
    exact h.runWoken hpc
  | copy =>
    have hlive := (h.stands t).live hpc nofun
    have hsame : (if copies s c = true then s.accessBuf t c.mbx else s) = s := by
      cases hb : s.bufFreed c.mbx with
      | false => rw [accessBuf_eq hb, ite_self]
      | true =>
        have hrest : Rest c 0 := (h.stands t).past hpc hb
        refine if_neg fun hc => ?_
        simp only [copies, decide_eq_true_eq] at hc
        simp only [Rest] at hrest
        split at hrest <;> omega
    simp only [RtaiMailboxDelete.runSection, access_eq hlive, hsame] at hrun
    rw [← Option.some.inj hrun]
    exact h.copy hpc
  | counters n bytes =>
    have hlive := (h.stands t).live hpc nofun
    simp only [RtaiMailboxDelete.runSection, access_eq hlive] at hrun
    rw [← Option.some.inj hrun]
    exact h.counters hpc
  | index n =>
    have hlive := (h.stands t).live hpc nofun
    simp only [RtaiMailboxDelete.runSection, access_eq hlive] at hrun
    rw [← Option.some.inj hrun]
    exact h.index hpc
  | drop => exact nomatch hrun
  | dropCounters n => exact nomatch hrun
  | dropIndex n => exact nomatch hrun
  | mbxSignal =>
    rw [← Option.some.inj hrun]
    exact h.runSignal hpc
  | semSignal error =>
    rw [← Option.some.inj hrun]
    exact h.runSemSignal hpc
  | wakeup ql reason retval =>
    have hlive := (h.stands t).live hpc nofun
    simp only [RtaiMailboxDelete.runSection, access_eq hlive,
      h.wakeupPoller c.mbx ql reason] at hrun
    rw [← Option.some.inj hrun]
    refine h.finishes hpc trivial fun ht => Or.inl ?_
    exact (h.stands t).answers c _ hpc ht

/-! ## The beginning of a call -/

theorem DelInv.called {s : Sys T M} {t : T} {r : Request M} {m : M}
    (h : DelInv s) (hpc : s.st.pc t = .idle) (hm : mailbox r = some m)
    (hmagic : s.magic m = true) (hlive : s.mbxFreed m = false) :
    DelInv { s with
      begun := Function.update s.begun t (some r)
      told := Function.update s.told t false
      late := Function.update s.late t false } := by
  have hlate : Function.update s.late t false = s.late := by
    rw [← h.late t, Function.update_eq_self]
  rw [hlate]
  have hbegun : Function.update s.begun t (some r) t = some r :=
    Function.update_self ..
  refine h.turn (t := t)
    { begun := fun x hx => Function.update_of_ne hx _ _
      pc := fun _ _ => rfl
      blockedOn := fun _ _ => rfl
      door := fun _ _ => rfl
      told := fun x hx => Function.update_of_ne hx _ _
      slot := fun _ _ _ hs => hs
      pollq := fun _ _ => rfl
      magic := rfl
      semMagic := rfl
      deletion := rfl
      bufFreed := rfl
      mbxFreed := rfl
      touched := rfl
      late := rfl } ?_ ?_ h.sound
  · refine
      { begun := fun r' _ => ⟨hpc, Function.update_self ..⟩
        poll := (h.stands t).poll
        mode := (h.stands t).mode
        answers := fun c stage hp => ?_
        finished := fun m' hf => ⟨fun r' hr hm' => ?_, ?_⟩
        gone := fun m' hf => ⟨fun r' hr hm' => ?_, ?_⟩ }
    · cases hpc.symm.trans hp
    · have he : r = r' := Option.some.inj (hbegun.symm.trans hr)
      rw [← he, hm] at hm'
      obtain ⟨hclosed, -⟩ := (h.order m').freed (Or.inl hf)
      rw [← Option.some.inj hm', hmagic] at hclosed
      cases hclosed
    · simp only [hpc]
    · have he : r = r' := Option.some.inj (hbegun.symm.trans hr)
      rw [← he, hm] at hm'
      have hf' : s.mbxFreed m' = true := hf
      rw [← Option.some.inj hm', hlive] at hf'
      cases hf'
    · obtain ⟨-, hg⟩ := (h.stands t).gone m' hf
      rw [hpc] at hg
      simp only [hpc]
  · intro m' hs
    obtain ⟨c, -, hready, -⟩ := h.waiter hs
    rw [hpc] at hready
    cases hready

omit decM in
theorem turn_begun (s : Sys T M) (t : T) (r : Option (Request M)) :
    Turn s { s with begun := Function.update s.begun t r } t where
  begun _ hx := Function.update_of_ne hx _ _
  pc _ _ := rfl
  blockedOn _ _ := rfl
  door _ _ := rfl
  told _ _ := rfl
  slot _ _ _ hs := hs
  pollq _ _ := rfl
  magic := rfl
  semMagic := rfl
  deletion := rfl
  bufFreed := rfl
  mbxFreed := rfl
  touched := rfl
  late := rfl

/-- The first section of a call: it goes to the semaphore, or tries it. -/
def Begins (s : St T M) (t : T) (r : Request M) (m : M) : Prop :=
  ∃ c : Call M, c.mbx = m ∧ c.mode ≠ .ovrwr ∧ ((throughSem r = true ∧
        request s t r = (s.goto t (.call c .semWait), .silent)) ∨
      (throughSem r = false ∧ (request s t r = (enter s t c .copy, .silent) ∨
          ∃ v, request s t r = (s, .returned t v))))

theorem begins_request (s : St T M) (t : T) {r : Request M} {m : M}
    (hm : mailbox r = some m) : Begins s t r m := by
  have htry : ∀ c able, tryCall s t c able = (enter s t c .copy, .silent) ∨
      ∃ v, tryCall s t c able = (s, .returned t v) := by
    intro c able
    simp only [tryCall]
    split
    · exact Or.inl rfl
    · exact Or.inr ⟨_, rfl⟩
  have hwaits (c : Call M) (hc : c.mbx = m) (hmode : c.mode ≠ .ovrwr)
      (hsem : throughSem r = true)
      (hr : request s t r = (s.goto t (.call c .semWait), .silent)) :
      Begins s t r m :=
    ⟨c, hc, hmode, Or.inl ⟨hsem, hr⟩⟩
  have htries (c : Call M) (able : Bool) (hc : c.mbx = m) (hmode : c.mode ≠ .ovrwr)
      (hsem : throughSem r = false) (hr : request s t r = tryCall s t c able) :
      Begins s t r m :=
    ⟨c, hc, hmode, Or.inr ⟨hsem, by rw [hr]; exact htry c able⟩⟩
  cases r with
  | mbxSend m' msg n =>
    exact hwaits (newCall .send .wait m' msg n) (Option.some.inj hm) nofun rfl rfl
  | mbxSendUntil m' msg n time =>
    exact hwaits (newCall .send (.until time) m' msg n) (Option.some.inj hm) nofun
      rfl rfl
  | mbxReceive m' n =>
    exact hwaits (newCall .recv .wait m' (fun _ => 0) n) (Option.some.inj hm) nofun
      rfl rfl
  | mbxReceiveUntil m' n time =>
    exact hwaits (newCall .recv (.until time) m' (fun _ => 0) n)
      (Option.some.inj hm) nofun rfl rfl
  | mbxSendWp m' msg n =>
    exact htries (newCall .send .wp m' msg n) _ (Option.some.inj hm) nofun rfl rfl
  | mbxSendIf m' msg n =>
    exact htries (newCall .send .cond m' msg n) _ (Option.some.inj hm) nofun rfl rfl
  | mbxReceiveWp m' n =>
    exact htries (newCall .recv .wp m' (fun _ => 0) n) _ (Option.some.inj hm) nofun
      rfl rfl
  | mbxReceiveIf m' n =>
    exact htries (newCall .recv .cond m' (fun _ => 0) n) _ (Option.some.inj hm) nofun rfl rfl
  | mbxOvrwrSend m' msg n => exact nomatch hm
  | poll pds timeout => exact nomatch hm

theorem DelInv.runBegun {s : Sys T M} {t : T} {r : Request M} {m : M}
    (h : DelInv s) (hbegun : s.begun t = some r) (hm : mailbox r = some m) :
    DelInv (RtaiMailboxDelete.runBegun s t r) := by
  obtain ⟨hidle, htold⟩ := (h.stands t).begun r hbegun
  have hlive : s.mbxFreed m = false := by
    cases hf : s.mbxFreed m with
    | false => rfl
    | true =>
      obtain ⟨hg, -⟩ := (h.stands t).gone m hf
      exact absurd hm (hg r hbegun)
  have hslot (m' : M) : (s.st.mbx m').waitingTask ≠ some t := by
    intro hs
    obtain ⟨c, -, hready, -⟩ := h.waiter hs
    rw [hidle] at hready
    exact nomatch hready
  obtain ⟨c, hc, hmode, ⟨hsem, hr⟩ | ⟨hsem, hr | ⟨v, hr⟩⟩⟩ :=
    begins_request s.st t hm
  · simp only [RtaiMailboxDelete.runBegun, hr]
    refine h.turn ((turn_begun s t none).trans
      ((moves_goto s.st t _).turn (s := { s with
        begun := Function.update s.begun t none }).trans
          (turn_enterDoor _ t .calling))) ?_ ?_ h.sound
    · refine stands_call (Function.update_self ..) (Function.update_self ..) hmode
        (Answers.of_untold htold _) ?_ ?_
      · intro _
        simp only [Past, Sys.enterDoor, Function.update_self]
      · rw [hc]
        exact hlive
    · intro m' hs
      exact absurd hs (hslot m')
  · simp only [RtaiMailboxDelete.runBegun, hr]
    have hbuf : s.bufFreed m = false := by
      cases hf : s.bufFreed m with
      | false => rfl
      | true =>
        obtain ⟨hthrough, -⟩ := (h.stands t).finished m hf
        have ht := hthrough r hbegun hm
        rw [hsem] at ht
        exact nomatch ht
    have hmove : Moves s.st (enter s.st t c .copy) t (.call c .copy) :=
      moves_setMbx (by rfl) (by rfl) t _
    refine h.turn ((turn_begun s t none).trans
      (hmove.turn (s := { s with
        begun := Function.update s.begun t none }).trans
          (turn_enterDoor _ t .calling))) ?_ ?_ h.sound
    · refine stands_call (Function.update_self ..) (Function.update_self ..) hmode
        (Answers.of_untold htold _) ?_ ?_
      · intro hb
        rw [hc] at hb
        exact nomatch hbuf.symm.trans hb
      · rw [hc]
        exact hlive
    · intro m' hs
      exact absurd ((hmove.slot m').symm.trans hs) (hslot m')
  · simp only [RtaiMailboxDelete.runBegun, hr]
    refine h.turn ((turn_begun s t none).trans (turn_returns _ t _)) ?_ ?_ ?_
    · exact stands_idle hidle (Function.update_self ..)
    · intro m' hs
      exact absurd hs (hslot m')
    · intro x hx
      rcases List.mem_cons.mp hx with he | hx
      · rw [he]
        refine ⟨h.late t, fun ht => ?_⟩
        exact nomatch htold.symm.trans ht
      · exact h.sound x hx

/-! ## The deletion -/

/-- A section that changes no task. -/
theorem DelInv.rearranged {s s' : Sys T M} (h : DelInv s) (hst : s'.st.mbx = s.st.mbx)
    (hpc : s'.st.pc = s.st.pc) (hblocked : s'.st.blockedOn = s.st.blockedOn)
    (hstands : ∀ t, Stands s' t) (horder : ∀ m, Order s' m)
    (htouched : s'.touched = s.touched) (hlate : s'.late = s.late)
    (hreturns : ∀ x ∈ s'.returns, x.Heard) : DelInv s' where
  stands := hstands
  slot m t hs := by
    rw [hst] at hs
    exact (h.slot m t hs).kept (congrFun hpc t) (congrFun hblocked t)
  pollq m side := by
    rw [hst]
    exact h.pollq m side
  order := horder
  touched := htouched.trans h.touched
  late t := by
    rw [hlate]
    exact h.late t
  sound := hreturns

omit decT in
/-- The deletion of `m` goes on. -/
theorem Order.setDeletion {s : Sys T M} {m : M} {d : DelPc}
    (h : ∀ m, Order s m) (hnone : s.deletion m ≠ .none)
    (hshuts : ∀ side, shuts d side → s.semMagic m side = false) (m' : M) :
    Order (s.setDeletion m d) m' := by
  by_cases hm : m' = m
  · rw [hm]
    have hd : (s.setDeletion m d).deletion m = d := Function.update_self ..
    refine ⟨fun _ => (h m).magic hnone, fun side hs => ?_, (h m).freed⟩
    rw [hd] at hs
    exact hshuts side hs
  · have hd : (s.setDeletion m d).deletion m' = s.deletion m' :=
      Function.update_of_ne hm _ _
    refine ⟨fun hne => ?_, fun side hs => ?_, (h m').freed⟩
    · rw [hd] at hne
      exact (h m').magic hne
    · rw [hd] at hs
      exact (h m').semMagic side hs

theorem DelInv.setDeletion {s : Sys T M} {m : M} {d : DelPc} (h : DelInv s)
    (hnone : s.deletion m ≠ .none)
    (hshuts : ∀ side, shuts d side → s.semMagic m side = false) :
    DelInv (s.setDeletion m d) :=
  h.rearranged rfl rfl rfl
    (fun t => (h.stands t).kept rfl rfl rfl rfl rfl (fun _ hs => hs) rfl rfl)
    (Order.setDeletion h.order hnone hshuts) rfl rfl h.sound

theorem DelInv.deleted {s : Sys T M} {m : M} (h : DelInv s) (named : Bool) :
    DelInv ({ s with
      magic := Function.update s.magic m false
      named := Function.update s.named m named }.setDeletion m (.pollers .recv)) := by
  refine h.rearranged rfl rfl rfl
    (fun t => (h.stands t).kept rfl rfl rfl rfl rfl (fun _ hs => hs) rfl rfl)
    (fun m' => ?_) rfl rfl h.sound
  by_cases hm : m' = m
  · rw [hm]
    refine ⟨fun _ => Function.update_self .., fun side hs => ?_, fun hf => ?_⟩
    · simp only [Sys.setDeletion, Function.update_self] at hs
      exact hs.elim
    · obtain ⟨-, hsem⟩ := (h.order m).freed hf
      exact ⟨Function.update_self .., hsem⟩
  · have hmagic : Function.update s.magic m false m' = s.magic m' :=
      Function.update_of_ne hm _ _
    have hd : Function.update s.deletion m (.pollers .recv) m' = s.deletion m' :=
      Function.update_of_ne hm _ _
    refine ⟨fun hne => hmagic.trans ((h.order m').magic ?_), fun side hs => ?_, fun hf => ?_⟩
    · simp only [Sys.setDeletion] at hne
      rw [hd] at hne
      exact hne
    · simp only [Sys.setDeletion] at hs
      rw [hd] at hs
      exact (h.order m').semMagic side hs
    · obtain ⟨hmag, hsem⟩ := (h.order m').freed hf
      exact ⟨hmagic.trans hmag, hsem⟩

omit decT decM in
/-- A task that `rt_sem_delete` has told needs nothing any more. -/
theorem stands_told {s : Sys T M} {t : T} {c : Call M}
    (hpc : s.st.pc t = .call c .semWait) (hdoor : s.door t = .queued)
    (htold : s.told t = true) (hbegun : s.begun t = none)
    (hmode : c.mode ≠ .ovrwr) : Stands s t where
  begun r hr := by
    rw [hbegun] at hr
    exact nomatch hr
  poll p st hp := by
    rw [hpc] at hp
    exact nomatch hp
  mode c' st hp := by
    rw [hpc] at hp
    cases hp
    exact hmode
  answers c' st hp _ := by
    rw [hpc] at hp
    cases hp
    simp only [Answers, hdoor]
  finished m hm := by
    refine ⟨fun r hr => ?_, ?_⟩
    · rw [hbegun] at hr
      exact nomatch hr
    · simp only [hpc, Past, hdoor]
      exact fun _ => htold
  gone m hm := by
    refine ⟨fun r hr => ?_, ?_⟩
    · rw [hbegun] at hr
      exact nomatch hr
    · simp only [hpc, hdoor]
      exact fun _ => ⟨htold, trivial⟩

omit decT in
theorem semDelete_told (s : Sys T M) (m : M) (side : Side) (t : T) :
    (semDelete s m side).told t = s.told t ∨
      ∃ c, s.st.pc t = .call c .semWait ∧ s.door t = .queued ∧
        (semDelete s m side).told t = true := by
  simp only [semDelete]
  split
  · rename_i c hpc hdoor
    cases hb : (s.told t || (decide (c.mbx = m) && decide (c.side = side))) with
    | false =>
      obtain ⟨ht, -⟩ := Bool.or_eq_false_iff.mp hb
      exact Or.inl ht.symm
    | true => exact Or.inr ⟨c, hpc, hdoor, rfl⟩
  · exact Or.inl rfl

theorem DelInv.semDelete {s : Sys T M} (h : DelInv s) (m : M) (side : Side) :
    DelInv (RtaiMailboxDelete.semDelete s m side) := by
  have hclosed : ∀ m' side', s.semMagic m' side' = false →
      (RtaiMailboxDelete.semDelete s m side).semMagic m' side' = false := by
    intro m' side' hs
    show Function.update s.semMagic m _ m' side' = false
    by_cases hm : m' = m
    · rw [hm, Function.update_self]
      by_cases hside : side' = side
      · rw [hside, Function.update_self]
      · rw [Function.update_of_ne hside, ← hm]
        exact hs
    · rw [Function.update_of_ne hm]
      exact hs
  refine h.rearranged rfl rfl rfl (fun t => ?_) (fun m' => ?_) rfl rfl h.sound
  · rcases semDelete_told s m side t with htold | ⟨c, hpc, hdoor, htold⟩
    · exact (h.stands t).kept rfl rfl rfl htold rfl (fun _ hs => hs) rfl rfl
    · exact stands_told hpc hdoor htold ((h.stands t).notBegun hpc) ((h.stands t).mode c _ hpc)
  · refine ⟨(h.order m').magic, fun side' hs => hclosed m' side' ?_, fun hf => ?_⟩
    · exact (h.order m').semMagic side' hs
    · obtain ⟨hmagic, hsem⟩ := (h.order m').freed hf
      exact ⟨hmagic, fun side' => hclosed m' side' (hsem side')⟩

/-- The free of the buffer, or of the mailbox. -/
theorem DelInv.frees {s s' : Sys T M} {m : M} (h : DelInv s) (hst : s'.st = s.st)
    (hbegun : s'.begun = s.begun) (hdoor : s'.door = s.door)
    (htold : s'.told = s.told) (hmagic : s'.magic = s.magic)
    (hsem : s'.semMagic = s.semMagic) (hdel : s'.deletion = s.deletion)
    (htouched : s'.touched = s.touched) (hlate : s'.late = s.late)
    (hreturns : s'.returns = s.returns) (hshut : ∀ side, shuts (s.deletion m) side)
    (hnone : s.deletion m ≠ .none)
    (hbuf : ∀ m', s'.bufFreed m' = true → s.bufFreed m' = true ∨ m' = m ∧ ∀ t, Finished s m t)
    (hmbx : ∀ m', s'.mbxFreed m' = true → s.mbxFreed m' = true ∨
      m' = m ∧ ∀ t, Gone s m t) : DelInv s' := by
  have hslot (t : T) (m' : M) : (s'.st.mbx m').waitingTask = some t →
      (s.st.mbx m').waitingTask = some t := by
    rw [hst]
    exact id
  refine h.rearranged (congrArg _ hst) (congrArg _ hst) (congrArg _ hst)
    (fun t => ?_) (fun m' => ?_) htouched hlate ?_
  · refine
      { begun := ?_
        poll := ?_
        mode := ?_
        answers := ?_
        finished := fun m' hm => ?_
        gone := fun m' hm => ?_ }
    · rw [hbegun, hst, htold]
      exact (h.stands t).begun
    · rw [hst]
      exact (h.stands t).poll
    · rw [hst]
      exact (h.stands t).mode
    · rw [hst, htold, hdoor]
      exact (h.stands t).answers
    · refine Finished.kept (congrFun hbegun t) (by rw [hst]) (congrFun hdoor t)
        (congrFun htold t) (by rw [hst]) (hslot t m') ?_
      rcases hbuf m' hm with hf | ⟨he, hf⟩
      · exact (h.stands t).finished m' hf
      · rw [he]
        exact hf t
    · refine Gone.kept (congrFun hbegun t) (by rw [hst]) (congrFun hdoor t)
        (congrFun htold t) ?_
      rcases hmbx m' hm with hf | ⟨he, hf⟩
      · exact (h.stands t).gone m' hf
      · rw [he]
        exact hf t
  · refine ⟨?_, ?_, fun hf => ?_⟩
    · rw [hdel, hmagic]
      exact (h.order m').magic
    · rw [hdel, hsem]
      exact (h.order m').semMagic
    · rw [hmagic, hsem]
      have hold : (s.bufFreed m' = true ∨ s.mbxFreed m' = true) ∨ m' = m := by
        rcases hf with hf | hf
        · rcases hbuf m' hf with hf | ⟨he, -⟩
          · exact Or.inl (Or.inl hf)
          · exact Or.inr he
        · rcases hmbx m' hf with hf | ⟨he, -⟩
          · exact Or.inl (Or.inr hf)
          · exact Or.inr he
      rcases hold with hf | he
      · exact (h.order m').freed hf
      · rw [he]
        exact ⟨(h.order m).magic hnone, fun side => (h.order m).semMagic side (hshut side)⟩
  · rw [hreturns]
    exact h.sound

/-- A section of the deletion. -/
theorem DelInv.goDelete {s s' : Sys T M} {m : M} (h : DelInv s)
    (hheeds : Heeds s (.goDelete m))
    (hrun : RtaiMailboxDelete.goDelete s m = some s') : DelInv s' := by
  have hupdate (f : M → Bool) (m' : M) (hm : Function.update f m true m' = true) :
      f m' = true ∨ m' = m := by
    by_cases he : m' = m
    · exact Or.inr he
    · rw [Function.update_of_ne he] at hm
      exact Or.inl hm
  simp only [RtaiMailboxDelete.goDelete] at hrun
  simp only [Heeds] at hheeds
  cases hd : s.deletion m with
  | none =>
    simp only [hd] at hrun
    exact nomatch hrun
  | pollers side =>
    simp only [hd, h.wakeupPoller m side .objrem] at hrun
    rw [← Option.some.inj hrun]
    refine h.setDeletion (by rw [hd]; exact nofun) fun side' hs => ?_
    cases side with
    | recv => exact hs.elim
    | send => exact hs.elim
  | sem side =>
    simp only [hd] at hrun
    rw [← Option.some.inj hrun]
    have hnow : (RtaiMailboxDelete.semDelete s m side).semMagic m side = false := by
      show Function.update s.semMagic m _ m side = false
      rw [Function.update_self, Function.update_self]
    refine (h.semDelete m side).setDeletion ?_ fun side' hs => ?_
    · show s.deletion m ≠ .none
      rw [hd]
      exact nofun
    · cases side with
      | send =>
        rw [show side' = .send from hs]
        exact hnow
      | recv =>
        cases side' with
        | recv => exact hnow
        | send =>
          refine ((h.semDelete m .recv).order m).semMagic .send ?_
          show shuts (s.deletion m) .send
          rw [hd]
          rfl
  | waiter =>
    have hshut (side : Side) : s.semMagic m side = false :=
      (h.order m).semMagic side (by rw [hd]; trivial)
    cases hw : (s.st.mbx m).waitingTask with
    | none =>
      simp only [hd, hw] at hrun
      rw [← Option.some.inj hrun]
      exact h.setDeletion (by rw [hd]; exact nofun) fun side _ => hshut side
    | some u =>
      simp only [hd, hw] at hrun
      rw [← Option.some.inj hrun]
      exact h.rouse hw true rfl rfl fun _ _ => rfl
  | freeBuf =>
    simp only [hd] at hrun hheeds
    rw [← Option.some.inj hrun]
    have hshut (side : Side) : s.semMagic m side = false :=
      (h.order m).semMagic side (by rw [hd]; trivial)
    have h₁ : DelInv { s with bufFreed := Function.update s.bufFreed m true } := by
      refine h.frees (m := m) rfl rfl rfl rfl rfl rfl rfl rfl rfl rfl
        (fun side => by rw [hd]; trivial) (by rw [hd]; exact nofun)
        (fun m' hm => ?_) (fun m' hm => Or.inl hm)
      rcases hupdate s.bufFreed m' hm with hf | he
      · exact Or.inl hf
      · exact Or.inr ⟨he, hheeds⟩
    refine h₁.setDeletion ?_ fun side _ => hshut side
    show s.deletion m ≠ .none
    rw [hd]
    exact nofun
  | freeMbx =>
    simp only [hd] at hrun hheeds
    rw [← Option.some.inj hrun]
    have hshut (side : Side) : s.semMagic m side = false :=
      (h.order m).semMagic side (by rw [hd]; trivial)
    have h₁ : DelInv { s with mbxFreed := Function.update s.mbxFreed m true } := by
      refine h.frees (m := m) rfl rfl rfl rfl rfl rfl rfl rfl rfl rfl
        (fun side => by rw [hd]; trivial) (by rw [hd]; exact nofun)
        (fun m' hm => Or.inl hm) (fun m' hm => ?_)
      rcases hupdate s.mbxFreed m' hm with hf | he
      · exact Or.inl hf
      · exact Or.inr ⟨he, hheeds⟩
    refine h₁.setDeletion ?_ fun side _ => hshut side
    show s.deletion m ≠ .none
    rw [hd]
    exact nofun
  | done =>
    simp only [hd] at hrun
    exact nomatch hrun

/-! ## One step and a run -/

theorem DelInv.giveUp {s : Sys T M} {t : T} {c : Call M} (h : DelInv s)
    (hpc : s.st.pc t = .call c .semWait) (htold : s.told t = false)
    (unblocked : Bool) : DelInv (s.enterDoor t (.ended unblocked)) := by
  have h₁ := h.stays (d := .ended unblocked) hpc (moves_self hpc) false nofun
    (fun _ => by simp only [Past, Sys.setTold, Sys.enterDoor, Function.update_self])
    ((h.stands t).liveSem hpc htold)
  rw [setTold_self htold] at h₁
  exact h₁

omit decT decM in
/-- A task that sleeps does so in `mbx_wait`. -/
theorem DelInv.sleeper {s : Sys T M} {t : T} (h : DelInv s) (hs : (s.st.pc t).sleeps ≠ none) :
    ∃ c d, s.st.pc t = .call c (.asleep d) ∧ (s.st.pc t).readyMbx = .call c .woken := by
  cases hpc : s.st.pc t with
  | idle =>
    rw [hpc] at hs
    exact absurd rfl hs
  | poll p stage => exact absurd hpc ((h.stands t).poll p stage)
  | call c stage =>
    rw [hpc] at hs
    cases stage with
    | asleep d => exact ⟨c, d, rfl, rfl⟩
    | _ => exact absurd rfl hs

/-- **One step** that heeds the calls keeps the invariant. -/
theorem DelInv.step {s s' : Sys T M} {a : DelAction T M} {o : Unit} (h : DelInv s)
    (hheeds : Heeds s a) (hstep : deletionStep s a = some (s', o)) :
    DelInv s' := by
  simp only [deletionStep] at hstep
  split at hstep
  · exact nomatch hstep
  obtain ⟨s₁, hrun, he⟩ := Option.map_eq_some_iff.mp hstep
  cases he
  cases a with
  | call t r =>
    dsimp only at hrun
    split at hrun
    · rename_i m hpc hbegun hm
      have hlive : s.mbxFreed m = false := hheeds m hm
      rw [access_eq hlive] at hrun
      split at hrun
      · rw [← Option.some.inj hrun]
        exact h.called hpc hm ‹_› hlive
      · rw [← Option.some.inj hrun]
        refine h.rearranged rfl rfl rfl
          (fun x => (h.stands x).kept rfl rfl rfl rfl rfl (fun _ hs => hs) rfl rfl)
          (fun m' => ⟨(h.order m').magic, (h.order m').semMagic,
            (h.order m').freed⟩) rfl rfl ?_
        intro x hx
        rcases List.mem_cons.mp hx with hx | hx
        · rw [hx]
          exact ⟨rfl, nofun⟩
        · exact h.sound x hx
    · exact nomatch hrun
  | run t =>
    dsimp only at hrun
    cases hb : s.begun t with
    | some r =>
      rw [hb] at hrun
      dsimp only at hrun
      cases hm : mailbox r with
      | none =>
        rw [hm] at hrun
        exact nomatch hrun
      | some m =>
        have hlive : s.mbxFreed m = false := by
          cases hf : s.mbxFreed m with
          | false => rfl
          | true =>
            obtain ⟨hg, -⟩ := (h.stands t).gone m hf
            exact absurd hm (hg r hb)
        rw [hm] at hrun
        dsimp only at hrun
        rw [access_eq hlive, ite_self] at hrun
        rw [← Option.some.inj hrun]
        exact h.runBegun hb hm
    | none =>
      rw [hb] at hrun
      cases hpc : s.st.pc t with
      | idle =>
        rw [hpc] at hrun
        exact nomatch hrun
      | poll p stage => exact absurd hpc ((h.stands t).poll p stage)
      | call c stage =>
        rw [hpc] at hrun
        exact h.runSection hpc hrun
  | giveUp t unblocked =>
    dsimp only at hrun
    split at hrun
    · rename_i c hpc hdoor
      cases htold : s.told t with
      | true =>
        rw [htold, if_pos rfl] at hrun
        exact nomatch hrun
      | false =>
        rw [htold, if_neg nofun] at hrun
        rw [← Option.some.inj hrun]
        exact h.giveUp hpc htold unblocked
    · exact nomatch hrun
  | grant t =>
    dsimp only at hrun
    split at hrun
    · rename_i c hpc
      exact h.grant hpc hrun
    · exact nomatch hrun
  | expire t =>
    dsimp only at hrun
    split at hrun
    · rename_i hs
      obtain ⟨hs, -⟩ := hs
      obtain ⟨c, d, hpc, hready⟩ := h.sleeper (by rw [hs]; exact nofun)
      rw [← Option.some.inj hrun, hready]
      exact h.wakes hpc rfl rfl (fun _ _ => rfl) id
    · exact nomatch hrun
  | unblock t =>
    dsimp only at hrun
    split at hrun
    · rename_i hs
      obtain ⟨c, d, hpc, hready⟩ := h.sleeper hs
      rw [← Option.some.inj hrun, hready]
      refine h.wakes hpc rfl rfl (fun x hx => Function.update_of_ne hx _ _) ?_
      intro _
      show Function.update s.st.blockedOn t .unblkd t ≠ .null
      rw [Function.update_self]
      exact nofun
    · exact nomatch hrun
  | tick time timeH =>
    rw [← Option.some.inj hrun]
    exact h.rearranged rfl rfl rfl
      (fun x => (h.stands x).kept rfl rfl rfl rfl rfl (fun _ hs => hs) rfl rfl)
      (fun m' => ⟨(h.order m').magic, (h.order m').semMagic,
        (h.order m').freed⟩) rfl rfl h.sound
  | delete m named =>
    dsimp only at hrun
    split at hrun
    · rw [← Option.some.inj hrun]
      exact h.deleted named
    · exact nomatch hrun
  | goDelete m => exact h.goDelete hheeds hrun

end Invariant

end RtaiDeletionSafety
