import Rtai.Fifo
import Rtai.Runs

/-! # Processes that wait on FIFOs

    The four functions that wait, each in two sections with `schedule()`
    between them, and those that signal.  `schedule()` may return at any time;
    the test for a Linux signal that follows it is part of the step.

    `holds`, `got` and `gaveUp` are what an observer keeps account of. -/

namespace RtaiFifoWaits

open RtaiRuns RtaiCounterRing RtaiFifo

/-- Where a process stands. -/
inductive Pc (S B : Type) where
  | idle
  /-- In `mbx_sem_wait` or `mbx_sem_wait_timed`, about to sleep or asleep. -/
  | semAsleep (s : S) (timed : Bool)
  /-- Before the second section, with `ret`. -/
  | semWoken (s : S) (timed : Bool) (ret : Int)
  /-- In `mbx_wait` or `mbx_wait_timed`. -/
  | mbxAsleep (b : B)
  | mbxWoken (b : B)

/-- The fifos, and where every process stands. -/
structure Waits (T S B : Type) where
  fifos : Fifos T S B
  pc : T → Pc S B
  /-- The process has been granted the semaphore and not yet signalled it. -/
  holds : S → T → Bool
  /-- The last call that waits has been granted its semaphore. -/
  got : T → Bool
  /-- The last call that waits has returned a value other than 0. -/
  gaveUp : T → Bool

/-- The sections. -/
inductive Action (T S B : Type) where
  | semWaitIf (t : T) (s : S)
  /-- `mbx_sem_wait`, `mbx_sem_wait_timed` -/
  | semWait (t : T) (s : S) (timed : Bool) (rtPriority : Int)
  /-- `mbx_wait`, `mbx_wait_timed`, on `avbs` or on `frbs` -/
  | mbxWait (t : T) (b : B) (onAvbs timed : Bool)
  /-- `current->state = TASK_INTERRUPTIBLE` -/
  | sleep (t : T)
  /-- `schedule()` returns, and a Linux signal is pending or not. -/
  | wake (t : T) (signalPending : Bool)
  /-- The second section. -/
  | goOn (t : T)
  | semSignal (t : T) (s : S) (fifop : Option B)
  | signal (b : B)
  /-- `mbx_put` or `mbx_get` has moved `n` bytes. -/
  | moved (b : B) (n : Int)
  | sysrqTask
  | sysrqFifo

section Model

variable {T S B : Type} [decT : DecidableEq T] [decS : DecidableEq S] [decB : DecidableEq B]

/-- A call that waits begins. -/
def begin (st : Waits T S B) (t : T) : Waits T S B :=
  { st with
    got := Function.update st.got t false
    gaveUp := Function.update st.gaveUp t false }

/-- A call that waits returns `ret`. -/
def finish (st : Waits T S B) (t : T) (ret : Int) : Waits T S B × Option Int :=
  ({ st with
    pc := Function.update st.pc t .idle
    gaveUp := Function.update st.gaveUp t (decide (ret ≠ 0)) }, some ret)

/-- A process moves. -/
def goto (st : Waits T S B) (t : T) (pc : Pc S B) : Waits T S B × Option Int :=
  ({ st with pc := Function.update st.pc t pc }, none)

/-- `t` has the semaphore. -/
def take (st : Waits T S B) (s : S) (t : T) : Waits T S B :=
  { st with
    holds := Function.update st.holds s (Function.update (st.holds s) t true) }

/-- A call that waits has got the semaphore for `t`. -/
def grant (st : Waits T S B) (s : S) (t : T) : Waits T S B :=
  { take st s t with got := Function.update st.got t true }

/-- `t` gives the semaphore back. -/
def release (st : Waits T S B) (s : S) (t : T) : Waits T S B :=
  { st with
    holds := Function.update st.holds s (Function.update (st.holds s) t false) }

/-- `mbx_sem_signal`, with the account of who is given the semaphore. -/
def signalSem (st : Waits T S B) (t : T) (s : S) (fifop : Option B) :
    Waits T S B :=
  let st₁ := release st s t
  let st₂ := match st.fifos.queue s with
    | u :: _ => grant st₁ s u
    | [] => st₁
  { st₂ with fifos := mbxSemSignal st.fifos s fifop }

/-- One step, with the value returned by a call that ends. -/
def waitStep (st : Waits T S B) : Action T S B → Option (Waits T S B × Option Int)
  | .semWaitIf t s =>
    match st.pc t with
    | .idle =>
      let r := mbxSemWaitIf st.fifos s
      if r.2 = 0 then some (st, some 0)
      else some ({ take st s t with fifos := r.1 }, some 1)
    | _ => none
  | .semWait t s timed rtPriority =>
    match st.pc t with
    | .idle =>
      let r := mbxSemWait st.fifos s t rtPriority
      match r.2 with
      | none =>
        some (goto { begin st t with fifos := r.1 } t (.semAsleep s timed))
      | some ret =>
        some (finish { grant (begin st t) s t with fifos := r.1 } t ret)
    | _ => none
  | .mbxWait t b onAvbs timed =>
    match st.pc t with
    | .idle =>
      let r := mbxWait st.fifos b (if onAvbs then st.fifos.avbs b else st.fifos.frbs b) t timed
      match r.2 with
      | none => some (goto { begin st t with fifos := r.1 } t (.mbxAsleep b))
      | some ret => some (finish { begin st t with fifos := r.1 } t ret)
    | _ => none
  | .sleep t =>
    match st.pc t with
    | .semAsleep _ _ => some ({ st with fifos := setInterruptible st.fifos t }, none)
    | .mbxAsleep _ => some ({ st with fifos := setInterruptible st.fifos t }, none)
    | _ => none
  | .wake t signalPending =>
    match st.pc t with
    | .semAsleep s true =>
      if signalPending then some (finish st t (-ERESTARTSYS))
      else some (goto st t (.semWoken s true 0))
    | .semAsleep s false =>
      some (goto st t (.semWoken s false (if signalPending then -ERESTARTSYS else 0)))
    | .mbxAsleep b =>
      if signalPending then some (finish st t (-ERESTARTSYS))
      else some (goto st t (.mbxWoken b))
    | _ => none
  | .goOn t =>
    match st.pc t with
    | .semWoken s timed ret =>
      let r := if timed then mbxSemWaitTimedTail st.fifos s t
        else mbxSemWaitTail st.fifos s t ret
      some (finish { st with fifos := r.1 } t r.2)
    | .mbxWoken b =>
      let r := mbxWaitTail st.fifos b t
      some (finish { st with fifos := r.1 } t r.2)
    | _ => none
  | .semSignal t s fifop => some (signalSem st t s fifop, none)
  | .signal b => some ({ st with fifos := mbxSignal st.fifos b }, none)
  | .moved b n =>
    some ({ st with
      fifos := { st.fifos with
        avbs := Function.update st.fifos.avbs b (st.fifos.avbs b + n)
        frbs := Function.update st.fifos.frbs b (st.fifos.frbs b - n) } }, none)
  | .sysrqTask =>
    (sysrqTask st.fifos).map fun r => ({ st with fifos := r.1 }, none)
  | .sysrqFifo =>
    (sysrqFifo st.fifos).map fun f => ({ st with fifos := f }, none)

/-- The semaphores are initialised with `value`, the mailboxes with `size`
    bytes; nobody waits. -/
def opened (value : S → Bool) (size : B → Nat) (priority : T → Int) :
    Waits T S B where
  fifos :=
    { free := fun s => if value s then 1 else 0
      qtype := fun _ => 0
      queue := fun _ => []
      blocked := fun _ => false
      priority := priority
      interruptible := fun _ => false
      waitingTask := fun _ => none
      avbs := fun _ => 0
      frbs := fun b => size b
      polAsynPended := fun _ => false
      polled := fun _ => false
      taskq := Traced.empty (fun _ => none) 0 MAXREQS_pos
      polAsynQ := Traced.empty (fun _ => none) 0 MAXREQS_pos }
  pc := fun _ => .idle
  holds := fun _ _ => false
  got := fun _ => false
  gaveUp := fun _ => false

/-! ## The two properties -/

/-- At most one process holds a semaphore, and none a free one. -/
def MutualExclusion (st : Waits T S B) : Prop :=
  ∀ s, (∀ t t', st.holds s t = true → st.holds s t' = true → t = t') ∧
    (st.fifos.free s = 1 → ∀ t, st.holds s t = false)

/-- After a wait has failed nothing refers to the process, and it has not been
    left with a semaphore. -/
def NothingLeft (st : Waits T S B) : Prop :=
  ∀ t, st.gaveUp t = true → (∀ s, t ∉ st.fifos.queue s) ∧
    (∀ b, st.fifos.waitingTask b ≠ some t) ∧ st.got t = false

/-- Semaphores are signalled by their holders. -/
def ByHolder (st : Waits T S B) : Action T S B → Prop
  | .semSignal t s _ => st.holds s t = true
  | _ => True

/-- The process that goes on is the only waiter of a semaphore that is held. -/
def LastWaiter (st : Waits T S B) (t : T) (s : S) : Prop :=
  st.fifos.blocked t = true ∧ (st.fifos.queue s).erase t = [] ∧ ∃ u, st.holds s u = true

/-- Nobody that gives up is the only waiter of a semaphore that is held. -/
def Spares (st : Waits T S B) : Action T S B → Prop
  | .goOn t => ∀ s timed ret, st.pc t = .semWoken s timed ret → ¬ LastWaiter st t s
  | _ => True

/-- No process is interrupted in `mbx_sem_wait_timed` while its `LX_TASK` is
    still linked. -/
def Unlinked (st : Waits T S B) : Action T S B → Prop
  | .wake t signalPending => ∀ s, st.pc t = .semAsleep s true →
      signalPending = true → st.fifos.blocked t = false
  | _ => True

/-- No process is interrupted in `mbx_sem_wait_timed`, none in `mbx_wait` or
    `mbx_wait_timed` before it has been signalled, and none in `mbx_sem_wait`
    that has been granted the semaphore when it goes on. -/
def Careful (st : Waits T S B) : Action T S B → Prop
  | .wake t signalPending => signalPending = true → (∀ s, st.pc t ≠ .semAsleep s true) ∧
      ∀ b, st.pc t = .mbxAsleep b → st.fifos.waitingTask b ≠ some t
  | .goOn t => ∀ s ret, st.pc t = .semWoken s false ret → ret ≠ 0 → st.fifos.blocked t = true
  | _ => True

end Model

/-! ## Who is linked where -/

section Places

variable {T S B : Type}

/-- The process waits for no semaphore. -/
def Unqueued (st : Waits T S B) (t : T) : Prop := ∀ s, t ∉ st.fifos.queue s

/-- A process in a wait on `s`: linked there and nowhere else, or granted. -/
def AtSem (st : Waits T S B) (t : T) (s : S) : Prop :=
  st.gaveUp t = false ∧ (∀ b, st.fifos.waitingTask b ≠ some t) ∧
    (∀ s', t ∈ st.fifos.queue s' → s' = s) ∧
    (st.fifos.blocked t = true → t ∈ st.fifos.queue s ∧ st.got t = false) ∧
    (st.fifos.blocked t = false → t ∉ st.fifos.queue s ∧ st.got t = true)

/-- A process in a wait on the mailbox of `b`. -/
def AtMbx (st : Waits T S B) (t : T) (b : B) : Prop :=
  st.gaveUp t = false ∧ Unqueued st t ∧ st.got t = false ∧
    ∀ b', st.fifos.waitingTask b' = some t → b' = b

/-- A process is linked only where it waits. -/
def Placed (st : Waits T S B) (t : T) : Prop :=
  match st.pc t with
  | .idle => Unqueued st t ∧ (∀ b, st.fifos.waitingTask b ≠ some t) ∧
      (st.gaveUp t = true → st.got t = false)
  | .semAsleep s _ => AtSem st t s
  | .semWoken s _ _ => AtSem st t s
  | .mbxAsleep b => AtMbx st t b
  | .mbxWoken b => AtMbx st t b

/-- Everybody is where its queue says. -/
structure WaitInv (st : Waits T S B) : Prop where
  placed : ∀ t, Placed st t
  nodup : ∀ s, (st.fifos.queue s).Nodup

/-- A step leaves the process `t` as it is; it may be that a mailbox no longer
    records it. -/
structure Same (st st' : Waits T S B) (t : T) : Prop where
  pc : st'.pc t = st.pc t
  got : st'.got t = st.got t
  gaveUp : st'.gaveUp t = st.gaveUp t
  blocked : st'.fifos.blocked t = st.fifos.blocked t
  queue : ∀ s, t ∈ st'.fifos.queue s ↔ t ∈ st.fifos.queue s
  waiting : ∀ b, st'.fifos.waitingTask b = some t → st.fifos.waitingTask b = some t

variable {st st' : Waits T S B} {t : T} {s : S} {b : B}

theorem AtSem.same (h : AtSem st t s) (hs : Same st st' t) : AtSem st' t s := by
  obtain ⟨h1, h2, h3, h4, h5⟩ := h
  refine ⟨hs.gaveUp.trans h1, fun b hb => h2 b (hs.waiting b hb),
    fun s' hm => h3 s' ((hs.queue s').mp hm), fun hbl => ?_, fun hbl => ?_⟩
  · obtain ⟨hm, hg⟩ := h4 (hs.blocked.symm.trans hbl)
    exact ⟨(hs.queue s).mpr hm, hs.got.trans hg⟩
  · obtain ⟨hm, hg⟩ := h5 (hs.blocked.symm.trans hbl)
    exact ⟨fun hq => hm ((hs.queue s).mp hq), hs.got.trans hg⟩

theorem AtMbx.same (h : AtMbx st t b) (hs : Same st st' t) : AtMbx st' t b := by
  obtain ⟨h1, h2, h3, h4⟩ := h
  exact ⟨hs.gaveUp.trans h1, fun s hm => h2 s ((hs.queue s).mp hm),
    hs.got.trans h3, fun b' hb => h4 b' (hs.waiting b' hb)⟩

theorem Placed.same (h : Placed st t) (hs : Same st st' t) : Placed st' t := by
  simp only [Placed, hs.pc] at h ⊢
  cases hpc : st.pc t with
  | idle =>
    rw [hpc] at h
    exact ⟨fun s hm => h.1 s ((hs.queue s).mp hm), fun b hb => h.2.1 b (hs.waiting b hb),
      fun hg => hs.got.trans (h.2.2 (hs.gaveUp.symm.trans hg))⟩
  | semAsleep s timed =>
    rw [hpc] at h
    exact AtSem.same h hs
  | semWoken s timed ret =>
    rw [hpc] at h
    exact AtSem.same h hs
  | mbxAsleep b =>
    rw [hpc] at h
    exact AtMbx.same h hs
  | mbxWoken b =>
    rw [hpc] at h
    exact AtMbx.same h hs

/-- **A step of one process**: the others stay as they are. -/
theorem WaitInv.moved (I : WaitInv st) (h : ∀ u, u ≠ t → Same st st' u)
    (ht : Placed st' t) (hn : ∀ s, (st'.fifos.queue s).Nodup) : WaitInv st' := by
  refine ⟨fun u => ?_, hn⟩
  by_cases hu : u = t
  · rw [hu]
    exact ht
  · exact (I.placed u).same (h u hu)

theorem WaitInv.nothingLeft (I : WaitInv st) : NothingLeft st := by
  intro t hg
  have h := I.placed t
  simp only [Placed] at h
  cases hpc : st.pc t with
  | idle =>
    rw [hpc] at h
    exact ⟨h.1, h.2.1, h.2.2 hg⟩
  | semAsleep s timed =>
    rw [hpc] at h
    rw [h.1] at hg
    exact nomatch hg
  | semWoken s timed ret =>
    rw [hpc] at h
    rw [h.1] at hg
    exact nomatch hg
  | mbxAsleep b =>
    rw [hpc] at h
    rw [h.1] at hg
    exact nomatch hg
  | mbxWoken b =>
    rw [hpc] at h
    rw [h.1] at hg
    exact nomatch hg

end Places

/-! ## The queue -/

section Queue

variable {T S B : Type} [decT : DecidableEq T] [decS : DecidableEq S] [decB : DecidableEq B]

omit decB in
/-- The new node is put somewhere into the queue. -/
theorem enqueue_perm (st : Fifos T S B) (s : S) (t : T) (priority : Int) :
    ((enqueueBlocked st s t priority).queue s).Perm (t :: st.queue s) := by
  have hsplit : ∀ before : List T, before <+: st.queue s →
      (before ++ t :: (st.queue s).drop before.length).Perm (t :: st.queue s) := by
    rintro before ⟨after, hq⟩
    rw [← hq, List.drop_left]
    exact List.perm_middle
  simp only [enqueueBlocked, Function.update_self]
  split
  · exact hsplit _ (List.takeWhile_prefix _)
  · exact hsplit _ (List.prefix_refl _)

omit decB in
theorem enqueue_other (st : Fifos T S B) {s s' : S} (t : T) (priority : Int) (h : s' ≠ s) :
    (enqueueBlocked st s t priority).queue s' = st.queue s' := by
  simp only [enqueueBlocked, Function.update_of_ne h]

omit decS decB in
/-- What `rtf_sysrq_handler` does is nothing to those who wait. -/
theorem sysrqTask_frame {st f : Fifos T S B} {o : Option T} (h : sysrqTask st = some (f, o)) :
    f.queue = st.queue ∧ f.blocked = st.blocked ∧
      f.waitingTask = st.waitingTask ∧ f.free = st.free := by
  simp only [sysrqTask] at h
  split at h
  next => exact nomatch h
  next =>
    cases h
    exact ⟨rfl, rfl, rfl, rfl⟩
  next =>
    split at h
    next =>
      cases h
      exact ⟨rfl, rfl, rfl, rfl⟩
    next =>
      cases h
      exact ⟨rfl, rfl, rfl, rfl⟩

omit decT decS in
theorem sysrqFifo_frame {st f : Fifos T S B} (h : sysrqFifo st = some f) :
    f.queue = st.queue ∧ f.blocked = st.blocked ∧
      f.waitingTask = st.waitingTask ∧ f.free = st.free := by
  simp only [sysrqFifo] at h
  split at h
  next => exact nomatch h
  next =>
    cases h
    exact ⟨rfl, rfl, rfl, rfl⟩
  next =>
    cases h
    exact ⟨rfl, rfl, rfl, rfl⟩

/-- A signal on a semaphore that nobody waits on. -/
theorem mbxSemSignal_nil {st : Fifos T S B} {s : S} (hq : st.queue s = []) (fifop : Option B) :
    (mbxSemSignal st s fifop).queue = st.queue ∧
      (mbxSemSignal st s fifop).blocked = st.blocked ∧
      (mbxSemSignal st s fifop).waitingTask = st.waitingTask ∧
      (mbxSemSignal st s fifop).free = Function.update st.free s 1 := by
  simp only [mbxSemSignal, hq]
  cases fifop with
  | none => exact ⟨rfl, rfl, rfl, rfl⟩
  | some b =>
    dsimp only
    split
    · exact ⟨rfl, rfl, rfl, rfl⟩
    · exact ⟨rfl, rfl, rfl, rfl⟩

theorem mbxSemSignal_cons {st : Fifos T S B} {s : S} {u : T} {q : List T}
    (hq : st.queue s = u :: q) (fifop : Option B) :
    mbxSemSignal st s fifop = postTask (dequeueBlocked st s u) u := by
  simp only [mbxSemSignal, hq]

omit decB in
/-- Leaving a queue. -/
theorem mem_dequeued {st : Fifos T S B} (hn : ∀ s, (st.queue s).Nodup) {s s' : S} {t u : T} :
    u ∈ (dequeueBlocked st s t).queue s' ↔ u ∈ st.queue s' ∧ (s' = s → u ≠ t) := by
  show u ∈ Function.update st.queue s ((st.queue s).erase t) s' ↔ _
  by_cases hs : s' = s
  · rw [hs, Function.update_self, (hn s).mem_erase_iff]
    exact ⟨fun h => ⟨h.2, fun _ => h.1⟩, fun h => ⟨h.2 rfl, h.1⟩⟩
  · rw [Function.update_of_ne hs]
    exact ⟨fun h => ⟨h, fun h' => (hs h').elim⟩, fun h => h.1⟩

omit decB in
theorem nodup_dequeued {st : Fifos T S B} (hn : ∀ s, (st.queue s).Nodup) (s : S)
    (t : T) (s' : S) : ((dequeueBlocked st s t).queue s').Nodup := by
  show (Function.update st.queue s ((st.queue s).erase t) s').Nodup
  by_cases hs : s' = s
  · rw [hs, Function.update_self]
    exact (hn s).erase t
  · rw [Function.update_of_ne hs]
    exact hn s'

omit decB in
theorem giveUp_frame (st : Fifos T S B) (s : S) (t : T) :
    (giveUp st s t).queue = (dequeueBlocked st s t).queue ∧
      (giveUp st s t).blocked = (dequeueBlocked st s t).blocked ∧
      (giveUp st s t).waitingTask = st.waitingTask := by
  simp only [giveUp]
  split
  · exact ⟨rfl, rfl, rfl⟩
  · exact ⟨rfl, rfl, rfl⟩

end Queue

/-! ## Failed waits -/

section Steps

variable {T S B : Type} [decT : DecidableEq T] [decS : DecidableEq S] [decB : DecidableEq B]
  {st : Waits T S B} {t : T} {s : S} {b : B}

omit decT decS decB in
/-- Nothing of what the invariant speaks about changes. -/
theorem WaitInv.framed (I : WaitInv st) {st' : Waits T S B}
    (hpc : st'.pc = st.pc) (hgot : st'.got = st.got)
    (hgave : st'.gaveUp = st.gaveUp)
    (hf : st'.fifos.queue = st.fifos.queue ∧ st'.fifos.blocked = st.fifos.blocked ∧
      st'.fifos.waitingTask = st.fifos.waitingTask) : WaitInv st' := by
  obtain ⟨hq, hb, hw⟩ := hf
  refine ⟨fun u => (I.placed u).same ⟨?_, ?_, ?_, ?_, fun s => ?_, fun b h => ?_⟩, fun s => ?_⟩
  · rw [hpc]
  · rw [hgot]
  · rw [hgave]
  · rw [hb]
  · rw [hq]
  · rw [hw] at h
    exact h
  · rw [hq]
    exact I.nodup s

omit decT decS decB in
theorem WaitInv.idle (I : WaitInv st) (hpc : st.pc t = .idle) :
    Unqueued st t ∧ (∀ b, st.fifos.waitingTask b ≠ some t) ∧
      (st.gaveUp t = true → st.got t = false) := by
  have h := I.placed t
  simp only [Placed, hpc] at h
  exact h

/-- A process gets into the queue of a semaphore. -/
theorem WaitInv.enqueues (I : WaitInv st) (hpc : st.pc t = .idle)
    (timed : Bool) (priority : Int) :
    WaitInv (goto
      { begin st t with fifos := enqueueBlocked st.fifos s t priority } t
      (.semAsleep s timed)).1 := by
  obtain ⟨hun, hno, -⟩ := I.idle hpc
  have hmem : ∀ u s', u ∈ (enqueueBlocked st.fifos s t priority).queue s' ↔
      (s' = s ∧ u = t) ∨ u ∈ st.fifos.queue s' := by
    intro u s'
    by_cases hs : s' = s
    · rw [hs, (enqueue_perm st.fifos s t priority).mem_iff, List.mem_cons]
      exact ⟨fun h => h.imp (fun h => ⟨rfl, h⟩) id, fun h => h.imp (fun h => h.2) id⟩
    · rw [enqueue_other st.fifos t priority hs]
      exact ⟨.inr, fun h => h.resolve_left fun h' => hs h'.1⟩
  refine I.moved (t := t) (fun u hu => ⟨?_, ?_, ?_, ?_, fun s' => ?_, fun b h => h⟩)
    ?_ fun s' => ?_
  · exact Function.update_of_ne hu ..
  · exact Function.update_of_ne hu ..
  · exact Function.update_of_ne hu ..
  · exact Function.update_of_ne hu ..
  · exact (hmem u s').trans ⟨fun h => h.resolve_left fun h' => hu h'.2, .inr⟩
  · show Placed _ t
    simp only [Placed, goto, Function.update_self]
    refine ⟨Function.update_self .., hno, fun s' h => ?_, fun _ => ⟨?_, ?_⟩, fun h => ?_⟩
    · rcases (hmem t s').mp h with h | h
      · exact h.1
      · exact (hun s' h).elim
    · exact (hmem t s).mpr (.inl ⟨rfl, rfl⟩)
    · exact Function.update_self ..
    · have : Function.update st.fifos.blocked t true t = false := h
      rw [Function.update_self] at this
      exact nomatch this
  · by_cases hs : s' = s
    · rw [hs]
      exact (enqueue_perm st.fifos s t priority).nodup_iff.mpr
        (List.nodup_cons.mpr ⟨hun s, I.nodup s⟩)
    · show ((enqueueBlocked st.fifos s t priority).queue s').Nodup
      rw [enqueue_other st.fifos t priority hs]
      exact I.nodup s'

/-- A call that waits returns at once. -/
theorem WaitInv.passes (I : WaitInv st) (hpc : st.pc t = .idle)
    {st₁ : Waits T S B} (h1 : st₁.pc = st.pc)
    (h2 : ∀ u, u ≠ t → st₁.got u = st.got u)
    (h3 : ∀ u, u ≠ t → st₁.gaveUp u = st.gaveUp u)
    (hq : st₁.fifos.queue = st.fifos.queue)
    (hb : st₁.fifos.blocked = st.fifos.blocked)
    (hw : st₁.fifos.waitingTask = st.fifos.waitingTask) :
    WaitInv (finish st₁ t 0).1 := by
  obtain ⟨hun, hno, -⟩ := I.idle hpc
  refine I.moved (t := t) (fun u hu => ⟨?_, h2 u hu, ?_, ?_, fun s' => ?_, fun b h => ?_⟩)
    ?_ fun s' => ?_
  · exact (Function.update_of_ne hu ..).trans (congrFun h1 u)
  · exact (Function.update_of_ne hu ..).trans (h3 u hu)
  · exact congrFun hb u
  · show u ∈ st₁.fifos.queue s' ↔ _
    rw [hq]
  · have h : st₁.fifos.waitingTask b = some u := h
    rw [hw] at h
    exact h
  · show Placed _ t
    simp only [Placed, finish, Function.update_self]
    refine ⟨fun s' => ?_, fun b => ?_, nofun⟩
    · show t ∉ st₁.fifos.queue s'
      rw [hq]
      exact hun s'
    · rw [hw]
      exact hno b
  · show (st₁.fifos.queue s').Nodup
    rw [hq]
    exact I.nodup s'

/-- A process is recorded by a mailbox. -/
theorem WaitInv.records (I : WaitInv st) (hpc : st.pc t = .idle)
    {f : Fifos T S B} (hq : f.queue = st.fifos.queue)
    (hb : f.blocked = st.fifos.blocked)
    (hw : f.waitingTask = Function.update st.fifos.waitingTask b (some t)) :
    WaitInv (goto { begin st t with fifos := f } t (.mbxAsleep b)).1 := by
  obtain ⟨hun, hno, -⟩ := I.idle hpc
  have hrec : ∀ u b', f.waitingTask b' = some u →
      (b' = b ∧ u = t) ∨ st.fifos.waitingTask b' = some u := by
    intro u b' h
    rw [hw] at h
    by_cases hbb : b' = b
    · rw [hbb, Function.update_self] at h
      exact .inl ⟨hbb, (Option.some.inj h).symm⟩
    · rw [Function.update_of_ne hbb] at h
      exact .inr h
  refine I.moved (t := t) (fun u hu => ⟨?_, ?_, ?_, ?_, fun s' => ?_, fun b' h => ?_⟩)
    ?_ fun s' => ?_
  · exact Function.update_of_ne hu ..
  · exact Function.update_of_ne hu ..
  · exact Function.update_of_ne hu ..
  · exact congrFun hb u
  · show u ∈ f.queue s' ↔ _
    rw [hq]
  · exact (hrec u b' h).resolve_left fun h' => hu h'.2
  · show Placed _ t
    simp only [Placed, goto, Function.update_self]
    refine ⟨Function.update_self .., fun s' => ?_, Function.update_self .., fun b' h => ?_⟩
    · show t ∉ f.queue s'
      rw [hq]
      exact hun s'
    · rcases hrec t b' h with h | h
      · exact h.1
      · exact (hno b' h).elim
  · show (f.queue s').Nodup
    rw [hq]
    exact I.nodup s'

omit decT decS decB in
/-- The place of a process changes, and what it has been told. -/
theorem WaitInv.walks (I : WaitInv st) {st' : Waits T S B}
    (hpc : ∀ u, u ≠ t → st'.pc u = st.pc u) (hgot : st'.got = st.got)
    (hgave : ∀ u, u ≠ t → st'.gaveUp u = st.gaveUp u)
    (hf : st'.fifos = st.fifos) (ht : Placed st' t) : WaitInv st' := by
  refine I.moved (t := t) (fun u hu => ⟨hpc u hu, congrFun hgot u, hgave u hu, ?_,
    fun s' => ?_, fun b h => ?_⟩) ht fun s' => ?_
  · rw [hf]
  · rw [hf]
  · rw [hf] at h
    exact h
  · rw [hf]
    exact I.nodup s'

theorem WaitInv.wakes (I : WaitInv st) {signalPending : Bool}
    (hc : Careful st (.wake t signalPending)) {r : Waits T S B × Option Int}
    (h : waitStep st (.wake t signalPending) = some r) : WaitInv r.1 := by
  have hplace := I.placed t
  simp only [waitStep] at h
  simp only [Placed] at hplace
  cases hpc : st.pc t with
  | idle =>
    rw [hpc] at h
    exact nomatch h
  | semWoken s timed ret =>
    rw [hpc] at h
    exact nomatch h
  | mbxWoken b =>
    rw [hpc] at h
    exact nomatch h
  | semAsleep s timed =>
    rw [hpc] at h hplace
    -- the process stays where it is linked
    have hstay : ∀ ret, WaitInv (goto st t (.semWoken s timed ret)).1 := by
      intro ret
      refine I.walks (t := t) (fun u hu => Function.update_of_ne hu ..) rfl
        (fun _ _ => rfl) rfl ?_
      simp only [Placed, goto, Function.update_self]
      exact hplace
    cases timed with
    | false =>
      cases h
      exact hstay _
    | true =>
      cases signalPending with
      | true => exact ((hc rfl).1 s hpc).elim
      | false =>
        cases h
        exact hstay _
  | mbxAsleep b =>
    rw [hpc] at h hplace
    obtain ⟨h1, h2, h3, h4⟩ := hplace
    cases signalPending with
    | false =>
      cases h
      refine I.walks (t := t) (fun u hu => Function.update_of_ne hu ..) rfl
        (fun _ _ => rfl) rfl ?_
      simp only [Placed, goto, Function.update_self]
      exact ⟨h1, h2, h3, h4⟩
    | true =>
      cases h
      refine I.walks (t := t) (fun u hu => Function.update_of_ne hu ..) rfl
        (fun u hu => Function.update_of_ne hu ..) rfl ?_
      simp only [Placed, finish, Function.update_self]
      refine ⟨h2, fun b' hb => ?_, fun _ => h3⟩
      have hb' := h4 b' hb
      rw [hb'] at hb
      exact (hc rfl).2 b hpc hb

/-- A waiter that is still linked gives up. -/
theorem WaitInv.givesUp (I : WaitInv st) (h : AtSem st t s)
    (hbl : st.fifos.blocked t = true) (ret : Int) :
    WaitInv (finish { st with fifos := giveUp st.fifos s t } t ret).1 := by
  obtain ⟨hq, hb, hw⟩ := giveUp_frame st.fifos s t
  obtain ⟨-, h2, h3, h4, -⟩ := h
  refine I.moved (t := t) (fun u hu => ⟨?_, rfl, ?_, ?_, fun s' => ?_, fun b' h => ?_⟩)
    ?_ fun s' => ?_
  · exact Function.update_of_ne hu ..
  · exact Function.update_of_ne hu ..
  · refine (congrFun hb u).trans ?_
    exact Function.update_of_ne hu ..
  · show u ∈ (giveUp st.fifos s t).queue s' ↔ _
    rw [hq, mem_dequeued I.nodup]
    exact ⟨fun h => h.1, fun h => ⟨h, fun _ => hu⟩⟩
  · have h : (giveUp st.fifos s t).waitingTask b' = some u := h
    rw [hw] at h
    exact h
  · show Placed _ t
    simp only [Placed, finish, Function.update_self]
    refine ⟨fun s' hm => ?_, fun b' => ?_, fun _ => (h4 hbl).2⟩
    · have hm : t ∈ (giveUp st.fifos s t).queue s' := hm
      rw [hq, mem_dequeued I.nodup] at hm
      exact hm.2 (h3 s' hm.1) rfl
    · rw [hw]
      exact h2 b'
  · show ((giveUp st.fifos s t).queue s').Nodup
    rw [hq]
    exact nodup_dequeued I.nodup s t s'

/-- A waiter that has been granted the semaphore returns. -/
theorem WaitInv.returns (I : WaitInv st) (h : AtSem st t s)
    (hbl : st.fifos.blocked t = false) : WaitInv (finish st t 0).1 := by
  obtain ⟨-, h2, h3, -, h5⟩ := h
  refine I.walks (t := t) (fun u hu => Function.update_of_ne hu ..) rfl
    (fun u hu => Function.update_of_ne hu ..) rfl ?_
  simp only [Placed, finish, Function.update_self]
  refine ⟨fun s' hm => ?_, h2, nofun⟩
  have hs := h3 s' hm
  rw [hs] at hm
  exact (h5 hbl).1 hm

theorem WaitInv.leavesMbx (I : WaitInv st) (h : AtMbx st t b) :
    WaitInv (finish { st with fifos := (mbxWaitTail st.fifos b t).1 } t
      (mbxWaitTail st.fifos b t).2).1 := by
  obtain ⟨-, h2, h3, h4⟩ := h
  by_cases hb : st.fifos.waitingTask b = some t
  · simp only [mbxWaitTail, if_pos hb]
    have hrec : ∀ u b', Function.update st.fifos.waitingTask b none b' = some u →
        b' ≠ b ∧ st.fifos.waitingTask b' = some u := by
      intro u b' h
      by_cases hbb : b' = b
      · rw [hbb, Function.update_self] at h
        exact nomatch h
      · rw [Function.update_of_ne hbb] at h
        exact ⟨hbb, h⟩
    refine I.moved (t := t) (fun u hu => ⟨?_, rfl, ?_, rfl, fun s' => Iff.rfl,
      fun b' h => (hrec u b' h).2⟩) ?_ I.nodup
    · exact Function.update_of_ne hu ..
    · exact Function.update_of_ne hu ..
    · show Placed _ t
      simp only [Placed, finish, Function.update_self]
      refine ⟨h2, fun b' h => ?_, fun _ => h3⟩
      obtain ⟨hne, h⟩ := hrec t b' h
      exact hne (h4 b' h)
  · simp only [mbxWaitTail, if_neg hb]
    refine I.walks (t := t) (fun u hu => Function.update_of_ne hu ..) rfl
      (fun u hu => Function.update_of_ne hu ..) rfl ?_
    simp only [Placed, finish, Function.update_self]
    refine ⟨h2, fun b' h => ?_, nofun⟩
    have hb' := h4 b' h
    rw [hb'] at h
    exact hb h

theorem WaitInv.goesOn (I : WaitInv st) (hc : Careful st (.goOn t))
    {r : Waits T S B × Option Int} (h : waitStep st (.goOn t) = some r) :
    WaitInv r.1 := by
  have hplace := I.placed t
  simp only [waitStep] at h
  simp only [Placed] at hplace
  cases hpc : st.pc t with
  | idle =>
    rw [hpc] at h
    exact nomatch h
  | semAsleep s timed =>
    rw [hpc] at h
    exact nomatch h
  | mbxAsleep b =>
    rw [hpc] at h
    exact nomatch h
  | mbxWoken b =>
    rw [hpc] at h hplace
    cases h
    exact I.leavesMbx hplace
  | semWoken s timed ret =>
    rw [hpc] at h hplace
    cases h
    cases timed with
    | true =>
      simp only [mbxSemWaitTimedTail]
      cases hbl : st.fifos.blocked t with
      | true => exact I.givesUp hplace hbl _
      | false => exact I.returns hplace hbl
    | false =>
      simp only [mbxSemWaitTail]
      cases hbl : st.fifos.blocked t with
      | true => exact I.givesUp hplace hbl _
      | false =>
        -- a granted waiter has seen no signal
        have hret : ret = 0 := by
          by_contra hne
          have := hc s ret hpc hne
          rw [hbl] at this
          exact nomatch this
        rw [hret]
        exact I.returns hplace hbl

/-- The first waiter is granted the semaphore. -/
theorem WaitInv.grants (I : WaitInv st) {u : T} {q : List T}
    (hq : st.fifos.queue s = u :: q) (holds : S → T → Bool)
    (taskq : Traced MAXREQS MAXREQS T) :
    WaitInv { st with
      holds := holds
      got := Function.update st.got u true
      fifos := { dequeueBlocked st.fifos s u with taskq := taskq } } := by
  have hin : u ∈ st.fifos.queue s := by
    rw [hq]
    exact List.mem_cons_self
  refine I.moved (t := u) (fun v hv => ⟨rfl, ?_, rfl, ?_, fun s' => ?_, fun b' h => h⟩)
    ?_ fun s' => nodup_dequeued I.nodup s u s'
  · exact Function.update_of_ne hv ..
  · exact Function.update_of_ne hv ..
  · refine (mem_dequeued I.nodup).trans ?_
    exact ⟨fun h => h.1, fun h => ⟨h, fun _ => hv⟩⟩
  · have hgranted : ∀ s', AtSem st u s' → AtSem { st with
        holds := holds
        got := Function.update st.got u true
        fifos := { dequeueBlocked st.fifos s u with taskq := taskq } } u s' := by
      rintro s' ⟨h1, h2, h3, -, -⟩
      have hs := h3 s hin
      refine ⟨h1, h2, fun s'' hm => h3 s'' ((mem_dequeued I.nodup).mp hm).1,
        fun h => ?_, fun _ => ⟨fun hm => ?_, Function.update_self ..⟩⟩
      · have : Function.update st.fifos.blocked u false u = true := h
        rw [Function.update_self] at this
        exact nomatch this
      · exact ((mem_dequeued I.nodup).mp hm).2 hs.symm rfl
    have hplace := I.placed u
    simp only [Placed] at hplace ⊢
    cases hpc : st.pc u with
    | idle =>
      rw [hpc] at hplace
      exact (hplace.1 s hin).elim
    | semAsleep s' timed =>
      rw [hpc] at hplace
      exact hgranted s' hplace
    | semWoken s' timed ret =>
      rw [hpc] at hplace
      exact hgranted s' hplace
    | mbxAsleep b =>
      rw [hpc] at hplace
      exact (hplace.2.1 s hin).elim
    | mbxWoken b =>
      rw [hpc] at hplace
      exact (hplace.2.1 s hin).elim

theorem WaitInv.signals (I : WaitInv st) (t : T) (s : S) (fifop : Option B) :
    WaitInv (signalSem st t s fifop) := by
  cases hq : st.fifos.queue s with
  | nil =>
    obtain ⟨h1, h2, h3, -⟩ := mbxSemSignal_nil hq fifop
    refine I.framed ?_ ?_ ?_ ⟨h1, h2, h3⟩
    · simp only [signalSem, hq, release]
    · simp only [signalSem, hq, release]
    · simp only [signalSem, hq, release]
  | cons u q =>
    simp only [signalSem, hq, mbxSemSignal_cons hq]
    exact I.grants hq _ _

omit decT decS in
theorem WaitInv.mbxSignals (I : WaitInv st) (b : B) :
    WaitInv { st with fifos := mbxSignal st.fifos b } := by
  simp only [mbxSignal]
  cases hw : st.fifos.waitingTask b with
  | none => exact I
  | some t =>
    refine ⟨fun u => (I.placed u).same ⟨rfl, rfl, rfl, rfl, fun _ => Iff.rfl,
      fun b' h => ?_⟩, I.nodup⟩
    have h : Function.update st.fifos.waitingTask b none b' = some u := h
    by_cases hbb : b' = b
    · rw [hbb, Function.update_self] at h
      exact nomatch h
    · rw [Function.update_of_ne hbb] at h
      exact h

theorem WaitInv.waits (I : WaitInv st) {timed : Bool} {priority : Int}
    {r : Waits T S B × Option Int}
    (h : waitStep st (.semWait t s timed priority) = some r) : WaitInv r.1 := by
  simp only [waitStep] at h
  cases hpc : st.pc t with
  | idle =>
    rw [hpc] at h
    simp only [mbxSemWait] at h
    by_cases hf : st.fifos.free s = 0
    · simp only [if_pos hf] at h
      cases h
      exact I.enqueues hpc timed priority
    · simp only [if_neg hf] at h
      cases h
      exact I.passes hpc rfl (fun u hu => (Function.update_of_ne hu ..).trans
          (Function.update_of_ne hu ..))
        (fun u hu => Function.update_of_ne hu ..) rfl rfl rfl
  | _ => rw [hpc] at h; exact nomatch h

theorem WaitInv.mbxWaits (I : WaitInv st) {onAvbs timed : Bool} {r : Waits T S B × Option Int}
    (h : waitStep st (.mbxWait t b onAvbs timed) = some r) : WaitInv r.1 := by
  simp only [waitStep] at h
  cases hpc : st.pc t with
  | idle =>
    rw [hpc] at h
    simp only [mbxWait] at h
    by_cases hf : (if onAvbs then st.fifos.avbs b else st.fifos.frbs b) = 0
    · simp only [if_pos hf] at h
      cases h
      cases timed with
      | true => exact I.records hpc rfl rfl rfl
      | false => exact I.records hpc rfl rfl rfl
    · simp only [if_neg hf] at h
      cases h
      exact I.passes hpc rfl (fun u hu => Function.update_of_ne hu ..)
        (fun u hu => Function.update_of_ne hu ..) rfl rfl rfl
  | _ => rw [hpc] at h; exact nomatch h

theorem WaitInv.step (I : WaitInv st) {a : Action T S B} (hc : Careful st a)
    {st' : Waits T S B} {o : Option Int}
    (h : waitStep st a = some (st', o)) : WaitInv st' := by
  cases a with
  | semWaitIf t s =>
    simp only [waitStep] at h
    split at h
    next =>
      split at h
      next =>
        cases h
        exact I
      next =>
        cases h
        refine I.framed rfl rfl rfl ?_
        simp only [mbxSemWaitIf]
        split
        · exact ⟨rfl, rfl, rfl⟩
        · exact ⟨rfl, rfl, rfl⟩
    next => exact nomatch h
  | semWait t s timed priority => exact I.waits h
  | mbxWait t b onAvbs timed => exact I.mbxWaits h
  | sleep t =>
    simp only [waitStep] at h
    split at h
    next =>
      cases h
      exact I.framed rfl rfl rfl ⟨rfl, rfl, rfl⟩
    next =>
      cases h
      exact I.framed rfl rfl rfl ⟨rfl, rfl, rfl⟩
    next => exact nomatch h
  | wake t signalPending => exact I.wakes hc h
  | goOn t => exact I.goesOn hc h
  | semSignal t s fifop =>
    cases h
    exact I.signals t s fifop
  | signal b =>
    cases h
    exact I.mbxSignals b
  | moved b n =>
    cases h
    exact I.framed rfl rfl rfl ⟨rfl, rfl, rfl⟩
  | sysrqTask =>
    obtain ⟨⟨f, x⟩, hf, heq⟩ := Option.map_eq_some_iff.mp h
    cases heq
    obtain ⟨h1, h2, h3, -⟩ := sysrqTask_frame hf
    exact I.framed rfl rfl rfl ⟨h1, h2, h3⟩
  | sysrqFifo =>
    obtain ⟨f, hf, heq⟩ := Option.map_eq_some_iff.mp h
    cases heq
    obtain ⟨h1, h2, h3, -⟩ := sysrqFifo_frame hf
    exact I.framed rfl rfl rfl ⟨h1, h2, h3⟩

omit decS decB in
/-- A process that returns with an error and is still linked, or has been
    granted the semaphore, leaves something behind. -/
theorem AtSem.left (h : AtSem st t s) {ret : Int} (hret : ret ≠ 0) :
    ¬ NothingLeft (finish st t ret).1 := by
  intro hn
  obtain ⟨-, -, -, h4, h5⟩ := h
  have hgave : (finish st t ret).1.gaveUp t = true := by
    simp only [finish, Function.update_self]
    exact decide_eq_true hret
  obtain ⟨h1, -, h2⟩ := hn t hgave
  cases hbl : st.fifos.blocked t with
  | true => exact h1 s (h4 hbl).1
  | false =>
    have h2 : st.got t = false := h2
    rw [(h5 hbl).2] at h2
    exact nomatch h2

/-- **A step that is not careful leaves something behind.** -/
theorem WaitInv.careless (I : WaitInv st) {a : Action T S B}
    (hc : ¬ Careful st a) {st' : Waits T S B} {o : Option Int}
    (h : waitStep st a = some (st', o)) : ¬ NothingLeft st' := by
  cases a with
  | wake t signalPending =>
    have hplace := I.placed t
    simp only [waitStep] at h
    simp only [Placed] at hplace
    simp only [Careful] at hc
    obtain ⟨hsig, hc⟩ := Classical.not_imp.mp hc
    cases hpc : st.pc t with
    | idle => rw [hpc] at h; exact nomatch h
    | semWoken s timed ret => rw [hpc] at h; exact nomatch h
    | mbxWoken b => rw [hpc] at h; exact nomatch h
    | semAsleep s timed =>
      cases timed with
      | false =>
        refine (hc ⟨fun s' h' => ?_, fun b h' => ?_⟩).elim
        · rw [hpc] at h'
          exact nomatch h'
        · rw [hpc] at h'
          exact nomatch h'
      | true =>
        rw [hpc] at h hplace
        rw [hsig] at h
        cases h
        exact AtSem.left hplace (by decide)
    | mbxAsleep b =>
      have hrec : st.fifos.waitingTask b = some t := by
        by_contra hno
        refine hc ⟨fun s' h' => ?_, fun b' h' => ?_⟩
        · rw [hpc] at h'
          exact nomatch h'
        · rw [hpc] at h'
          cases h'
          exact hno
      rw [hpc, hsig] at h
      cases h
      intro hn
      have hgave : (finish st t (-ERESTARTSYS)).1.gaveUp t = true := by
        simp only [finish, Function.update_self]
        decide
      exact (hn t hgave).2.1 b hrec
  | goOn t =>
    have hplace := I.placed t
    simp only [waitStep] at h
    simp only [Placed] at hplace
    simp only [Careful] at hc
    obtain ⟨s, hc⟩ := not_forall.mp hc
    obtain ⟨ret, hc⟩ := not_forall.mp hc
    obtain ⟨hpc, hc⟩ := Classical.not_imp.mp hc
    obtain ⟨hret, hbl⟩ := Classical.not_imp.mp hc
    rw [hpc] at h hplace
    simp only [mbxSemWaitTail, if_neg hbl, Bool.false_eq_true, if_false] at h
    cases h
    exact AtSem.left hplace hret
  | _ => exact (hc trivial).elim

omit decT decS decB in
theorem waitInv_opened (value : S → Bool) (size : B → Nat) (priority : T → Int) :
    WaitInv (opened value size priority) :=
  ⟨fun _ => ⟨fun _ => List.not_mem_nil, nofun, nofun⟩, fun _ => List.nodup_nil⟩

/-- **FIFO waits that fail leave nothing behind**, as long as all steps are
    careful; the first one that is not does leave something. -/
theorem failed_waits_leave_nothing (value : S → Bool) (size : B → Nat) (priority : T → Int)
    (h : Reach waitStep Careful (opened value size priority) st) :
    NothingLeft st ∧ ∀ a o st', waitStep st a = some (st', o) →
      (NothingLeft st' ↔ Careful st a) := by
  have I : WaitInv st := h.invariant (waitInv_opened value size priority)
    fun st₁ a st₂ o I ha hstep => I.step ha hstep
  refine ⟨I.nothingLeft, fun a o st' hstep => ⟨fun hn => ?_, fun hc => ?_⟩⟩
  · by_contra hc
    exact I.careless hc hstep hn
  · exact (I.step hc hstep).nothingLeft

/-- A semaphore that is held is waited for. -/
theorem failed_waits_leave_nothing_two : ∃ st : Waits Nat Unit Unit, st.fifos.queue () = [1] ∧
      NothingLeft st ∧ ∀ a o st', waitStep st a = some (st', o) →
        (NothingLeft st' ↔ Careful st a) :=
  ⟨_, rfl, failed_waits_leave_nothing (fun _ => true) (fun _ => 16) (fun _ => 0)
    (((Reach.refl _).tail (a := .semWait 0 () false 0) (o := some 0) trivial
      rfl).tail (a := .semWait 1 () true 0) (o := none) trivial rfl)⟩

/-- A signal interrupts `mbx_sem_wait_timed`: the `LX_TASK` stays linked. -/
theorem interrupted_stays_linked : ∃ st : Waits Nat Unit Unit, Reach waitStep (fun _ _ => True)
        (opened (fun _ => true) (fun _ => 16) fun _ => 0) st ∧
      st.gaveUp 1 = true ∧ st.fifos.queue () = [1] ∧ ¬ NothingLeft st := by
  refine ⟨_, (((Reach.refl _).tail (a := .semWait 0 () false 0)
    (o := some 0) trivial rfl).tail (a := .semWait 1 () true 0) (o := none)
    trivial rfl).tail (a := .wake 1 true) (o := some (-512)) trivial rfl,
    rfl, rfl, fun h => ?_⟩
  exact (h 1 rfl).1 () List.mem_cons_self

end Steps

/-! ## Mutual exclusion -/

section Exclusion

variable {T S B : Type} [decT : DecidableEq T] [decS : DecidableEq S] [decB : DecidableEq B]
  {st st' : Waits T S B} {t : T} {s : S}

/-- A semaphore has one holder, and none when it is free. -/
structure Exclusive (st : Waits T S B) : Prop where
  one : ∀ s t t', st.holds s t = true → st.holds s t' = true → t = t'
  free : ∀ s t, st.holds s t = true → st.fifos.free s = 0

omit decT decS decB in
theorem Exclusive.mutualExclusion (E : Exclusive st) : MutualExclusion st := by
  intro s
  refine ⟨E.one s, fun hf t => ?_⟩
  cases ht : st.holds s t with
  | false => rfl
  | true =>
    rw [E.free s t ht] at hf
    exact nomatch hf

omit decT decS decB in
/-- Neither the holders nor the semaphores change. -/
theorem Exclusive.framed (E : Exclusive st) (hh : st'.holds = st.holds)
    (hf : st'.fifos.free = st.fifos.free) : Exclusive st' := by
  constructor
  · rw [hh]
    exact E.one
  · rw [hh, hf]
    exact E.free

omit decB in
/-- A free semaphore is taken. -/
theorem Exclusive.takes (E : Exclusive st) (hf : st.fifos.free s ≠ 0)
    (hh : st'.holds = Function.update st.holds s (Function.update (st.holds s) t true))
    (hfree : st'.fifos.free = Function.update st.fifos.free s 0) :
    Exclusive st' := by
  have hholds : ∀ s' u, st'.holds s' u = true →
      (s' = s ∧ u = t) ∨ (s' ≠ s ∧ st.holds s' u = true) := by
    intro s' u h
    rw [hh] at h
    by_cases hs : s' = s
    · rw [hs, Function.update_self] at h
      by_cases hu : u = t
      · exact .inl ⟨hs, hu⟩
      · rw [Function.update_of_ne hu] at h
        exact (hf (E.free s u h)).elim
    · rw [Function.update_of_ne hs] at h
      exact .inr ⟨hs, h⟩
  constructor
  · intro s' u u' h h'
    rcases hholds s' u h with ⟨hs, hu⟩ | ⟨hs, hu⟩
    · rcases hholds s' u' h' with ⟨-, hu'⟩ | ⟨hs', -⟩
      · rw [hu, hu']
      · exact (hs' hs).elim
    · rcases hholds s' u' h' with ⟨hs', -⟩ | ⟨-, hu'⟩
      · exact (hs hs').elim
      · exact E.one s' u u' hu hu'
  · intro s' u h
    rw [hfree]
    rcases hholds s' u h with ⟨hs, -⟩ | ⟨hs, hu⟩
    · rw [hs, Function.update_self]
    · rw [Function.update_of_ne hs]
      exact E.free s' u hu

omit decB in
/-- After the holder has given the semaphore back nobody holds it. -/
theorem Exclusive.released (E : Exclusive st) (ht : st.holds s t = true)
    (u : T) : (release st s t).holds s u = false := by
  simp only [release, Function.update_self]
  by_cases hu : u = t
  · rw [hu, Function.update_self]
  · rw [Function.update_of_ne hu]
    cases h : st.holds s u with
    | false => rfl
    | true => exact (hu (E.one s u t h ht)).elim

omit decB in
theorem release_other {s' : S} (h : s' ≠ s) : (release st s t).holds s' = st.holds s' := by
  simp only [release, Function.update_of_ne h]

/-- The holder signals. -/
theorem Exclusive.signals (E : Exclusive st) (ht : st.holds s t = true)
    (fifop : Option B) : Exclusive (signalSem st t s fifop) := by
  cases hq : st.fifos.queue s with
  | nil =>
    have hh : (signalSem st t s fifop).holds = (release st s t).holds := by
      simp only [signalSem, hq]
    have hf : (signalSem st t s fifop).fifos.free =
        Function.update st.fifos.free s 1 := (mbxSemSignal_nil hq fifop).2.2.2
    have hholds : ∀ s' u, (signalSem st t s fifop).holds s' u = true →
        s' ≠ s ∧ st.holds s' u = true := by
      intro s' u h
      rw [hh] at h
      by_cases hs : s' = s
      · rw [hs, E.released ht u] at h
        exact nomatch h
      · rw [release_other hs] at h
        exact ⟨hs, h⟩
    constructor
    · intro s' u u' h h'
      exact E.one s' u u' (hholds s' u h).2 (hholds s' u' h').2
    · intro s' u h
      obtain ⟨hs, hu⟩ := hholds s' u h
      rw [hf, Function.update_of_ne hs]
      exact E.free s' u hu
  | cons u q =>
    have hf : (signalSem st t s fifop).fifos.free = st.fifos.free := by
      simp only [signalSem, mbxSemSignal_cons hq]
      rfl
    have hholds : ∀ s' v, (signalSem st t s fifop).holds s' v = true →
        (s' = s ∧ v = u) ∨ (s' ≠ s ∧ st.holds s' v = true) := by
      intro s' v h
      simp only [signalSem, hq, grant, take] at h
      by_cases hs : s' = s
      · rw [hs, Function.update_self] at h
        by_cases hv : v = u
        · exact .inl ⟨hs, hv⟩
        · rw [Function.update_of_ne hv, E.released ht v] at h
          exact nomatch h
      · rw [Function.update_of_ne hs, release_other hs] at h
        exact .inr ⟨hs, h⟩
    constructor
    · intro s' v v' h h'
      rcases hholds s' v h with ⟨hs, hv⟩ | ⟨hs, hv⟩
      · rcases hholds s' v' h' with ⟨-, hv'⟩ | ⟨hs', -⟩
        · rw [hv, hv']
        · exact (hs' hs).elim
      · rcases hholds s' v' h' with ⟨hs', -⟩ | ⟨-, hv'⟩
        · exact (hs hs').elim
        · exact E.one s' v v' hv hv'
    · intro s' v h
      rw [hf]
      rcases hholds s' v h with ⟨hs, -⟩ | ⟨-, hv⟩
      · rw [hs]
        exact E.free s t ht
      · exact E.free s' v hv

omit decB in
/-- Giving up as the only waiter makes the semaphore free. -/
theorem giveUp_free (st : Fifos T S B) (s : S) (t : T) : (giveUp st s t).free =
      if (st.queue s).erase t = [] then Function.update st.free s 1
      else st.free := by
  have hq : (dequeueBlocked st s t).queue s = (st.queue s).erase t :=
    Function.update_self ..
  simp only [giveUp, hq]
  split
  · rfl
  · rfl

/-- A waiter goes on. -/
theorem Exclusive.goesOn_iff (E : Exclusive st)
    {r : Waits T S B × Option Int} (h : waitStep st (.goOn t) = some r) :
    (Spares st (.goOn t) → Exclusive r.1) ∧ (MutualExclusion r.1 → Spares st (.goOn t)) := by
  simp only [waitStep] at h
  cases hpc : st.pc t with
  | idle => rw [hpc] at h; exact nomatch h
  | semAsleep s timed => rw [hpc] at h; exact nomatch h
  | mbxAsleep b => rw [hpc] at h; exact nomatch h
  | mbxWoken b =>
    rw [hpc] at h
    cases h
    refine ⟨fun _ => E.framed rfl ?_, fun _ s timed ret h' => ?_⟩
    · show (mbxWaitTail st.fifos b t).1.free = _
      simp only [mbxWaitTail]
      split
      · rfl
      · rfl
    · rw [hpc] at h'
      exact nomatch h'
  | semWoken s timed ret =>
    have htail : ∃ v, r.1 = (finish { st with
        fifos := if st.fifos.blocked t then giveUp st.fifos s t
          else st.fifos } t v).1 := by
      rw [hpc] at h
      cases h
      cases timed with
      | true =>
        simp only [mbxSemWaitTimedTail]
        cases st.fifos.blocked t with
        | true => exact ⟨_, rfl⟩
        | false => exact ⟨_, rfl⟩
      | false =>
        simp only [mbxSemWaitTail]
        cases st.fifos.blocked t with
        | true => exact ⟨_, rfl⟩
        | false => exact ⟨_, rfl⟩
    obtain ⟨v, hr⟩ := htail
    have hspares : Spares st (.goOn t) ↔ ¬ LastWaiter st t s := by
      refine ⟨fun hs => hs s timed ret hpc, fun hs s' timed' ret' h' => ?_⟩
      rw [hpc] at h'
      cases h'
      exact hs
    rw [hspares, hr]
    cases hbl : st.fifos.blocked t with
    | false =>
      refine ⟨fun _ => E.framed rfl rfl, fun _ hlast => ?_⟩
      rw [hlast.1] at hbl
      exact nomatch hbl
    | true =>
      by_cases hlast : (st.fifos.queue s).erase t = []
      · have hf : (giveUp st.fifos s t).free = Function.update st.fifos.free s 1 := by
          rw [giveUp_free, if_pos hlast]
        constructor
        · intro hno
          -- nobody holds what is made free
          refine ⟨E.one, fun s' u hu => ?_⟩
          have hs : s' ≠ s := by
            rintro rfl
            exact hno ⟨hbl, hlast, u, hu⟩
          show (giveUp st.fifos s t).free s' = 0
          rw [hf, Function.update_of_ne hs]
          exact E.free s' u hu
        · rintro hmx ⟨-, -, u, hu⟩
          have hone : (giveUp st.fifos s t).free s = 1 := by
            rw [hf, Function.update_self]
          have := (hmx s).2 hone u
          have hu' : st.holds s u = false := this
          rw [hu] at hu'
          exact nomatch hu'
      · refine ⟨fun _ => E.framed rfl ?_, fun _ h' => hlast h'.2.1⟩
        show (giveUp st.fifos s t).free = _
        rw [giveUp_free, if_neg hlast]

theorem Exclusive.waits (E : Exclusive st) {timed : Bool} {priority : Int}
    {r : Waits T S B × Option Int}
    (h : waitStep st (.semWait t s timed priority) = some r) : Exclusive r.1 := by
  simp only [waitStep] at h
  cases hpc : st.pc t with
  | idle =>
    rw [hpc] at h
    simp only [mbxSemWait] at h
    by_cases hf : st.fifos.free s = 0
    · simp only [if_pos hf] at h
      cases h
      exact E.framed rfl rfl
    · simp only [if_neg hf] at h
      cases h
      exact E.takes hf rfl rfl
  | _ => rw [hpc] at h; exact nomatch h

theorem Exclusive.waitsIf (E : Exclusive st) {r : Waits T S B × Option Int}
    (h : waitStep st (.semWaitIf t s) = some r) : Exclusive r.1 := by
  simp only [waitStep] at h
  cases hpc : st.pc t with
  | idle =>
    rw [hpc] at h
    simp only [mbxSemWaitIf] at h
    by_cases hf : st.fifos.free s = 0
    · simp only [if_neg (not_not.mpr hf), if_true] at h
      cases h
      exact E
    · simp only [if_pos hf] at h
      cases h
      exact E.takes hf rfl rfl
  | _ => rw [hpc] at h; exact nomatch h

/-- Waking up or waiting on a mailbox has nothing to do with semaphores. -/
theorem wake_frame {signalPending : Bool} {r : Waits T S B × Option Int}
    (h : waitStep st (.wake t signalPending) = some r) :
    r.1.holds = st.holds ∧ r.1.fifos.free = st.fifos.free := by
  simp only [waitStep] at h
  split at h
  next =>
    split at h
    next => cases h; exact ⟨rfl, rfl⟩
    next => cases h; exact ⟨rfl, rfl⟩
  next => cases h; exact ⟨rfl, rfl⟩
  next =>
    split at h
    next => cases h; exact ⟨rfl, rfl⟩
    next => cases h; exact ⟨rfl, rfl⟩
  next => exact nomatch h

theorem mbxWait_frame {b : B} {onAvbs timed : Bool} {r : Waits T S B × Option Int}
    (h : waitStep st (.mbxWait t b onAvbs timed) = some r) :
    r.1.holds = st.holds ∧ r.1.fifos.free = st.fifos.free := by
  simp only [waitStep] at h
  cases hpc : st.pc t with
  | idle =>
    rw [hpc] at h
    simp only [mbxWait] at h
    by_cases hf : (if onAvbs then st.fifos.avbs b else st.fifos.frbs b) = 0
    · simp only [if_pos hf] at h
      cases h
      cases timed with
      | true => exact ⟨rfl, rfl⟩
      | false => exact ⟨rfl, rfl⟩
    · simp only [if_neg hf] at h
      cases h
      exact ⟨rfl, rfl⟩
  | _ => rw [hpc] at h; exact nomatch h

/-- **A step of holders keeps the exclusion if and only if it spares those
    who hold.** -/
theorem Exclusive.step (E : Exclusive st) {a : Action T S B}
    (ha : ByHolder st a) {o : Option Int} (h : waitStep st a = some (st', o)) :
    (Spares st a → Exclusive st') ∧ (MutualExclusion st' → Spares st a) := by
  cases a with
  | goOn t => exact E.goesOn_iff h
  | semWaitIf t s => exact ⟨fun _ => E.waitsIf h, fun _ => trivial⟩
  | semWait t s timed priority => exact ⟨fun _ => E.waits h, fun _ => trivial⟩
  | mbxWait t b onAvbs timed =>
    obtain ⟨h1, h2⟩ := mbxWait_frame h
    exact ⟨fun _ => E.framed h1 h2, fun _ => trivial⟩
  | sleep t =>
    refine ⟨fun _ => ?_, fun _ => trivial⟩
    simp only [waitStep] at h
    split at h
    next =>
      cases h
      exact E.framed rfl rfl
    next =>
      cases h
      exact E.framed rfl rfl
    next => exact nomatch h
  | wake t signalPending =>
    obtain ⟨h1, h2⟩ := wake_frame h
    exact ⟨fun _ => E.framed h1 h2, fun _ => trivial⟩
  | semSignal t s fifop =>
    cases h
    exact ⟨fun _ => E.signals ha fifop, fun _ => trivial⟩
  | signal b =>
    cases h
    refine ⟨fun _ => E.framed rfl ?_, fun _ => trivial⟩
    show (mbxSignal st.fifos b).free = _
    simp only [mbxSignal]
    split
    · rfl
    · rfl
  | moved b n =>
    cases h
    exact ⟨fun _ => E.framed rfl rfl, fun _ => trivial⟩
  | sysrqTask =>
    obtain ⟨⟨f, x⟩, hf, heq⟩ := Option.map_eq_some_iff.mp h
    cases heq
    exact ⟨fun _ => E.framed rfl (sysrqTask_frame hf).2.2.2, fun _ => trivial⟩
  | sysrqFifo =>
    obtain ⟨f, hf, heq⟩ := Option.map_eq_some_iff.mp h
    cases heq
    exact ⟨fun _ => E.framed rfl (sysrqFifo_frame hf).2.2.2, fun _ => trivial⟩

/-- **FIFO semaphores exclude each other's holders**, as long as no waiter of
    a semaphore that is held gives up as the only one; the first one that does
    breaks the exclusion.  Of a run in which an `LX_TASK` stays linked after
    its function has returned nothing is said. -/
theorem fifo_semaphores_exclude (value : S → Bool) (size : B → Nat) (priority : T → Int)
    (h : Reach waitStep (fun st a => ByHolder st a ∧ Unlinked st a ∧ Spares st a)
      (opened value size priority) st) :
    MutualExclusion st ∧ ∀ a o st', ByHolder st a → Unlinked st a →
      waitStep st a = some (st', o) → (MutualExclusion st' ↔ Spares st a) := by
  have E : Exclusive st := h.invariant ⟨nofun, nofun⟩
    fun st₁ a st₂ o E ha hstep => (E.step ha.1 hstep).1 ha.2.2
  refine ⟨E.mutualExclusion, fun a o st' ha _ hstep => ?_⟩
  obtain ⟨h1, h2⟩ := E.step ha hstep
  exact ⟨h2, fun hs => (h1 hs).mutualExclusion⟩

/-- Processes 1 and 2 wait for process 0, whose signal hands the semaphore over
    to process 1. -/
theorem fifo_semaphores_exclude_handed :
    ∃ st : Waits Nat Unit Unit, st.holds () 0 = false ∧ st.holds () 1 = true ∧
      st.fifos.queue () = [2] ∧
      MutualExclusion st ∧ ∀ a o st', ByHolder st a → Unlinked st a →
        waitStep st a = some (st', o) → (MutualExclusion st' ↔ Spares st a) := by
  have h1 : Reach waitStep (fun st a => ByHolder st a ∧ Unlinked st a ∧ Spares st a)
      (opened (B := Unit) (fun _ : Unit => true) (fun _ => 16) fun _ : Nat => 0) _ :=
    (Reach.refl _).tail (a := .semWait 0 () false 0) (o := some 0)
      ⟨trivial, trivial, trivial⟩ rfl
  have h2 := (h1.tail
    (a := .semWait 1 () false 0) (o := none) ⟨trivial, trivial, trivial⟩ rfl).tail
    (a := .semWait 2 () false 0) (o := none) ⟨trivial, trivial, trivial⟩ rfl
  have h3 := ((h2.tail (a := .semSignal 0 () none) (o := none)
    ⟨rfl, trivial, trivial⟩ rfl).tail (a := .sysrqTask) (o := none)
    ⟨trivial, trivial, trivial⟩ rfl).tail (a := .wake 1 false) (o := none)
    ⟨trivial, nofun, trivial⟩ rfl
  have h4 := h3.tail (a := .goOn 1) (o := some 0)
    ⟨trivial, trivial, fun _ _ _ _ hl => absurd hl.1 (by decide)⟩ rfl
  exact ⟨_, rfl, rfl, rfl,
    fifo_semaphores_exclude (fun _ => true) (fun _ => 16) (fun _ => 0) h4⟩

/-- Process 1 waits for process 0 and is interrupted; process 2 comes in. -/
theorem two_hold_semaphore : ∃ st : Waits Nat Unit Unit,
      Reach waitStep (fun st a => ByHolder st a ∧ Unlinked st a)
        (opened (fun _ => true) (fun _ => 16) fun _ => 0) st ∧
      ¬ MutualExclusion st := by
  refine ⟨_, (((((Reach.refl _).tail (a := .semWait 0 () false 0)
    (o := some 0) ⟨trivial, trivial⟩ rfl).tail (a := .semWait 1 () false 0)
    (o := none) ⟨trivial, trivial⟩ rfl).tail (a := .wake 1 true) (o := none)
    ⟨trivial, nofun⟩ rfl).tail (a := .goOn 1) (o := some (-512))
    ⟨trivial, trivial⟩ rfl).tail (a := .semWaitIf 2 ()) (o := some 1)
    ⟨trivial, trivial⟩ rfl, fun h => ?_⟩
  exact absurd ((h ()).1 0 2 rfl rfl) (by decide)

end Exclusion

end RtaiFifoWaits
