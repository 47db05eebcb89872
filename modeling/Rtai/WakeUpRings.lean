import Rtai.Fifo
import Rtai.Runs

/-! # The rings of deferred work

    `wake_up_hts` and `wake_up_srq`, one of each on every CPU of `C`, are
    filled by real time activity and emptied by `wake_up_srq_handler`; `taskq`
    and `pol_asyn_q` are emptied by `rtf_sysrq_handler`.  Their counters run
    freely, as an `unsigned long` or modulo the number of cells. -/

namespace RtaiWakeUpRings

open RtaiRuns RtaiCounterRing RtaiFifo

/-- The places of a ring. -/
def MAX_WAKEUP_SRQ : Nat := 64

/-- `struct klist_t`, its counters being of type `unsigned long`. -/
abbrev Klist (T : Type) := Traced MAX_WAKEUP_SRQ (2 ^ 64) T

/-- The rings of the CPUs, and the fifos. -/
structure Deferred (T S B C : Type) where
  wakeUpHts : C → Klist T
  wakeUpSrq : C → Klist T
  fifos : Fifos T S B

/-- The sections. -/
inductive Action (T S B C : Type) where
  | pendWakeUpHts (lnxtsk : T) (cpu : C)
  | pendWakeUpSrq (lnxtsk : T) (cpu : C)
  /-- One round of `WAKE_UP_TASKs(wake_up_hts)`. -/
  | wakeUpHts (cpu : C)
  | wakeUpSrq (cpu : C)
  | semSignal (s : S) (fifop : Option B)
  | signal (b : B)
  | semDelete (s : S)
  /-- One round of a loop of `rtf_sysrq_handler`. -/
  | sysrqTask
  | sysrqFifo
  /-- Processes come to wait and go, and bytes are moved. -/
  | world (f : Fifos T S B)

section Model

variable {T S B C : Type} [DecidableEq T] [DecidableEq S] [DecidableEq B] [DecidableEq C]

/-- `pend_wake_up_hts`. -/
def pendWakeUpHts (st : Deferred T S B C) (lnxtsk : T) (cpu : C) :
    Deferred T S B C :=
  { st with
    wakeUpHts := Function.update st.wakeUpHts cpu ((st.wakeUpHts cpu).post lnxtsk) }

/-- `pend_wake_up_srq`. -/
def pendWakeUpSrq (st : Deferred T S B C) (lnxtsk : T) (cpu : C) :
    Deferred T S B C :=
  { st with
    wakeUpSrq := Function.update st.wakeUpSrq cpu ((st.wakeUpSrq cpu).post lnxtsk) }

/-- One step, with the process that is woken. -/
def deferredStep (st : Deferred T S B C) :
    Action T S B C → Option (Deferred T S B C × Option T)
  | .pendWakeUpHts lnxtsk cpu => some (pendWakeUpHts st lnxtsk cpu, none)
  | .pendWakeUpSrq lnxtsk cpu => some (pendWakeUpSrq st lnxtsk cpu, none)
  | .wakeUpHts cpu =>
    (st.wakeUpHts cpu).takeOne.map fun r =>
      ({ st with wakeUpHts := Function.update st.wakeUpHts cpu r.2 }, r.1)
  | .wakeUpSrq cpu =>
    (st.wakeUpSrq cpu).takeOne.map fun r =>
      ({ st with wakeUpSrq := Function.update st.wakeUpSrq cpu r.2 }, r.1)
  | .semSignal s fifop =>
    some ({ st with fifos := mbxSemSignal st.fifos s fifop }, none)
  | .signal b => some ({ st with fifos := mbxSignal st.fifos b }, none)
  | .semDelete s => some ({ st with fifos := mbxSemDelete st.fifos s }, none)
  | .sysrqTask =>
    (sysrqTask st.fifos).map fun r => ({ st with fifos := r.1 }, r.2)
  | .sysrqFifo =>
    (sysrqFifo st.fifos).map fun f => ({ st with fifos := f }, none)
  | .world f =>
    some ({ st with
      fifos := { f with
        taskq := st.fifos.taskq
        polAsynQ := st.fifos.polAsynQ } }, none)

/-- Nothing has been posted yet. -/
def idle (fifos : Fifos T S B) : Deferred T S B C where
  wakeUpHts := fun _ => Traced.empty (fun _ => none) 0 (by decide)
  wakeUpSrq := fun _ => Traced.empty (fun _ => none) 0 (by decide)
  fifos :=
    { fifos with
      taskq := Traced.empty (fun _ => none) 0 MAXREQS_pos
      polAsynQ := Traced.empty (fun _ => none) 0 MAXREQS_pos }

/-- On every ring, what has been processed followed by what is in the ring is
    what has been posted. -/
structure InOrder (st : Deferred T S B C) : Prop where
  hts : ∀ cpu, (st.wakeUpHts cpu).Exact
  srq : ∀ cpu, (st.wakeUpSrq cpu).Exact
  taskq : st.fifos.taskq.Exact
  polAsynQ : st.fifos.polAsynQ.Exact

/-- A post finds room: a free cell, which in `taskq` and `pol_asyn_q` may not
    be the last one, or, in a list of wake ups, the entry that it overwrites
    is the same. -/
def Fits (st : Deferred T S B C) : Action T S B C → Prop
  | .pendWakeUpHts lnxtsk cpu => (st.wakeUpHts cpu).ring.Fits lnxtsk
  | .pendWakeUpSrq lnxtsk cpu => (st.wakeUpSrq cpu).ring.Fits lnxtsk
  | .semSignal s fifop =>
    (st.fifos.queue s ≠ [] → st.fifos.taskq.ring.held + 1 < MAXREQS) ∧
      (st.fifos.queue s = [] → pendsPoll st.fifos fifop = true →
        st.fifos.polAsynQ.ring.held + 1 < MAXREQS)
  | .signal b =>
    st.fifos.waitingTask b ≠ none → st.fifos.taskq.ring.held + 1 < MAXREQS
  | .semDelete s =>
    st.fifos.taskq.ring.held + (st.fifos.queue s).length < MAXREQS
  | _ => True

end Model

/-! ## The rings keep their order -/

section Rings

variable {T S B C : Type} {st st' : Deferred T S B C}

theorem inOrder_idle (fifos : Fifos T S B) : InOrder (C := C) (idle fifos) :=
  ⟨fun _ => Traced.exact_empty .., fun _ => Traced.exact_empty ..,
    Traced.exact_empty .., Traced.exact_empty ..⟩

variable [DecidableEq C] in
/-- A post into a ring of which there is one on every CPU. -/
theorem forall_exact_update {f : C → Klist T} (h : ∀ c, (f c).Exact) (cpu : C) (k : Klist T) :
    (∀ c, (Function.update f cpu k c).Exact) ↔ k.Exact := by
  constructor
  · intro hall
    have := hall cpu
    rw [Function.update_self] at this
    exact this
  · intro hk c
    by_cases hc : c = cpu
    · rw [hc, Function.update_self]
      exact hk
    · rw [Function.update_of_ne hc]
      exact h c

/-- A post into a ring with counters modulo the number of cells. -/
theorem post_exact_iff {α : Type} {q : Traced MAXREQS MAXREQS α} (h : q.Exact) (a : α) :
    (q.post a).Exact ↔ q.ring.held + 1 < MAXREQS :=
  h.postAll_iff (by decide) [a]

/-- The two rings of the FIFOs are all that a step on the FIFOs changes. -/
theorem InOrder.fifos_iff (I : InOrder st) (f : Fifos T S B) :
    InOrder { st with fifos := f } ↔ f.taskq.Exact ∧ f.polAsynQ.Exact :=
  ⟨fun h => ⟨h.taskq, h.polAsynQ⟩, fun h => ⟨I.hts, I.srq, h.1, h.2⟩⟩

variable [DecidableEq T] [DecidableEq S] [DecidableEq B] in
theorem InOrder.semSignal_iff (I : InOrder st) (s : S) (fifop : Option B) :
    InOrder { st with fifos := mbxSemSignal st.fifos s fifop } ↔
      Fits st (.semSignal s fifop) := by
  rw [I.fifos_iff]
  simp only [mbxSemSignal, Fits]
  cases hq : st.fifos.queue s with
  | cons t q =>
    show (st.fifos.taskq.post t).Exact ∧ st.fifos.polAsynQ.Exact ↔ _
    rw [post_exact_iff I.taskq]
    exact ⟨fun h => ⟨fun _ => h.1, nofun⟩, fun h => ⟨h.1 (List.cons_ne_nil _ _), I.polAsynQ⟩⟩
  | nil =>
    have hnone : pendsPoll st.fifos fifop = false →
        (st.fifos.taskq.Exact ∧ st.fifos.polAsynQ.Exact ↔
          ([] ≠ ([] : List T) → st.fifos.taskq.ring.held + 1 < MAXREQS) ∧
            (([] : List T) = [] → pendsPoll st.fifos fifop = true →
              st.fifos.polAsynQ.ring.held + 1 < MAXREQS)) := by
      intro hp
      refine ⟨fun _ => ⟨fun h => (h rfl).elim, fun _ h => ?_⟩, fun _ => ⟨I.taskq, I.polAsynQ⟩⟩
      rw [hp] at h
      exact nomatch h
    cases fifop with
    | none => exact hnone rfl
    | some b =>
      have hsame : pendsPoll
          { st.fifos with free := Function.update st.fifos.free s 1 }
          (some b) = pendsPoll st.fifos (some b) := rfl
      dsimp only
      rw [hsame]
      cases hp : pendsPoll st.fifos (some b) with
      | false =>
        rw [if_neg Bool.false_ne_true]
        rw [hp] at hnone
        exact hnone rfl
      | true =>
        rw [if_pos rfl]
        show st.fifos.taskq.Exact ∧ (st.fifos.polAsynQ.post b).Exact ↔ _
        rw [post_exact_iff I.polAsynQ]
        exact ⟨fun h => ⟨fun h' => (h' rfl).elim, fun _ _ => h.2⟩,
          fun h => ⟨I.taskq, h.2 rfl rfl⟩⟩

variable [DecidableEq B] in
theorem InOrder.signal_iff (I : InOrder st) (b : B) :
    InOrder { st with fifos := mbxSignal st.fifos b } ↔ Fits st (.signal b) := by
  rw [I.fifos_iff]
  simp only [mbxSignal, Fits]
  cases hw : st.fifos.waitingTask b with
  | none => exact ⟨fun _ h => (h rfl).elim, fun _ => ⟨I.taskq, I.polAsynQ⟩⟩
  | some t =>
    show (st.fifos.taskq.post t).Exact ∧ st.fifos.polAsynQ.Exact ↔ _
    rw [post_exact_iff I.taskq]
    exact ⟨fun h _ => h.1, fun h => ⟨h nofun, I.polAsynQ⟩⟩

variable [DecidableEq T] in
theorem InOrder.sysrqTask (I : InOrder st) {f : Fifos T S B} {o : Option T}
    (h : sysrqTask st.fifos = some (f, o)) :
    InOrder { st with fifos := f } := by
  rw [I.fifos_iff]
  simp only [RtaiFifo.sysrqTask] at h
  cases hq : st.fifos.taskq.takeOne with
  | none =>
    rw [hq] at h
    exact nomatch h
  | some r =>
    obtain ⟨x, q⟩ := r
    have hex : q.Exact := I.taskq.takeOne (Nat.dvd_refl _) hq
    rw [hq] at h
    cases x with
    | none =>
      cases h
      exact ⟨hex, I.polAsynQ⟩
    | some t =>
      simp only at h
      split at h
      next =>
        cases h
        exact ⟨hex, I.polAsynQ⟩
      next =>
        cases h
        exact ⟨hex, I.polAsynQ⟩

variable [DecidableEq B] in
theorem InOrder.sysrqFifo (I : InOrder st) {f : Fifos T S B}
    (h : sysrqFifo st.fifos = some f) : InOrder { st with fifos := f } := by
  rw [I.fifos_iff]
  simp only [RtaiFifo.sysrqFifo] at h
  cases hq : st.fifos.polAsynQ.takeOne with
  | none =>
    rw [hq] at h
    exact nomatch h
  | some r =>
    obtain ⟨x, q⟩ := r
    have hex : q.Exact := I.polAsynQ.takeOne (Nat.dvd_refl _) hq
    rw [hq] at h
    cases x with
    | none =>
      cases h
      exact ⟨I.taskq, hex⟩
    | some b =>
      cases h
      exact ⟨I.taskq, hex⟩

variable [DecidableEq T] [DecidableEq S] [DecidableEq B] [DecidableEq C] in
/-- **A step keeps the order if and only if its posts fit.** -/
theorem InOrder.step_iff (I : InOrder st) {a : Action T S B C} {o : Option T}
    (h : deferredStep st a = some (st', o)) : InOrder st' ↔ Fits st a := by
  have hsize : MAX_WAKEUP_SRQ ∣ 2 ^ 64 := by decide
  cases a with
  | pendWakeUpHts lnxtsk cpu =>
    cases h
    have hiff := forall_exact_update I.hts cpu ((st.wakeUpHts cpu).post lnxtsk)
    rw [(I.hts cpu).post_iff hsize (by decide)] at hiff
    exact ⟨fun h => hiff.mp h.hts, fun h => ⟨hiff.mpr h, I.srq, I.taskq, I.polAsynQ⟩⟩
  | pendWakeUpSrq lnxtsk cpu =>
    cases h
    have hiff := forall_exact_update I.srq cpu ((st.wakeUpSrq cpu).post lnxtsk)
    rw [(I.srq cpu).post_iff hsize (by decide)] at hiff
    exact ⟨fun h => hiff.mp h.srq, fun h => ⟨I.hts, hiff.mpr h, I.taskq, I.polAsynQ⟩⟩
  | wakeUpHts cpu =>
    obtain ⟨⟨x, k⟩, hk, heq⟩ := Option.map_eq_some_iff.mp h
    cases heq
    have hex : k.Exact := (I.hts cpu).takeOne hsize hk
    exact ⟨fun _ => trivial, fun _ =>
      ⟨(forall_exact_update I.hts cpu k).mpr hex, I.srq, I.taskq, I.polAsynQ⟩⟩
  | wakeUpSrq cpu =>
    obtain ⟨⟨x, k⟩, hk, heq⟩ := Option.map_eq_some_iff.mp h
    cases heq
    have hex : k.Exact := (I.srq cpu).takeOne hsize hk
    exact ⟨fun _ => trivial, fun _ =>
      ⟨I.hts, (forall_exact_update I.srq cpu k).mpr hex, I.taskq, I.polAsynQ⟩⟩
  | semSignal s fifop =>
    cases h
    exact I.semSignal_iff s fifop
  | signal b =>
    cases h
    exact I.signal_iff b
  | semDelete s =>
    cases h
    rw [I.fifos_iff]
    show (st.fifos.taskq.postAll (st.fifos.queue s)).Exact ∧ st.fifos.polAsynQ.Exact ↔ _
    rw [I.taskq.postAll_iff (by decide)]
    exact ⟨fun h => h.1, fun h => ⟨h, I.polAsynQ⟩⟩
  | sysrqTask =>
    obtain ⟨⟨f, x⟩, hf, heq⟩ := Option.map_eq_some_iff.mp h
    cases heq
    exact ⟨fun _ => trivial, fun _ => I.sysrqTask hf⟩
  | sysrqFifo =>
    obtain ⟨f, hf, heq⟩ := Option.map_eq_some_iff.mp h
    cases heq
    exact ⟨fun _ => trivial, fun _ => I.sysrqFifo hf⟩
  | world f =>
    cases h
    exact ⟨fun _ => trivial, fun _ => ⟨I.hts, I.srq, I.taskq, I.polAsynQ⟩⟩

variable [DecidableEq T] [DecidableEq S] [DecidableEq B] [DecidableEq C] in
/-- **Deferred work is done once and in order**, as long as every post fits;
    the first one that does not breaks the order. -/
theorem deferred_in_order {fifos : Fifos T S B} (h : Reach deferredStep Fits (idle fifos) st) :
    InOrder st ∧ ∀ a o st', deferredStep st a = some (st', o) → (InOrder st' ↔ Fits st a) := by
  have I : InOrder st := h.invariant (inOrder_idle fifos)
    fun st₁ a st₂ o I ha hstep => (I.step_iff hstep).mpr ha
  exact ⟨I, fun a o st' hstep => I.step_iff hstep⟩

end Rings

/-! ## Runs on a system with one of each kind -/

/-- FIFOs on which nobody waits. -/
def quietFifos : Fifos Nat Unit Unit where
  free := fun _ => 1
  qtype := fun _ => 0
  queue := fun _ => []
  blocked := fun _ => false
  priority := fun _ => 0
  interruptible := fun _ => false
  waitingTask := fun _ => none
  avbs := fun _ => 0
  frbs := fun _ => 16
  polAsynPended := fun _ => false
  polled := fun _ => false
  taskq := Traced.empty (fun _ => none) 0 MAXREQS_pos
  polAsynQ := Traced.empty (fun _ => none) 0 MAXREQS_pos

/-- The same with 64 processes that wait on the semaphore. -/
def crowdedFifos : Fifos Nat Unit Unit :=
  { quietFifos with
    free := fun _ => 0
    queue := fun _ => List.range 64
    blocked := fun _ => true }

/-- The same with the processes 5 and 6 that wait on the semaphore. -/
def waitedFifos : Fifos Nat Unit Unit :=
  { quietFifos with
    free := fun _ => 0
    queue := fun _ => [5, 6]
    blocked := fun _ => true }

instance (st : Deferred Nat Unit Unit Unit) (a : Action Nat Unit Unit Unit) :
    Decidable (Fits st a) := by
  cases a <;> simp only [Fits, CounterRing.Fits] <;> infer_instance

/-- Wake ups are posted and performed, the semaphore is deleted, and more are
    posted in between. -/
def drainedRun : List (Action Nat Unit Unit Unit) :=
  [.pendWakeUpSrq 7 (), .pendWakeUpSrq 8 (), .wakeUpSrq (), .world waitedFifos,
    .semDelete (), .sysrqTask, .pendWakeUpSrq 9 (), .wakeUpSrq ()]

theorem deferred_in_order_drained : ∃ st : Deferred Nat Unit Unit Unit,
      (st.wakeUpSrq ()).posted = [7, 8, 9] ∧
      (st.wakeUpSrq ()).taken = [some 7, some 8] ∧
      st.fifos.taskq.posted = [5, 6] ∧ st.fifos.taskq.taken = [some 5] ∧
      InOrder st ∧ ∀ a o st', deferredStep st a = some (st', o) →
        (InOrder st' ↔ Fits st a) := by
  have hrun : (play deferredStep Fits (idle quietFifos) drainedRun).map
      (fun st => ((st.wakeUpSrq ()).posted, (st.wakeUpSrq ()).taken,
        st.fifos.taskq.posted, st.fifos.taskq.taken)) =
      some ([7, 8, 9], [some 7, some 8], [5, 6], [some 5]) := by
    decide +kernel
  obtain ⟨st, hplay, heq⟩ := Option.map_eq_some_iff.mp hrun
  simp only [Prod.mk.injEq] at heq
  obtain ⟨h1, h2, h3, h4⟩ := heq
  exact ⟨st, h1, h2, h3, h4, deferred_in_order (reach_of_play hplay)⟩

/-- A semaphore with 64 waiters is deleted: `taskq` looks empty, none of them
    is woken. -/
theorem crowd_is_lost : ∃ st : Deferred Nat Unit Unit Unit,
      Reach deferredStep (fun _ _ => True) (idle quietFifos) st ∧
      st.fifos.taskq.posted = List.range 64 ∧ st.fifos.taskq.taken = [] ∧
      st.fifos.taskq.ring.contents = [] ∧ ¬ InOrder st := by
  refine ⟨_, ((Reach.refl _).tail (a := .world crowdedFifos) (o := none)
    trivial rfl).tail (a := .semDelete ()) (o := none) trivial rfl,
    by decide, by decide, by decide, fun I => ?_⟩
  have hlen := I.taskq.length
  revert hlen
  decide

end RtaiWakeUpRings
