import Rtai.Migration
import Rtai.RingSets

/-! # sched.c, api.c, msg.c: deleting tasks and freeing them

    `rt_task_delete` deletes a task at once, puts its deletion off while it owns
    resources, or refuses it; `rt_named_task_delete` and `rt_proxy_detach` free the
    task behind it.  The lists are those of `RtaiCpus`.  The tasks that a deletion
    releases from the queues, of which `RtaiSched` tells, are given with it. -/

namespace RtaiTaskStorage

open RtaiRings RtaiRuns RtaiCpus
open RtaiKernel (Flag TaskState RT_SCHED_LINUX_PRIORITY RTAI_TIME_LIMIT RT_RESEM_SUSPDEL)
open RtaiMigration (taskLinks_unlink tasks_append tasks_create magic_gone magic_new
  wellFormed_unlink wellFormed_same wellFormed_congr union_ne_ready)

/-- The error. -/
def EINVAL : Int := 22

/-- The tasks, the resources that each owns, and the slot of the registry that each
    has, 0 without a name.  `mallocs` and `frees` are ghosts: how often the storage
    of a task has been allocated and freed. -/
structure Storage (T S : Type) where
  cpus : Cpus T
  resq : T → List S
  suspdepth : T → Int
  slot : T → Nat
  mallocs : T → Nat
  frees : T → Nat

section Model

variable {T S : Type} [decT : DecidableEq T] [finT : Fintype T]

/-- `rt_current->priority`, where no task is the Linux one. -/
def currentPriority (s : Storage T S) : Option T → Int
  | none => RT_SCHED_LINUX_PRIORITY
  | some c => s.cpus.priority c

/-- Tasks that are taken out of the timed list and lose bits of their state. -/
def release : Cpus T → List (T × TaskState) → Option (Cpus T)
  | x, [] => some x
  | x, (u, bits) :: rest => do
      let x ← freeTask x u (insert .delayed bits)
      release x rest

/-- `rel` has the tasks in `msg_queue` and `ret_queue`, and the one that a mailbox
    lets in. -/
def clrRtext (s : Storage T S) (c : Option T) (t : T) (rel : List (T × TaskState)) :
    Option (Storage T S × Int) :=
  if !s.cpus.magic t ∨ s.cpus.priority t = RT_SCHED_LINUX_PRIORITY then
    some (s, -EINVAL)
  else if s.resq t = [] ∨ c = some t ∨
      currentPriority s c = RT_SCHED_LINUX_PRIORITY then do
    let x ← release (remTimedTask s.cpus t) rel
    let x := unlinkTask x t
    let x := remReadyTask { x with magic := Function.update x.magic t false } t
    let cpuid := x.runnableOnCpus t
    some ({ s with cpus := { x with
      state := Function.update x.state t ∅
      tasksPerCpu :=
        Function.update x.tasksPerCpu cpuid (x.tasksPerCpu cpuid - 1) } }, 0)
  else
    some ({ s with
      suspdepth := Function.update s.suspdepth t RT_RESEM_SUSPDEL }, 0)

/-- `rt_task_delete`, which returns 0. -/
def rtTaskDelete (s : Storage T S) (c : Option T) (t : T)
    (rel : List (T × TaskState)) : Option (Storage T S × Int) := do
  let (s, _) ← clrRtext s c t rel
  some (s, 0)

/-- `rt_free`. -/
def rtFree (s : Storage T S) (t : T) : Storage T S :=
  { s with frees := Function.update s.frees t (s.frees t + 1) }

/-- `rt_drg_on_adr` returns the slot, or 0. -/
def rtDrgOnAdr (s : Storage T S) (t : T) : Storage T S × Int :=
  ({ s with slot := Function.update s.slot t 0 }, s.slot t)

/-- `rt_named_task_delete`. -/
def rtNamedTaskDelete (s : Storage T S) (c : Option T) (t : T)
    (rel : List (T × TaskState)) : Option (Storage T S × Int) := do
  let (s, r) ← rtTaskDelete s c t rel
  let s := if r = 0 then rtFree s t else s
  some (rtDrgOnAdr s t)

/-- `rt_proxy_detach`. -/
def rtProxyDetach (s : Storage T S) (c : Option T) (t : T)
    (rel : List (T × TaskState)) : Option (Storage T S × Int) := do
  let (s, r) ← rtTaskDelete s c t rel
  if r = 0 then some (rtFree s t, 0) else some (s, -EINVAL)

/-- The two deletions. -/
inductive Del where
  | rtNamedTaskDelete
  | rtProxyDetach
  deriving DecidableEq

/-- What a deletion does. -/
def delete (s : Storage T S) (d : Del) (c : Option T) (t : T)
    (rel : List (T × TaskState)) : Option (Storage T S × Int) :=
  match d with
  | .rtNamedTaskDelete => rtNamedTaskDelete s c t rel
  | .rtProxyDetach => rtProxyDetach s c t rel

/-- `rt_named_task_init_cpuid`, or `rt_proxy_attach` without a name: `slot` is what
    `rt_register` returns. -/
def create (m : Machine) (s : Storage T S) (t : T) (linux : Bool) (priority : Int)
    (cpuid slot : Nat) : Option (Storage T S) :=
  if s.mallocs t = s.frees t then do
    let x ← rtTaskInitCpuid m s.cpus t linux priority cpuid
    some { s with
      cpus := x
      slot := Function.update s.slot t slot
      mallocs := Function.update s.mallocs t (s.mallocs t + 1) }
  else none

/-- What is done to the tasks. -/
inductive Action (T S : Type) where
  | create (t : T) (linux : Bool) (priority : Int) (cpuid slot : Nat)
  /-- What the services do to the lists. -/
  | service (a : CpuAction T)
  /-- Resources are taken and released. -/
  | own (t : T) (resq : List S)
  | rtTaskDelete (c : Option T) (t : T) (rel : List (T × TaskState))
  /-- By another task: a task that deletes itself does not come back from
      `rt_task_delete`. -/
  | delete (d : Del) (c : Option T) (t : T) (rel : List (T × TaskState))

/-- No task comes into being and none is deleted. -/
def IsService : CpuAction T → Bool
  | .init _ _ _ _ => false
  | .delete _ => false
  | _ => true

/-- A deleted task is not in its own queues. -/
def Apart (t : T) (rel : List (T × TaskState)) : Prop := ∀ p ∈ rel, p.1 ≠ t

instance (t : T) (rel : List (T × TaskState)) : Decidable (Apart t rel) :=
  inferInstanceAs (Decidable (∀ p ∈ rel, p.1 ≠ t))

/-- One action. -/
def step (m : Machine) (s : Storage T S) : Action T S → Option (Storage T S × Int)
  | .create t linux priority cpuid slot => do
      let s ← create m s t linux priority cpuid slot
      some (s, 0)
  | .service a =>
    if IsService a then do
      let (x, _) ← cpuStep m s.cpus a
      some ({ s with cpus := x }, 0)
    else none
  | .own t resq => some ({ s with resq := Function.update s.resq t resq }, 0)
  | .rtTaskDelete c t rel => if Apart t rel then rtTaskDelete s c t rel else none
  | .delete d c t rel =>
    if c ≠ some t ∧ Apart t rel then delete s d c t rel else none

/-- No tasks. -/
def start : Storage T S where
  cpus := noTasks
  resq := fun _ => []
  suspdepth := fun _ => 0
  slot := fun _ => 0
  mallocs := fun _ => 0
  frees := fun _ => 0

/-! ## What a deletion is to do -/

/-- The call has taken the task out of the task list, and it is in no list. -/
def Removed (s s' : Storage T S) (t : T) : Prop :=
  Linked (taskLinks s.cpus) t ∧ ¬ Linked (taskLinks s'.cpus) t ∧
    ¬ Linked s'.cpus.ready t ∧ ¬ Linked s'.cpus.timed t

/-- What is returned tells that the task has not been deleted. -/
def Reports (d : Del) (r : Int) : Prop :=
  match d with
  | .rtNamedTaskDelete => r ≤ 0
  | .rtProxyDetach => r < 0

/-- The storage is freed if and only if the task is removed; else the task stays
    allocated and registered, and the call reports it. -/
structure Rightly (d : Del) (s s' : Storage T S) (t : T) (r : Int) : Prop where
  freed : s'.frees t = s.frees t + 1 ↔ Removed s s' t
  kept : ¬ Removed s s' t → s'.frees t = s.frees t ∧ s'.slot t = s.slot t ∧ Reports d r

/-- `clr_rtext` accepts the task and does not put the deletion off. -/
def Deletable (s : Storage T S) (c : Option T) (t : T) : Prop :=
  s.cpus.magic t ∧ s.cpus.priority t ≠ RT_SCHED_LINUX_PRIORITY ∧
    (s.resq t = [] ∨ c = some t ∨ currentPriority s c = RT_SCHED_LINUX_PRIORITY)

end Model

/-! ## The lists -/

section Lists

variable {T : Type} [decT : DecidableEq T] [finT : Fintype T] {D : T → Prop} {x x' : Cpus T}
  {t u : T}

/-- The tasks are in the lists where their magic and their state put them, the timed
    list apart of the tasks that are not in `D`.  What is deleted has no state. -/
structure Listed (D : T → Prop) (x : Cpus T) : Prop where
  tasks : WellFormed (taskLinks x) (fun t => x.magic t) x.runnableOnCpus fun _ _ => True
  ready : OnRings x.ready fun t => x.magic t ∧ x.state t = {.ready}
  timed : OnRings x.timed fun t => (D t ∧ x.magic t) ∧ .delayed ∈ x.state t
  dead : ∀ t, x.magic t = false → x.state t = ∅

omit decT finT in
theorem Listed.alive (h : Listed D x) {f : Flag} (hf : f ∈ x.state t) : x.magic t = true := by
  cases hm : x.magic t with
  | true => rfl
  | false =>
    rw [h.dead t hm] at hf
    exact absurd hf (Finset.notMem_empty f)

omit decT finT in
theorem Listed.linked_tasks (h : Listed D x) : Linked (taskLinks x) t ↔ x.magic t := by
  obtain ⟨L, R, hmem, -⟩ := h.tasks
  have hon : OnRings (taskLinks x) fun u => x.magic u := by
    refine ⟨L, R, fun u => ?_⟩
    constructor
    · rintro ⟨c, hc⟩
      exact ((hmem c u).mp hc).1
    · intro hu
      exact ⟨_, (hmem _ u).mpr ⟨hu, rfl⟩⟩
  exact hon.linked_iff

omit finT in
theorem remReadyTask_onRings (h : Listed D x) : OnRings (remReadyTask x t).ready
      fun u => (x.magic u ∧ x.state u = {.ready}) ∧ u ≠ t := by
  unfold remReadyTask
  by_cases hs : x.state t = {.ready}
  · rw [if_pos hs]
    have hm : x.magic t = true := h.alive (hs ▸ Finset.mem_singleton_self Flag.ready)
    exact h.ready.unlink ⟨hm, hs⟩ fun _ => Iff.rfl
  · rw [if_neg hs]
    refine h.ready.same fun u => ⟨fun hu => hu.1, fun hu => ⟨hu, ?_⟩⟩
    rintro rfl
    exact hs hu.2

omit finT in
theorem remTimedTask_onRings (h : Listed D x) (ht : D t) : OnRings (remTimedTask x t).timed
      fun u => ((D u ∧ x.magic u) ∧ .delayed ∈ x.state u) ∧ u ≠ t := by
  unfold remTimedTask
  by_cases hs : Flag.delayed ∈ x.state t
  · rw [if_pos hs]
    exact h.timed.unlink ⟨⟨ht, h.alive hs⟩, hs⟩ fun _ => Iff.rfl
  · rw [if_neg hs]
    refine h.timed.same fun u => ⟨fun hu => hu.1, fun hu => ⟨hu, ?_⟩⟩
    rintro rfl
    exact hs hu.2

theorem enqReadyTask_onRings (on : T → Prop) (h : OnRings x.ready on) (ht : ¬ on t)
    (he : enqReadyTask x t = some x') :
    ∃ r, x' = { x with ready := r } ∧ OnRings r fun u => on u ∨ u = t := by
  unfold enqReadyTask at he
  cases hp : readyPos x t with
  | none => rw [hp] at he; exact nomatch he
  | some p =>
    rw [hp] at he
    cases he
    refine ⟨_, rfl, h.insert ht ?_ fun _ => Iff.rfl⟩
    have hfirst : InRings on (x.ready.next (.head (x.runnableOnCpus t))) :=
      h.next trivial
    unfold readyPos at hp
    dsimp only at hp
    split at hp
    · cases hp
      exact hfirst
    · exact h.walk (h.next hfirst) hp

theorem enqTimedTask_onRings (on : T → Prop) (h : OnRings x.timed on) (ht : ¬ on t)
    (he : enqTimedTask x t = some x') :
    ∃ d, x' = { x with timed := d } ∧ OnRings d fun u => on u ∨ u = t := by
  unfold enqTimedTask at he
  cases hp : walk (fun n => some (!(x.resumeTime t > timedResumeTime x n)))
      x.timed.next (taskFuel T) (x.timed.next (.head (x.runnableOnCpus t))) with
  | none => rw [hp] at he; exact nomatch he
  | some p =>
    rw [hp] at he
    cases he
    exact ⟨_, rfl, h.insert ht (h.walk (h.next (n := .head _) trivial) hp) fun _ => Iff.rfl⟩

omit finT in
/-- The tasks that are in a list after one of them has got another state. -/
theorem on_update {p : T → Prop} {q : TaskState → Prop} {state : T → TaskState}
    {v : TaskState} :
    (p u ∧ q (Function.update state t v u)) ↔
      ((p u ∧ q (state u)) ∧ u ≠ t) ∨ (u = t ∧ p t ∧ q v) := by
  by_cases hu : u = t
  · subst hu
    rw [Function.update_self]
    exact ⟨fun h => Or.inr ⟨rfl, h⟩, fun h => h.elim (fun h => absurd rfl h.2) And.right⟩
  · rw [Function.update_of_ne hu]
    exact ⟨fun h => Or.inl ⟨h, hu⟩, fun h => h.elim And.left fun h => absurd h.1 hu⟩

omit finT in
/-- A state that puts the task in no list, behind which it is unlinked. -/
theorem onRings_state_out {links : Links (Node T Nat)} {p : T → Prop}
    {q : TaskState → Prop} {state : T → TaskState} {v : TaskState}
    (h : OnRings links fun u => (p u ∧ q (state u)) ∧ u ≠ t) (hv : ¬ (p t ∧ q v)) :
    OnRings links fun u => p u ∧ q (Function.update state t v u) := by
  refine h.same fun u => on_update.trans ?_
  exact ⟨fun h => h.elim id fun h => absurd h.2 hv, Or.inl⟩

omit finT in
/-- A state that puts the task in the list, to which it is added. -/
theorem onRings_state_in {links : Links (Node T Nat)} {p : T → Prop}
    {q : TaskState → Prop} {state : T → TaskState} {v : TaskState}
    (h : OnRings links fun u => ((p u ∧ q (state u)) ∧ u ≠ t) ∨ u = t)
    (hp : p t) (hv : q v) :
    OnRings links fun u => p u ∧ q (Function.update state t v u) := by
  refine h.same fun u => on_update.trans ?_
  exact or_congr_right ⟨fun h => h.1, fun h => ⟨h, hp, hv⟩⟩

omit finT in
/-- A state that leaves the task where it was. -/
theorem onRings_state_same {links : Links (Node T Nat)} {p : T → Prop}
    {q : TaskState → Prop} {state : T → TaskState} {v : TaskState}
    (h : OnRings links fun u => p u ∧ q (state u)) (hv : q v ↔ q (state t)) :
    OnRings links fun u => p u ∧ q (Function.update state t v u) := by
  refine h.same fun u => ?_
  by_cases hu : u = t
  · rw [hu, Function.update_self, hv]
  · rw [Function.update_of_ne hu]

omit decT finT in
/-- Other lists, states, priorities and times. -/
theorem Listed.lists (h : Listed D x) {E : T → Prop} {s : T → TaskState}
    {p a b c : T → Int} {r d : Links (Node T Nat)}
    (hready : OnRings r fun t => x.magic t ∧ s t = {.ready})
    (htimed : OnRings d fun t => (E t ∧ x.magic t) ∧ .delayed ∈ s t)
    (hdead : ∀ t, x.magic t = false → s t = ∅) :
    Listed E { x with
      state := s
      priority := p
      period := a
      resumeTime := b
      periodicResumeTime := c
      ready := r
      timed := d } :=
  ⟨h.tasks, hready, htimed, hdead⟩

omit finT in
theorem Listed.dead_update (h : Listed D x) {v : TaskState} (hv : x.magic t = false → v = ∅) :
    ∀ u, x.magic u = false → Function.update x.state t v u = ∅ := by
  intro u hu
  by_cases he : u = t
  · rw [he, Function.update_self]
    exact hv (he ▸ hu)
  · rw [Function.update_of_ne he]
    exact h.dead u hu

/-- What a service leaves of the other tasks and of the task lists. -/
structure Spares (t : T) (x x' : Cpus T) : Prop where
  magic : x'.magic = x.magic
  cpu : x'.runnableOnCpus = x.runnableOnCpus
  links : taskLinks x' = taskLinks x
  state : ∀ u, u ≠ t → x'.state u = x.state u

omit finT in
/-- The timed list of a task that is freed. -/
theorem freed_timed (h : Listed D x) (ht : D t) (bits : TaskState) :
    ∃ d, (if .delayed ∈ bits then remTimedTask x t else x) = { x with timed := d } ∧
      (OnRings d fun u => (D u ∧ x.magic u) ∧
        .delayed ∈ Function.update x.state t (x.state t \ bits) u) := by
  by_cases hb : Flag.delayed ∈ bits
  · rw [if_pos hb]
    refine ⟨(remTimedTask x t).timed, ?_, ?_⟩
    · unfold remTimedTask
      split <;> rfl
    · exact onRings_state_out (p := fun u => D u ∧ x.magic u)
        (q := fun s => .delayed ∈ s) (remTimedTask_onRings h ht)
        fun hv => (Finset.mem_sdiff.mp hv.2).2 hb
  · rw [if_neg hb]
    refine ⟨x.timed, rfl, ?_⟩
    exact onRings_state_same (p := fun u => D u ∧ x.magic u)
      (q := fun s => .delayed ∈ s) h.timed
      ⟨fun hv => (Finset.mem_sdiff.mp hv).1, fun hv => Finset.mem_sdiff.mpr ⟨hv, hb⟩⟩

/-- **A TASK IS FREED.** -/
theorem Listed.free (h : Listed D x) (ht : D t) {bits : TaskState}
    (hf : freeTask x t bits = some x') : Listed D x' ∧ Spares t x x' := by
  unfold freeTask at hf
  obtain ⟨d, hd, htimed⟩ := freed_timed h ht bits
  dsimp only at hf
  rw [hd] at hf
  dsimp only at hf
  by_cases hs : x.state t = {.ready}
  · rw [if_pos hs] at hf
    cases hf
    refine ⟨h.lists h.ready (htimed.same fun u => and_congr_right fun _ => ?_) h.dead,
      ⟨rfl, rfl, rfl, fun _ _ => rfl⟩⟩
    -- a ready task is not delayed
    by_cases hu : u = t
    · rw [hu, Function.update_self, hs, Finset.mem_sdiff]
      exact ⟨fun hm => absurd hm (by decide), fun hm => hm.1⟩
    · rw [Function.update_of_ne hu]
  · rw [if_neg hs] at hf
    have hdead := h.dead_update (t := t) (v := x.state t \ bits)
      fun hm => by rw [h.dead t hm, Finset.empty_sdiff]
    by_cases hr : Function.update x.state t (x.state t \ bits) t = {.ready}
    · rw [if_pos hr] at hf
      rw [Function.update_self] at hr
      have hin : Flag.ready ∈ x.state t :=
        (Finset.mem_sdiff.mp (hr ▸ Finset.mem_singleton_self Flag.ready)).1
      obtain ⟨r, rfl, hr'⟩ := enqReadyTask_onRings
        (fun u => x.magic u ∧ x.state u = {.ready}) (by exact h.ready)
        (fun hu => hs hu.2) hf
      refine ⟨h.lists ?_ htimed hdead, ⟨rfl, rfl, rfl, fun u hu => ?_⟩⟩
      · refine onRings_state_in (p := fun u => x.magic u) (q := fun s => s = {.ready})
          (hr'.same fun u => ?_) (h.alive hin) hr
        refine or_congr_left ⟨fun hu => hu.1, fun hu => ⟨hu, ?_⟩⟩
        rintro rfl
        exact hs hu.2
      · exact Function.update_of_ne hu ..
    · rw [if_neg hr] at hf
      rw [Function.update_self] at hr
      cases hf
      refine ⟨h.lists ?_ htimed hdead, ⟨rfl, rfl, rfl, fun u hu => ?_⟩⟩
      · exact onRings_state_same (p := fun u => x.magic u) (q := fun s => s = {.ready})
          h.ready ⟨fun hv => absurd hv hr, fun hv => absurd hv hs⟩
      · exact Function.update_of_ne hu ..

/-- Several tasks are freed, none of which is the task `t`. -/
theorem Listed.release (h : Listed (· ≠ t) x) {rel : List (T × TaskState)}
    (hrel : Apart t rel) (hf : release x rel = some x') :
    Listed (· ≠ t) x' ∧ x'.magic = x.magic ∧ x'.runnableOnCpus = x.runnableOnCpus ∧
      taskLinks x' = taskLinks x ∧ x'.state t = x.state t := by
  induction rel generalizing x with
  | nil =>
    cases hf
    exact ⟨h, rfl, rfl, rfl, rfl⟩
  | cons p rest ih =>
    obtain ⟨u, bits⟩ := p
    have hu : u ≠ t := hrel _ (List.mem_cons_self ..)
    unfold RtaiTaskStorage.release at hf
    cases hx : freeTask x u (insert .delayed bits) with
    | none => rw [hx] at hf; exact nomatch hf
    | some y =>
      rw [hx] at hf
      obtain ⟨hy, hsp⟩ := h.free hu hx
      obtain ⟨h1, h2, h3, h4, h5⟩ := ih hy (fun p hp => hrel p (List.mem_cons_of_mem _ hp)) hf
      exact ⟨h1, h2.trans hsp.magic, h3.trans hsp.cpu, h4.trans hsp.links,
        h5.trans (hsp.state t hu.symm)⟩

/-- **A TASK IS HELD.** -/
theorem Listed.hold (h : Listed D x) (ht : D t) (hm : x.magic t = true)
    {bits : TaskState} {resumeTime : Int} (hne : bits ≠ ∅) (hbits : .ready ∉ bits)
    (hf : holdTask x t bits resumeTime = some x') : Listed D x' := by
  unfold holdTask at hf
  have hr := remReadyTask_onRings (t := t) h
  have hfields : remReadyTask x t = { x with ready := (remReadyTask x t).ready } := by
    unfold remReadyTask
    split <;> rfl
  generalize (remReadyTask x t).ready = r at hr hfields
  rw [hfields] at hf
  dsimp only at hf
  have hready := onRings_state_out (p := fun u => x.magic u) (q := fun s => s = {.ready})
    (v := x.state t ∪ bits) hr fun hv => union_ne_ready hne hbits hv.2
  have hdead := h.dead_update (t := t) (v := x.state t ∪ bits)
    fun hf => absurd (hm.symm.trans hf) (by decide)
  by_cases hd : Flag.delayed ∈ bits ∧ Flag.delayed ∉ x.state t
  · rw [if_pos hd] at hf
    obtain ⟨d, rfl, hd'⟩ := enqTimedTask_onRings
      (fun u => (D u ∧ x.magic u) ∧ .delayed ∈ x.state u) (by exact h.timed)
      (fun hu => hd.2 hu.2) hf
    refine h.lists hready ?_ hdead
    refine onRings_state_in (p := fun u => D u ∧ x.magic u) (q := fun s => .delayed ∈ s)
      (hd'.same fun u => ?_) ⟨ht, hm⟩ (Finset.mem_union_right _ hd.1)
    refine or_congr_left ⟨fun hu => hu.1, fun hu => ⟨hu, ?_⟩⟩
    rintro rfl
    exact hd.2 hu.2
  · rw [if_neg hd] at hf
    cases hf
    refine h.lists hready ?_ hdead
    refine onRings_state_same (p := fun u => D u ∧ x.magic u) (q := fun s => .delayed ∈ s)
      h.timed ?_
    rw [Finset.mem_union]
    refine ⟨fun hu => ?_, Or.inl⟩
    by_contra hnot
    exact hd ⟨hu.resolve_left hnot, hnot⟩

/-- A task gets another priority. -/
theorem Listed.renq (h : Listed D x) {priority : Int}
    (hf : renqReadyTask x t priority = some x') : Listed D x' := by
  unfold renqReadyTask at hf
  by_cases hp : x.priority t = priority
  · rw [if_pos hp] at hf
    cases hf
    exact h
  · rw [if_neg hp] at hf
    dsimp only at hf
    by_cases hs : x.state t = {.ready}
    · rw [if_pos hs] at hf
      have hm := h.alive (hs ▸ Finset.mem_singleton_self Flag.ready)
      have hout : OnRings (x.ready.unlink (.elem t))
          fun u => (x.magic u ∧ x.state u = {.ready}) ∧ u ≠ t :=
        h.ready.unlink ⟨hm, hs⟩ fun _ => Iff.rfl
      obtain ⟨r, rfl, hr⟩ := enqReadyTask_onRings
        (fun u => (x.magic u ∧ x.state u = {.ready}) ∧ u ≠ t) (by exact hout)
        (fun hu => hu.2 rfl) hf
      refine h.lists (hr.same fun u => ?_) h.timed h.dead
      constructor
      · intro hu
        by_cases he : u = t
        · exact Or.inr he
        · exact Or.inl ⟨hu, he⟩
      · rintro (hu | rfl)
        · exact hu.1
        · exact ⟨hm, hs⟩
    · rw [if_neg hs] at hf
      cases hf
      exact h.lists h.ready h.timed h.dead

omit finT in
/-- A task that is unlinked and appended to the list of a CPU. -/
theorem moved_tasks {y : Cpus T} {c : Nat} (hc : y.runnableOnCpus t = c)
    (W : WellFormed (taskLinks x) (fun u => x.magic u) x.runnableOnCpus fun _ _ => True)
    (hm : x.magic t = true) (hnext : y.next = (unlinkTask x t).next)
    (hprev : y.prev = (unlinkTask x t).prev)
    (hcpu : ∀ u, u ≠ t → y.runnableOnCpus u = x.runnableOnCpus u) :
    WellFormed (taskLinks (appendTask y t c)) (fun u => x.magic u)
      y.runnableOnCpus fun _ _ => True := by
  subst hc
  have hout : WellFormed (taskLinks (unlinkTask x t)) (fun u => x.magic u ∧ u ≠ t)
      x.runnableOnCpus fun _ _ => True := by
    rw [taskLinks_unlink W hm]
    exact wellFormed_unlink W hm (fun _ => Iff.rfl) (fun _ _ => rfl) fun _ _ _ _ _ => trivial
  have hsame : WellFormed (taskLinks y) (fun u => x.magic u ∧ u ≠ t)
      x.runnableOnCpus fun _ _ => True := by
    refine wellFormed_congr hout (fun hu => hu.2 rfl) (fun n hn => ?_)
      fun n _ => congrFun hprev n
    have hhome : home y n = home x n := by
      cases n with
      | head c => rfl
      | elem u => exact hcpu u fun hu => hn (congrArg Node.elem hu)
    show (match y.next n with
      | none => Node.head (home y n) | some u => Node.elem u) =
      match (unlinkTask x t).next n with
      | none => Node.head (home x n) | some u => Node.elem u
    rw [hnext, hhome]
  refine tasks_append hsame (fun hu => hu.2 rfl) (fun u => ?_) hcpu
  by_cases hu : u = t
  · rw [hu]
    exact ⟨fun _ => Or.inr rfl, fun _ => hm⟩
  · exact ⟨fun h => Or.inl ⟨h, hu⟩, fun h => (h.resolve_right hu).1⟩

/-- **A TASK IS MOVED TO ANOTHER CPU.** -/
theorem Listed.migrate (h : Listed D x) (ht : D t) (hm : x.magic t = true)
    {m : Machine} {cpuid : Nat} (hf : rtSetRunnableOnCpuid m x t cpuid = some x') :
    Listed D x' := by
  unfold rtSetRunnableOnCpuid at hf
  split at hf
  · cases hf
    exact h
  obtain ⟨period, -, hf⟩ := Option.bind_eq_some_iff.mp hf
  obtain ⟨resume, -, hf⟩ := Option.bind_eq_some_iff.mp hf
  obtain ⟨periodic, -, hf⟩ := Option.bind_eq_some_iff.mp hf
  generalize (if cpuid ≥ m.nrCpus then getMinTasksCpuid m x 0xff else cpuid) = c at hf
  have hcpu : Function.update x.runnableOnCpus t c t = c := Function.update_self ..
  have hother : ∀ u, u ≠ t → Function.update x.runnableOnCpus t c u = x.runnableOnCpus u :=
    fun u hu => Function.update_of_ne hu ..
  dsimp only at hf
  by_cases hd : Flag.delayed ∈ x.state t
  · have hd' : Flag.delayed ∈ (unlinkTask { x with
        period := Function.update x.period t period
        resumeTime := Function.update x.resumeTime t resume
        periodicResumeTime := Function.update x.periodicResumeTime t periodic } t).state t :=
      hd
    rw [if_pos hd'] at hf
    obtain ⟨y, hy, hf⟩ := Option.bind_eq_some_iff.mp hf
    cases hf
    have hout : OnRings (x.timed.unlink (.elem t))
        fun u => ((D u ∧ x.magic u) ∧ .delayed ∈ x.state u) ∧ u ≠ t :=
      h.timed.unlink ⟨⟨ht, hm⟩, hd⟩ fun _ => Iff.rfl
    unfold remTimedTask at hy
    rw [if_pos hd'] at hy
    obtain ⟨d, rfl, hd''⟩ := enqTimedTask_onRings
      (fun u => ((D u ∧ x.magic u) ∧ .delayed ∈ x.state u) ∧ u ≠ t) (by exact hout)
      (fun hu => hu.2 rfl) hy
    have htasks := moved_tasks (y := { unlinkTask x t with
      runnableOnCpus := Function.update x.runnableOnCpus t c }) hcpu h.tasks hm rfl rfl
      hother
    refine ⟨htasks, h.ready, hd''.same fun u => ?_, h.dead⟩
    constructor
    · intro hu
      by_cases he : u = t
      · exact Or.inr he
      · exact Or.inl ⟨hu, he⟩
    · rintro (hu | rfl)
      · exact hu.1
      · exact ⟨⟨ht, hm⟩, hd⟩
  · have hd' : ¬ Flag.delayed ∈ (unlinkTask { x with
        period := Function.update x.period t period
        resumeTime := Function.update x.resumeTime t resume
        periodicResumeTime := Function.update x.periodicResumeTime t periodic } t).state t :=
      hd
    rw [if_neg hd'] at hf
    cases hf
    have htasks := moved_tasks (y := { unlinkTask x t with
      runnableOnCpus := Function.update x.runnableOnCpus t c }) hcpu h.tasks hm rfl rfl
      hother
    exact ⟨htasks, h.ready, h.timed, h.dead⟩

omit finT in
/-- **A TASK IS CREATED.** -/
theorem Listed.init (h : Listed D x) {m : Machine} {linux : Bool} {priority : Int}
    {cpuid : Nat} (hf : rtTaskInitCpuid m x t linux priority cpuid = some x') :
    Listed D x' := by
  unfold rtTaskInitCpuid at hf
  generalize (if m.online ≤ 1 then 0 else cpuid) = c at hf
  dsimp only at hf
  split at hf
  · exact nomatch hf
  next hnot =>
  have hm : ¬ x.magic t := fun hm => hnot (Or.inl hm)
  have hm' : x.magic t = false := Bool.eq_false_iff.mpr hm
  have hs0 : x.state t = ∅ := h.dead t hm'
  have hstate : (if linux then (∅ : TaskState) else {.suspended, .ready}) ≠ {.ready} := by
    cases linux <;> decide
  have hdelayed : Flag.delayed ∉
      (if linux then (∅ : TaskState) else {.suspended, .ready}) := by
    cases linux <;> decide
  generalize (if linux then (∅ : TaskState) else {.suspended, .ready}) = s
    at hf hstate hdelayed
  cases hf
  have htasks := tasks_create (t := t) (y := { x with
      magic := Function.update x.magic t true
      runnableOnCpus := Function.update x.runnableOnCpus t c })
    (c := c) (Function.update_self ..) h.tasks hm rfl rfl
    (fun u hu => Function.update_of_ne hu ..) fun u => magic_new
  -- neither before nor after it does the new task belong in the other lists
  have hsame : ∀ {q : TaskState → Prop} (u : T), ¬ q s → ¬ q ∅ →
      (Function.update x.magic t true u ∧ q (Function.update x.state t s u) ↔
        x.magic u ∧ q (x.state u)) := by
    intro q u h1 h2
    by_cases hu : u = t
    · rw [hu, Function.update_self, Function.update_self, hs0]
      exact ⟨fun hq => absurd hq.2 h1, fun hq => absurd hq.2 h2⟩
    · rw [Function.update_of_ne hu, Function.update_of_ne hu]
  refine ⟨htasks, h.ready.same fun u => ?_, h.timed.same fun u => ?_, ?_⟩
  · exact hsame (q := fun s => s = {.ready}) u hstate
      fun he => Finset.singleton_ne_empty _ he.symm
  · rw [and_assoc, and_assoc]
    exact and_congr_right fun _ =>
      hsame (q := fun s => Flag.delayed ∈ s) u hdelayed (Finset.notMem_empty _)
  · intro u hu
    by_cases he : u = t
    · replace hu : Function.update x.magic t true u = false := hu
      rw [he, Function.update_self] at hu
      exact nomatch hu
    · replace hu : Function.update x.magic t true u = false := hu
      rw [Function.update_of_ne he] at hu
      exact (Function.update_of_ne he ..).trans (h.dead u hu)

/-- What `clr_rtext` makes of the tasks once it has released the others. -/
def gone (x : Cpus T) (t : T) : Cpus T :=
  let x := unlinkTask x t
  let x := remReadyTask { x with magic := Function.update x.magic t false } t
  let cpuid := x.runnableOnCpus t
  { x with
    state := Function.update x.state t ∅
    tasksPerCpu := Function.update x.tasksPerCpu cpuid (x.tasksPerCpu cpuid - 1) }

omit finT in
theorem gone_eq : gone x t = { unlinkTask x t with
    magic := Function.update x.magic t false
    ready := (remReadyTask x t).ready
    state := Function.update x.state t ∅
    tasksPerCpu := Function.update x.tasksPerCpu (x.runnableOnCpus t)
      (x.tasksPerCpu (x.runnableOnCpus t) - 1) } := by
  have hstate : (unlinkTask x t).state = x.state := rfl
  unfold gone remReadyTask
  dsimp only
  rw [hstate]
  by_cases hs : x.state t = {.ready}
  · rw [if_pos hs, if_pos hs]
    rfl
  · rw [if_neg hs, if_neg hs]
    rfl

omit finT in
/-- **A TASK IS GONE FROM ALL LISTS.** -/
theorem Listed.gone (h : Listed (· ≠ t) x) (hm : x.magic t = true) :
    Listed (fun _ => True) (gone x t) ∧ (gone x t).magic t = false := by
  have htasks : WellFormed (taskLinks (unlinkTask x t))
      (fun u => Function.update x.magic t false u) x.runnableOnCpus
      fun _ _ => True := by
    rw [taskLinks_unlink h.tasks hm]
    exact wellFormed_unlink h.tasks hm (fun _ => magic_gone) (fun _ _ => rfl)
      fun _ _ _ _ _ => trivial
  rw [gone_eq]
  refine ⟨⟨htasks, ?_, ?_, ?_⟩, Function.update_self ..⟩
  · refine (remReadyTask_onRings (t := t) h).same fun u => ?_
    show Function.update x.magic t false u ∧ Function.update x.state t ∅ u = {.ready} ↔ _
    rw [magic_gone]
    by_cases hu : u = t
    · exact ⟨fun hl => absurd hu hl.1.2, fun hr => absurd hu hr.2⟩
    · rw [Function.update_of_ne hu]
      exact ⟨fun hl => ⟨⟨hl.1.1, hl.2⟩, hu⟩, fun hr => ⟨⟨hr.1.1, hu⟩, hr.1.2⟩⟩
  · refine h.timed.same fun u => ?_
    show (True ∧ Function.update x.magic t false u) ∧
      .delayed ∈ Function.update x.state t ∅ u ↔ _
    rw [magic_gone]
    by_cases hu : u = t
    · exact ⟨fun hl => absurd hu hl.1.2.2, fun hr => absurd hu hr.1.1⟩
    · rw [Function.update_of_ne hu]
      exact ⟨fun hl => ⟨⟨hu, hl.1.2.1⟩, hl.2⟩, fun hr => ⟨⟨trivial, hr.1.2, hu⟩, hr.2⟩⟩
  · intro u hu
    by_cases he : u = t
    · rw [he]
      exact Function.update_self ..
    · replace hu : Function.update x.magic t false u = false := hu
      rw [Function.update_of_ne he] at hu
      exact (Function.update_of_ne he ..).trans (h.dead u hu)

omit finT in
/-- The first step of a deletion. -/
theorem Listed.untimed (h : Listed (fun _ => True) x) (t : T) :
    Listed (· ≠ t) (remTimedTask x t) ∧ (remTimedTask x t).magic = x.magic := by
  have htimed := remTimedTask_onRings (t := t) h trivial
  have hfields : remTimedTask x t = { x with timed := (remTimedTask x t).timed } := by
    unfold remTimedTask
    split <;> rfl
  generalize (remTimedTask x t).timed = d at htimed hfields
  rw [hfields]
  refine ⟨h.lists h.ready (htimed.same fun u => ?_) h.dead, rfl⟩
  exact ⟨fun hl => ⟨⟨⟨trivial, hl.1.2⟩, hl.2⟩, hl.1.1⟩, fun hr => ⟨⟨hr.2, hr.1.1.2⟩, hr.1.2⟩⟩

end Lists

/-! ## The three outcomes of a deletion -/

section Outcomes

variable {T S : Type} [decT : DecidableEq T] [finT : Fintype T] {s s' : Storage T S}
  {c : Option T} {t : T} {rel : List (T × TaskState)} {r : Int}

/-- **THE OUTCOMES OF `clr_rtext`**: the task is removed, or the lists are what they
    were. -/
theorem clrRtext_cases (h : Listed (fun _ => True) s.cpus) (hrel : Apart t rel) (he : clrRtext s c t rel = some (s', r)) :
    s'.slot = s.slot ∧ s'.frees = s.frees ∧ Listed (fun _ => True) s'.cpus ∧
      ((Deletable s c t ∧ s.cpus.magic t = true ∧ s'.cpus.magic t = false) ∨
        (¬ Deletable s c t ∧ s'.cpus = s.cpus)) := by
  unfold clrRtext at he
  by_cases hbad : !s.cpus.magic t ∨ s.cpus.priority t = RT_SCHED_LINUX_PRIORITY
  · rw [if_pos hbad] at he
    cases he
    refine ⟨rfl, rfl, h, Or.inr ⟨fun hd => ?_, rfl⟩⟩
    rcases hbad with hm | hp
    · rw [hd.1] at hm
      exact nomatch hm
    · exact hd.2.1 hp
  rw [if_neg hbad] at he
  obtain ⟨hm, hp⟩ := not_or.mp hbad
  have hm' : s.cpus.magic t = true := by
    cases hm0 : s.cpus.magic t with
    | true => rfl
    | false =>
      rw [hm0] at hm
      exact absurd rfl hm
  by_cases hnow : s.resq t = [] ∨ c = some t ∨ currentPriority s c = RT_SCHED_LINUX_PRIORITY
  · rw [if_pos hnow] at he
    obtain ⟨x, hx, he⟩ := Option.bind_eq_some_iff.mp he
    obtain ⟨hout, hmagic⟩ := h.untimed t
    obtain ⟨hx', hmx, -⟩ := hout.release hrel hx
    obtain ⟨hgone, hoff⟩ := hx'.gone (by rw [hmx, hmagic]; exact hm')
    cases he
    refine ⟨rfl, rfl, hgone, Or.inl ⟨⟨hm', hp, hnow⟩, hm', hoff⟩⟩
  · rw [if_neg hnow] at he
    cases he
    refine ⟨rfl, rfl, h, Or.inr ⟨fun hd => hnow hd.2.2, rfl⟩⟩

omit decT finT in
/-- A task that is removed, told by the magics. -/
theorem removed_iff (h : Listed (fun _ => True) s.cpus) (h' : Listed (fun _ => True) s'.cpus) :
    Removed s s' t ↔ s.cpus.magic t = true ∧ s'.cpus.magic t = false := by
  unfold Removed
  rw [h.linked_tasks, h'.linked_tasks, h'.ready.linked_iff, h'.timed.linked_iff]
  constructor
  · rintro ⟨h1, h2, -, -⟩
    exact ⟨h1, Bool.eq_false_iff.mpr h2⟩
  · rintro ⟨h1, h2⟩
    have hno : ¬ s'.cpus.magic t := by
      rw [h2]
      decide
    exact ⟨h1, hno, fun hr => hno hr.1, fun hd => hno hd.1.2⟩

/-- What the two functions do behind `rt_task_delete`. -/
theorem delete_frees (h : Listed (fun _ => True) s.cpus) (hrel : Apart t rel) {d : Del} (he : delete s d c t rel = some (s', r)) :
    s'.frees t = s.frees t + 1 ∧ Listed (fun _ => True) s'.cpus ∧
      (Removed s s' t ↔ Deletable s c t) := by
  have hclr : ∃ y n, clrRtext s c t rel = some (y, n) ∧ s'.cpus = y.cpus ∧
      s'.frees t = y.frees t + 1 := by
    cases hy : clrRtext s c t rel with
    | none =>
      cases d <;>
      · simp only [delete, rtNamedTaskDelete, rtProxyDetach, rtTaskDelete, hy] at he
        exact nomatch he
    | some p =>
      obtain ⟨y, n⟩ := p
      refine ⟨y, n, rfl, ?_⟩
      cases d <;>
      · simp only [delete, rtNamedTaskDelete, rtProxyDetach, rtTaskDelete, hy] at he
        cases he
        exact ⟨rfl, Function.update_self ..⟩
  obtain ⟨y, n, hy, hcpus, hfrees⟩ := hclr
  obtain ⟨-, hsame, hl, hout⟩ := clrRtext_cases h hrel hy
  have hl' : Listed (fun _ => True) s'.cpus := by
    rw [hcpus]
    exact hl
  refine ⟨by rw [hfrees, hsame], hl', ?_⟩
  rw [removed_iff h hl', hcpus]
  rcases hout with ⟨hd, h1, h2⟩ | ⟨hd, hkept⟩
  · exact ⟨fun _ => hd, fun _ => ⟨h1, h2⟩⟩
  · rw [hkept]
    refine ⟨fun hm => ?_, fun hd' => absurd hd' hd⟩
    rw [hm.1] at hm
    exact nomatch hm.2

/-! ## Every state reached -/

theorem listed_service (h : Listed (fun _ => True) s.cpus) {m : Machine}
    {a : CpuAction T} {x : Cpus T} {o : Unit} (ha : IsService a = true)
    (he : cpuStep m s.cpus a = some (x, o)) : Listed (fun _ => True) x := by
  cases a with
  | init t linux priority cpuid => cases ha
  | delete t => cases ha
  | hold t bits resumeTime =>
    simp only [cpuStep] at he
    split at he
    · next hg =>
        obtain ⟨y, hy, he⟩ := Option.bind_eq_some_iff.mp he
        cases he
        exact h.hold trivial hg.1 hg.2.1 hg.2.2 hy
    · cases he
  | free t bits =>
    simp only [cpuStep] at he
    split at he
    · obtain ⟨y, hy, he⟩ := Option.bind_eq_some_iff.mp he
      cases he
      exact (h.free trivial hy).1
    · cases he
  | setPriority t priority =>
    simp only [cpuStep] at he
    split at he
    · obtain ⟨y, hy, he⟩ := Option.bind_eq_some_iff.mp he
      cases he
      exact h.renq hy
    · cases he
  | setTimes t period resumeTime periodicResumeTime =>
    simp only [cpuStep] at he
    split at he
    · cases he
      exact h.lists h.ready h.timed h.dead
    · cases he
  | migrate t cpuid =>
    simp only [cpuStep] at he
    split at he
    · next hm =>
        obtain ⟨y, hy, he⟩ := Option.bind_eq_some_iff.mp he
        cases he
        exact h.migrate trivial hm hy
    · cases he

theorem listed_step (h : Listed (fun _ => True) s.cpus) {m : Machine} {a : Action T S}
    (he : step m s a = some (s', r)) : Listed (fun _ => True) s'.cpus := by
  cases a with
  | create t linux priority cpuid slot =>
    obtain ⟨y, hy, he⟩ := Option.bind_eq_some_iff.mp he
    cases he
    unfold create at hy
    split at hy
    · obtain ⟨x, hx, hy⟩ := Option.bind_eq_some_iff.mp hy
      cases hy
      exact h.init hx
    · exact nomatch hy
  | service a =>
    simp only [step] at he
    split at he
    · next ha =>
        obtain ⟨⟨x, o⟩, hx, he⟩ := Option.bind_eq_some_iff.mp he
        cases he
        exact listed_service h ha hx
    · exact nomatch he
  | own t resq =>
    cases he
    exact h
  | rtTaskDelete c t rel =>
    simp only [step] at he
    split at he
    · next hrel =>
        obtain ⟨⟨y, n⟩, hy, he⟩ := Option.bind_eq_some_iff.mp he
        cases he
        exact (clrRtext_cases h hrel hy).2.2.1
    · exact nomatch he
  | delete d c t rel =>
    simp only [step] at he
    split at he
    · next hg => exact (delete_frees h hg.2 he).2.1
    · exact nomatch he

omit finT in
theorem listed_noTasks : Listed (fun _ => True) (noTasks : Cpus T) := by
  have hempty : ∀ {links : Links (Node T Nat)} {on : T → Prop},
      Rings links (fun _ => []) → (∀ t, ¬ on t) → OnRings links on := by
    intro links on R hno
    refine ⟨fun _ => [], R, fun t => ?_⟩
    constructor
    · rintro ⟨c, hc⟩
      exact nomatch hc
    · exact fun ht => absurd ht (hno t)
  have hmagic : ∀ t, ¬ (noTasks : Cpus T).magic t := fun t => by
    show ¬ false = true
    decide
  refine ⟨⟨fun _ => [], ?_, fun c t => ?_, fun _ => List.Pairwise.nil⟩,
    hempty Rings.empty fun t h => hmagic t h.1,
    hempty Rings.empty fun t h => hmagic t h.1.2, fun _ _ => rfl⟩
  · exact ⟨fun _ => ⟨rfl, rfl⟩, fun _ => List.nodup_nil, fun _ _ _ h => nomatch h⟩
  · exact ⟨fun h => (nomatch h), fun h => absurd h.1 (hmagic t)⟩

end Outcomes

/-- **STORAGE IS FREED RIGHTLY IF AND ONLY IF THE TASK CAN BE DELETED.** -/
theorem storage_freed_iff {T S : Type} [DecidableEq T] [Fintype T] (m : Machine)
    (s : Storage T S) (hrun : Reach (step m) (fun _ _ => True) start s) (d : Del)
    (c : Option T) (t : T) (rel : List (T × TaskState)) (s' : Storage T S) (r : Int)
    (h : step m s (.delete d c t rel) = some (s', r)) :
    Rightly d s s' t r ↔ s.cpus.magic t = true ∧ s.cpus.priority t ≠ RT_SCHED_LINUX_PRIORITY ∧
        (s.resq t = [] ∨ currentPriority s c = RT_SCHED_LINUX_PRIORITY) := by
  have hl : Listed (fun _ => True) s.cpus :=
    hrun.invariant listed_noTasks fun _ _ _ _ hl _ he => listed_step hl he
  simp only [step] at h
  split at h
  · next hg =>
      obtain ⟨hc, hrel⟩ := hg
      obtain ⟨hfreed, -, hremoved⟩ := delete_frees hl hrel h
      -- no task deletes itself through these two
      have hdel : Deletable s c t ↔ s.cpus.magic t = true ∧
          s.cpus.priority t ≠ RT_SCHED_LINUX_PRIORITY ∧
          (s.resq t = [] ∨ currentPriority s c = RT_SCHED_LINUX_PRIORITY) :=
        and_congr_right fun _ => and_congr_right fun _ =>
          or_congr_right (or_iff_right hc)
      rw [← hdel, ← hremoved]
      constructor
      · exact fun hr => hr.freed.mp hfreed
      · intro hr
        exact ⟨⟨fun _ => hr, fun _ => hfreed⟩, fun hno => absurd hr hno⟩
  · exact nomatch h

/-- One CPU. -/
def oneCpu : Machine where
  nrCpus := 1
  online := 1
  timerFreq := 1
  clockFreq := 1

/-- Two tasks with names, of which the second may own a resource. -/
def twoTasks (resq : List Unit) : List (Action Bool Unit) :=
  [.create true false 1 0 1, .create false false 2 0 2, .own false resq]

/-- Take the actions in turn. -/
def run (m : Machine) (s : Storage Bool Unit) :
    List (Action Bool Unit) → Option (Storage Bool Unit)
  | [] => some s
  | a :: as => do
      let (s, _) ← step m s a
      run m s as

theorem reach_run {m : Machine} {s s' : Storage Bool Unit} (as : List (Action Bool Unit))
    (h : run m s as = some s') : Reach (step m) (fun _ _ => True) s s' := by
  induction as generalizing s with
  | nil =>
    cases h
    exact Reach.refl _
  | cons a as ih =>
    obtain ⟨⟨y, r⟩, hy, h⟩ := Option.bind_eq_some_iff.mp h
    exact Relation.ReflTransGen.head ⟨a, r, trivial, hy⟩ (ih h)

/-- A task without resources is deleted, and its storage freed. -/
theorem storage_freed_iff_plain : ∃ s s' : Storage Bool Unit,
    run oneCpu start (twoTasks []) = some s ∧
    step oneCpu s (.delete .rtProxyDetach (some true) false []) = some (s', 0) ∧
    Rightly .rtProxyDetach s s' false 0 := by
  refine ⟨_, _, rfl, rfl, ?_⟩
  refine (storage_freed_iff oneCpu _ (reach_run (twoTasks []) rfl) .rtProxyDetach
    (some true) false [] _ 0 rfl).mpr ⟨rfl, ?_, Or.inl rfl⟩
  show (2 : Int) ≠ 0x7fffffff
  decide

/-- **A TASK THAT IS STILL SCHEDULED IS FREED**: it owns a resource, so that its
    deletion is put off. -/
theorem owner_freed : ∃ s s' : Storage Bool Unit,
    Reach (step oneCpu) (fun _ _ => True) start s ∧
    step oneCpu s (.delete .rtNamedTaskDelete (some true) false []) = some (s', 2) ∧
    s.frees false = 0 ∧ s'.frees false = 1 ∧ s'.slot false = 0 ∧
    Linked (taskLinks s'.cpus) false ∧
    ¬ Rightly .rtNamedTaskDelete s s' false 2 := by
  obtain ⟨s, hs⟩ : ∃ s, run oneCpu start (twoTasks [()]) = some s := ⟨_, rfl⟩
  have hrun := reach_run _ hs
  have hl : Listed (fun _ => True) s.cpus :=
    hrun.invariant listed_noTasks fun _ _ _ _ hl _ he => listed_step hl he
  cases hs
  refine ⟨_, _, hrun, rfl, rfl, rfl, rfl, ?_, ?_⟩
  · exact hl.linked_tasks.mpr rfl
  · intro hr
    exact (hr.freed.mp rfl).2.1 (hl.linked_tasks.mpr rfl)

end RtaiTaskStorage
