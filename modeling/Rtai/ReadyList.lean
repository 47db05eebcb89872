import Rtai.Steps
import Rtai.Runs

/-! # The ready list of hard tasks

    The fixed priority part of the scheduler: tasks enter the ready list, leave
    it, get other priorities and go round among their equals.  `InOrder` says
    that the ring of `rnext` and `rprev` holds the ready tasks, by priority, up
    to the Linux task, which anchors it. -/

namespace RtaiReadyList

open RtaiRings RtaiRuns RtaiKernel RtaiSchedCore RtaiTaskApi RtaiSteps

variable {T S : Type} [decT : DecidableEq T] [decS : DecidableEq S] [finT : Fintype T]
  [finS : Fintype S]

/-! ## Going behind one's equals -/

/-- The end of `rt_task_yield` and of `RR_YIELD`: the task goes behind those of
    its priority that follow it. -/
def behindEquals (k : Kernel T S) (c : T) : Option (Kernel T S) := do
  let task ← walk (fun n => some (!(k.priority c = readyPriority k n)))
    k.ready.next (taskFuel T) (k.ready.next (.elem c))
  if task ≠ k.ready.next (.elem c) then
    return { k with
      ready := (k.ready.unlink (.elem c)).insertBefore (.elem c) task }
  else return k

/-- `rt_task_yield`.  Both ways end in `rt_schedule`. -/
def rtTaskYield (k : Kernel T S) (c : T) : Option (Kernel T S) :=
  if k.ready.next (.head ()) = .elem c then behindEquals k c else some k

/-- What round robin keeps for the tasks, and `rt_times.tick_time`. -/
structure RoundRobin (T : Type) where
  allowRr : Bool
  yieldTime : T → Int
  rrQuantum : T → Int
  rrRemaining : T → Int
  tickTime : Int

/-- The result of 32 bit signed arithmetic. -/
def toInt (x : Int) : Int := x.bmod (2 ^ 32)

/-- `RR_YIELD` -/
def rrYield (rr : RoundRobin T) (k : Kernel T S) (c : T) :
    Option (RoundRobin T × Kernel T S) :=
  if rr.allowRr ∧ k.policy c > 0 then
    if rr.yieldTime c ≤ rr.tickTime then
      let rr := { rr with
        rrRemaining := Function.update rr.rrRemaining c (rr.rrQuantum c) }
      if k.state c = {.ready} then do return (rr, ← behindEquals k c)
      else some (rr, k)
    else
      some ({ rr with
        rrRemaining := Function.update rr.rrRemaining c
          (toInt (rr.yieldTime c - rr.tickTime)) }, k)
  else some (rr, k)

/-! ## The operations -/

/-- The operations on the ready list, with what their callers do to the state of
    the task. -/
inductive ReadyOp (T S : Type) where
  /-- `if ((task->state &= ~mask) == RT_SCHED_READY) enq_ready_task(task)` -/
  | enqReady (t : T) (mask : TaskState)
  /-- `rem_ready_task(task); task->state |= flag` -/
  | remReady (t : T) (flag : Flag)
  /-- `rt_current->state |= flag; rem_ready_current(rt_current)` -/
  | remCurrent (c : T) (flag : Flag)
  | renqReady (t : T) (priority : Int)
  | passPrio (dest : TaskPtr T) (src : T)
  | changePrio (t : T) (priority : Int)
  | yield (c : T)
  | rrYield (c : T)
  /-- Whatever else: time goes on, other queues and other data change. -/
  | other (rr : RoundRobin T) (k : Kernel T S)

/-- The round robin of the tasks, and the kernel. -/
abbrev ReadyState (T S : Type) := RoundRobin T × Kernel T S

/-- An insertion, a removal, or a step. -/
def readyStep : ReadyState T S → ReadyOp T S → Option (ReadyState T S × Unit)
  | (rr, k), .enqReady t mask => do
      let k := { k with
        state := Function.update k.state t (k.state t \ mask) }
      if k.state t = {.ready} then return ((rr, ← enqReadyTask k t), ())
      else return ((rr, k), ())
  | (rr, k), .remReady t flag =>
    let k := remReadyTask k t
    some ((rr, { k with
      state := Function.update k.state t (k.state t ∪ {flag}) }), ())
  | (rr, k), .remCurrent c flag =>
    let k := { k with
      state := Function.update k.state c (k.state c ∪ {flag}) }
    some ((rr, remReadyCurrent k c), ())
  | (rr, k), .renqReady t priority => do
      return ((rr, ← renqReadyTask k t priority), ())
  | (rr, k), .passPrio dest src => do return ((rr, ← passPrio k dest src), ())
  | (rr, k), .changePrio t priority => do
      return ((rr, (← rtChangePrio k t priority).1), ())
  | (rr, k), .yield c => do return ((rr, ← rtTaskYield k c), ())
  | (rr, k), .rrYield c => do return (← rrYield rr k c, ())
  | _, .other rr k => some ((rr, k), ())

/-- A priority of a task: one that `rt_task_init` takes, and above that of the
    Linux task. -/
def Legal (priority : Int) : Prop :=
  0 ≤ priority ∧ priority < RT_SCHED_LINUX_PRIORITY

/-- Nothing that concerns the ready list differs. -/
def SameReady (k k' : Kernel T S) : Prop :=
  k'.ready = k.ready ∧ k'.state = k.state ∧ k'.priority = k.priority ∧ k'.isHard = k.isHard

/-- What the callers see to: a task that is made ready was not, and it is left
    not ready when it has been removed; priorities are legal (`rt_change_prio`
    looks for negative ones itself); the current task is ready. -/
def Called : ReadyState T S → ReadyOp T S → Prop
  | (_, k), .enqReady t _ => k.state t ≠ {.ready}
  | _, .remReady _ flag => flag ≠ .ready
  | (_, k), .remCurrent c flag => k.state c = {.ready} ∧ flag ≠ .ready
  | _, .renqReady _ priority => Legal priority
  | _, .passPrio _ _ => True
  | _, .changePrio _ priority => priority < RT_SCHED_LINUX_PRIORITY
  | (_, k), .yield c => k.state c = {.ready}
  | _, .rrYield _ => True
  | (_, k), .other _ k' => SameReady k k'

/-! ## The order -/

/-- **THE READY LIST IS IN ORDER**: the ring is `l`, which is the ready tasks, by
    priority, up to the anchor. -/
structure InOrder (k : Kernel T S) (l : List T) : Prop where
  ring : Rings k.ready fun _ => l
  ready : ∀ t, t ∈ l ↔ k.state t = {.ready}
  hard : ∀ t, k.isHard t = true
  legal : ∀ t, Legal (k.priority t)
  sorted : l.Pairwise fun a b => k.priority a ≤ k.priority b

/-- What holds of the tasks that are linked, while a task that is ready is not
    yet. -/
structure Linked (k : Kernel T S) (l : List T) : Prop where
  ring : Rings k.ready fun _ => l
  hard : ∀ t, k.isHard t = true
  legal : ∀ t, Legal (k.priority t)
  sorted : l.Pairwise fun a b => k.priority a ≤ k.priority b

/-- A task has been linked into `l`, behind all of its priority or a higher one
    and before all of a lower one. -/
def Placed (k : Kernel T S) (t : T) (l l' : List T) : Prop :=
  ∃ l₁ l₂, l = l₁ ++ l₂ ∧ l' = l₁ ++ t :: l₂ ∧ (∀ a ∈ l₁, k.priority a ≤ k.priority t) ∧
    ∀ b ∈ l₂, k.priority t < k.priority b

section Insertion

variable {α : Type} {r : α → α → Prop} {l₁ l₂ : List α} {x : α}

theorem pairwise_insert (h : (l₁ ++ l₂).Pairwise r) (h1 : ∀ a ∈ l₁, r a x)
    (h2 : ∀ b ∈ l₂, r x b) : (l₁ ++ x :: l₂).Pairwise r := by
  rw [List.pairwise_append] at h ⊢
  obtain ⟨hl₁, hl₂, hboth⟩ := h
  refine ⟨hl₁, List.pairwise_cons.mpr ⟨h2, hl₂⟩, ?_⟩
  intro a ha b hb
  rcases List.mem_cons.mp hb with rfl | hb
  · exact h1 a ha
  · exact hboth a ha b hb

theorem pairwise_remove (h : (l₁ ++ x :: l₂).Pairwise r) : (l₁ ++ l₂).Pairwise r :=
  h.sublist (List.Sublist.append_left (List.sublist_cons_self x l₂) l₁)

/-- An element that is where it is, once, is taken out. -/
theorem erase_middle [DecidableEq α] (h : (l₁ ++ x :: l₂).Nodup) :
    (l₁ ++ x :: l₂).erase x = l₁ ++ l₂ := by
  rw [List.nodup_middle, List.nodup_cons] at h
  have hx : x ∉ l₁ := fun hm => h.1 (List.mem_append_left _ hm)
  rw [List.erase_append_right _ hx, List.erase_cons_head]

end Insertion

/-! ## Linking a task -/

section Linking

variable {k k' : Kernel T S} {l l₁ l₂ : List T} {t : T}

omit decT decS finT finS in
/-- Behind a task of a lower priority there are only such. -/
theorem Linked.above {p : Int} (L : Linked k (l₁ ++ l₂))
    (hhead : ∀ b ∈ l₂.head?, p < k.priority b) : ∀ b ∈ l₂, p < k.priority b := by
  cases l₂ with
  | nil => exact fun b hb => absurd hb List.not_mem_nil
  | cons a l =>
    have ha : p < k.priority a := hhead a rfl
    have hsort := (List.pairwise_append.mp L.sorted).2.1
    intro b hb
    rcases List.mem_cons.mp hb with rfl | hb
    · exact ha
    · exact lt_of_lt_of_le ha (List.rel_of_pairwise_cons hsort hb)

/-- **WHERE `enq_ready_task` LINKS A TASK**: behind all of its priority or a
    higher one, before all of a lower one. -/
theorem readyPos_place (L : Linked k l) {pos : Node T Unit} (h : readyPos k t = some pos) :
    ∃ l₁ l₂, l = l₁ ++ l₂ ∧ pos = firstOf l₂ (.head ()) ∧
      (∀ a ∈ l₁, k.priority a ≤ k.priority t) ∧
      ∀ b ∈ l₂, k.priority t < k.priority b := by
  unfold readyPos at h
  rw [L.ring.next_head ()] at h
  have hlegal := L.legal t
  cases l with
  | nil =>
    -- the Linux task is behind everything
    have hlt : k.priority t < readyPriority k (firstOf [] (.head ())) :=
      hlegal.2
    dsimp only at h
    rw [if_pos hlt] at h
    cases h
    exact ⟨[], [], rfl, rfl, nofun, nofun⟩
  | cons a l =>
    rw [firstOf_cons] at h
    dsimp only at h
    split at h
    · next hlt =>
        cases h
        refine ⟨[], a :: l, rfl, rfl, nofun, ?_⟩
        have h0 : Linked k ([] ++ a :: l) := L
        refine h0.above fun b hb => ?_
        cases hb
        exact hlt
    · next hge =>
        have h0 : (fun _ => a :: l) () = [] ++ a :: l := rfl
        rw [(L.ring.elem_links (h := ()) h0).1] at h
        have hstop : (fun n => some (decide (readyPriority k n < 0) ||
            decide (k.priority t < readyPriority k n)))
            (.head () : Node T Unit) = some true := by
          have hlt : k.priority t < RT_SCHED_LINUX_PRIORITY := hlegal.2
          simp [readyPriority, hlt]
        have h1 : (fun _ => a :: l) () = [a] ++ l := rfl
        obtain ⟨m₁, m₂, rfl, rfl, hpassed, hstopped⟩ :=
          L.ring.walk_split (h := ()) hstop h1 h
        refine ⟨a :: m₁, m₂, rfl, rfl, ?_, ?_⟩
        · intro b hb
          rcases List.mem_cons.mp hb with rfl | hb
          · exact not_lt.mp hge
          · have hb : (decide (k.priority b < 0) ||
                decide (k.priority t < k.priority b)) = false :=
              Option.some.inj (hpassed b hb)
            simp only [Bool.or_eq_false_iff, decide_eq_false_iff_not] at hb
            exact not_lt.mp hb.2
        · have h2 : Linked k ((a :: m₁) ++ m₂) := L
          refine h2.above fun b hb => ?_
          have hb : (decide (k.priority b < 0) ||
              decide (k.priority t < k.priority b)) = true :=
            Option.some.inj (hstopped b hb)
          simp only [Bool.or_eq_true, decide_eq_true_eq] at hb
          exact hb.resolve_left (not_lt.mpr (L.legal b).1)

/-- **`enq_ready_task`** -/
theorem enqReadyTask_places (L : Linked k l) (ht : t ∉ l) (h : enqReadyTask k t = some k') :
    ∃ ready l', k' = { k with ready := ready } ∧ Linked k' l' ∧
      Placed k' t l l' := by
  unfold enqReadyTask at h
  rw [if_pos (L.hard t)] at h
  obtain ⟨pos, hpos, h⟩ := Option.bind_eq_some_iff.mp h
  cases h
  obtain ⟨l₁, l₂, rfl, rfl, h1, h2⟩ := readyPos_place L hpos
  refine ⟨_, _, rfl, ⟨?_, L.hard, L.legal, ?_⟩, l₁, l₂, rfl, rfl, h1, h2⟩
  · exact L.ring.insert_single ht
  · exact pairwise_insert L.sorted h1 fun b hb => le_of_lt (h2 b hb)

end Linking

/-! ## What the operations do -/

section Operations

variable {k k' : Kernel T S} {l l₁ l₂ : List T} {c t : T} {p : Int}

omit decT decS finT finS in
theorem InOrder.nodup (O : InOrder k l) : l.Nodup :=
  O.ring.nodup ()

omit decT decS finT finS in
/-- What does not concern the ready list. -/
theorem InOrder.same (O : InOrder k l) (h : SameReady k k') : InOrder k' l := by
  obtain ⟨hready, hstate, hprio, hhard⟩ := h
  constructor
  · rw [hready]
    exact O.ring
  · rw [hstate]
    exact O.ready
  · rw [hhard]
    exact O.hard
  · rw [hprio]
    exact O.legal
  · rw [hprio]
    exact O.sorted

omit decS finT finS in
/-- A task that is not ready is put into another state. -/
theorem InOrder.setState (O : InOrder k l) (ht : k.state t ≠ {.ready})
    {s : TaskState} (hs : s ≠ {.ready}) :
    InOrder { k with state := Function.update k.state t s } l where
  ring := O.ring
  hard := O.hard
  legal := O.legal
  sorted := O.sorted
  ready := by
    intro u
    rw [O.ready]
    by_cases hu : u = t
    · subst hu
      show _ ↔ Function.update k.state u s u = _
      rw [Function.update_self]
      exact iff_of_false ht hs
    · show _ ↔ Function.update k.state t s u = _
      rw [Function.update_of_ne hu]

omit decT decS finT finS in
theorem Placed.mem {l' : List T} (h : Placed k t l l') {u : T} : u ∈ l' ↔ u = t ∨ u ∈ l := by
  obtain ⟨l₁, l₂, rfl, rfl, -, -⟩ := h
  simp only [List.mem_append, List.mem_cons]
  tauto

omit decS finT finS in
theorem Placed.erase {l' : List T} (h : Placed k t l l') (hnd : l'.Nodup) :
    l'.erase t = l := by
  obtain ⟨l₁, l₂, rfl, rfl, -, -⟩ := h
  exact erase_middle hnd

/-- **A task is made ready.** -/
theorem InOrder.enq (O : InOrder k l) (ht : k.state t ≠ {.ready})
    (h : enqReadyTask { k with
      state := Function.update k.state t {.ready} } t = some k') :
    ∃ ready l', k' = { k with
        state := Function.update k.state t {.ready}
        ready := ready } ∧ InOrder k' l' ∧ Placed k' t l l' := by
  have hout : t ∉ l := fun hm => ht ((O.ready t).mp hm)
  have L : Linked { k with state := Function.update k.state t {.ready} } l :=
    ⟨O.ring, O.hard, O.legal, O.sorted⟩
  obtain ⟨ready, l', rfl, L', P⟩ := enqReadyTask_places L hout h
  refine ⟨ready, l', rfl, ⟨L'.ring, ?_, L'.hard, L'.legal, L'.sorted⟩, P⟩
  intro u
  show u ∈ l' ↔ Function.update k.state t {.ready} u = {.ready}
  rw [P.mem]
  by_cases hu : u = t
  · subst hu
    rw [Function.update_self]
    exact iff_of_true (Or.inl rfl) rfl
  · rw [Function.update_of_ne hu, ← O.ready u]
    exact or_iff_right hu

/-- **A task leaves the list** and is not ready any more. -/
theorem InOrder.rem (O : InOrder k l) (ht : k.state t = {.ready})
    {s : TaskState} (hs : s ≠ {.ready}) :
    InOrder { k with
      ready := k.ready.unlink (.elem t)
      state := Function.update k.state t s } (l.erase t) := by
  have hmem : t ∈ l := (O.ready t).mpr ht
  have hnd := O.nodup
  obtain ⟨l₁, l₂, rfl⟩ := List.append_of_mem hmem
  rw [erase_middle hnd]
  refine ⟨O.ring.unlink_single, ?_, O.hard, O.legal, pairwise_remove O.sorted⟩
  intro u
  show u ∈ l₁ ++ l₂ ↔ Function.update k.state t s u = {.ready}
  by_cases hu : u = t
  · subst hu
    rw [List.nodup_middle, List.nodup_cons] at hnd
    rw [Function.update_self]
    exact iff_of_false hnd.1 hs
  · rw [Function.update_of_ne hu, ← O.ready u]
    simp [hu]

omit decS finT finS in
/-- A task that is not ready gets another priority. -/
theorem InOrder.setPriority (O : InOrder k l) (ht : k.state t ≠ {.ready}) (hp : Legal p) :
    InOrder { k with priority := Function.update k.priority t p } l := by
  have hne : ∀ a ∈ l, a ≠ t := by
    rintro a ha rfl
    exact ht ((O.ready a).mp ha)
  refine ⟨O.ring, O.ready, O.hard, ?_, ?_⟩
  · intro u
    show Legal (Function.update k.priority t p u)
    by_cases hu : u = t
    · subst hu
      rw [Function.update_self]
      exact hp
    · rw [Function.update_of_ne hu]
      exact O.legal u
  · refine List.Pairwise.imp_of_mem ?_ O.sorted
    intro a b ha hb hab
    show Function.update k.priority t p a ≤ Function.update k.priority t p b
    rw [Function.update_of_ne (hne a ha), Function.update_of_ne (hne b hb)]
    exact hab

/-- **A ready task gets another priority**, and is linked again. -/
theorem InOrder.moves (O : InOrder k l) (ht : k.state t = {.ready}) (hp : Legal p)
    (h : enqReadyTask { k with
      priority := Function.update k.priority t p
      ready := k.ready.unlink (.elem t) } t = some k') :
    ∃ ready l', k' = { k with
        priority := Function.update k.priority t p
        ready := ready } ∧ InOrder k' l' ∧ Placed k' t (l.erase t) l' := by
  have hmem : t ∈ l := (O.ready t).mpr ht
  have hnd := O.nodup
  -- without the task, the list is in order whatever its priority
  have hgone := O.rem ht (show (∅ : TaskState) ≠ {.ready} by decide)
  have hset := hgone.setPriority (t := t) (p := p)
    (by
      show Function.update k.state t ∅ t ≠ _
      rw [Function.update_self]
      decide) hp
  have hstate : { k with
      ready := k.ready.unlink (.elem t)
      priority := Function.update k.priority t p
      state := Function.update (Function.update k.state t ∅) t {.ready} } =
      { k with
        priority := Function.update k.priority t p
        ready := k.ready.unlink (.elem t) } := by
    rw [Function.update_idem, ← ht, Function.update_eq_self]
  have hne : Function.update k.state t ∅ t ≠ {.ready} := by
    rw [Function.update_self]
    decide
  rw [← hstate] at h
  obtain ⟨ready, l', rfl, O', P⟩ := hset.enq hne h
  refine ⟨ready, l', ?_, O', P⟩
  rw [Function.update_idem, ← ht, Function.update_eq_self]

theorem lastOf_concat {α H : Type} {l : List α} {a : α} {x : Node α H} :
    lastOf x (l ++ [a]) = .elem a := by
  induction l generalizing x with
  | nil => rfl
  | cons b l ih => exact ih

/-- **A ready task gets another priority and stays where it is**, between
    neighbours that allow it. -/
theorem InOrder.stays (O : InOrder k (l₁ ++ t :: l₂)) (hp : Legal p)
    (hprev : ∀ a ∈ l₁.getLast?, k.priority a ≤ p)
    (hnext : ∀ b ∈ l₂.head?, p ≤ k.priority b) :
    InOrder { k with priority := Function.update k.priority t p } (l₁ ++ t :: l₂) := by
  have hnd := O.nodup
  rw [List.nodup_middle, List.nodup_cons] at hnd
  have hne : ∀ a ∈ l₁ ++ l₂, a ≠ t := by
    rintro a ha rfl
    exact hnd.1 ha
  have hsort := pairwise_remove O.sorted
  have h1 : ∀ a ∈ l₁, k.priority a ≤ p := by
    rcases List.eq_nil_or_concat' l₁ with rfl | ⟨l, b, rfl⟩
    · exact nofun
    · -- the last of them is the lowest
      have hb : k.priority b ≤ p := hprev b (by simp)
      intro a ha
      rcases List.mem_append.mp ha with ha | ha
      · have hall := (List.pairwise_append.mp (List.pairwise_append.mp hsort).1).2.2
        exact le_trans (hall a ha b List.mem_cons_self) hb
      · obtain rfl := List.mem_singleton.mp ha
        exact hb
  have h2 : ∀ b ∈ l₂, p ≤ k.priority b := by
    cases l₂ with
    | nil => exact nofun
    | cons a l =>
      have ha : p ≤ k.priority a := hnext a rfl
      have hl := (List.pairwise_append.mp hsort).2.1
      intro b hb
      rcases List.mem_cons.mp hb with rfl | hb
      · exact ha
      · exact le_trans ha (List.rel_of_pairwise_cons hl hb)
  have hself : Function.update k.priority t p t = p := Function.update_self ..
  have hother : ∀ a ∈ l₁ ++ l₂, Function.update k.priority t p a = k.priority a :=
    fun a ha => Function.update_of_ne (hne a ha) ..
  refine ⟨O.ring, O.ready, O.hard, ?_, ?_⟩
  · intro u
    show Legal (Function.update k.priority t p u)
    by_cases hu : u = t
    · subst hu
      rw [hself]
      exact hp
    · rw [Function.update_of_ne hu]
      exact O.legal u
  · show (l₁ ++ t :: l₂).Pairwise fun a b =>
      Function.update k.priority t p a ≤ Function.update k.priority t p b
    apply pairwise_insert
    · refine List.Pairwise.imp_of_mem ?_ hsort
      intro a b ha hb hab
      rw [hother a ha, hother b hb]
      exact hab
    · intro a ha
      rw [hself, hother a (List.mem_append_left _ ha)]
      exact h1 a ha
    · intro b hb
      rw [hself, hother b (List.mem_append_right _ hb)]
      exact h2 b hb

end Operations

/-! ## New priorities -/

/-- The list is as before, or one task has been linked again. -/
def Relinked (k : Kernel T S) (u : T) (l l' : List T) : Prop :=
  l' = l ∨ u ∈ l ∧ Placed k u (l.erase u) l'

/-- Priorities change, and the lists that go by them. -/
def Rearranges (k k' : Kernel T S) : Prop :=
  ∃ priority ready queue, k' = { k with
    priority := priority
    ready := ready
    queue := queue }

section Priorities

variable {k k' : Kernel T S} {l : List T} {c t : T} {p : Int}

omit decT decS finT finS in
theorem Rearranges.refl (k : Kernel T S) : Rearranges k k :=
  ⟨k.priority, k.ready, k.queue, rfl⟩

omit decT decS finT finS in
theorem Rearranges.trans {k₁ k₂ k₃ : Kernel T S} (h : Rearranges k₁ k₂)
    (h' : Rearranges k₂ k₃) : Rearranges k₁ k₃ := by
  obtain ⟨_, _, _, rfl⟩ := h
  obtain ⟨_, _, _, rfl⟩ := h'
  exact ⟨_, _, _, rfl⟩

/-- **`renq_ready_task`** -/
theorem renqReadyTask_inOrder (O : InOrder k l) (hp : Legal p)
    (h : renqReadyTask k t p = some k') :
    ∃ l', InOrder k' l' ∧ Rearranges k k' ∧ Relinked k' t l l' ∧
      k'.priority = Function.update k.priority t p := by
  unfold renqReadyTask at h
  split at h
  · next hsame =>
      cases h
      refine ⟨l, O, Rearranges.refl k, Or.inl rfl, ?_⟩
      rw [← hsame, Function.update_eq_self]
  · dsimp only at h
    split at h
    · next hready =>
        obtain ⟨ready, l', rfl, O', P⟩ := O.moves hready hp h
        exact ⟨l', O', ⟨_, _, _, rfl⟩, Or.inr ⟨(O.ready t).mpr hready, P⟩, rfl⟩
    · next hready =>
        cases h
        exact ⟨l, O.setPriority hready hp, ⟨_, _, _, rfl⟩, Or.inl rfl, rfl⟩

/-- **One round of `pass_prio` and `rt_change_prio`**: only a ready task moves,
    and the round is the last then. -/
theorem givePriority_inOrder {next : TaskPtr T} (O : InOrder k l) (hp : Legal p)
    (h : givePriority k t p = some (k', next)) :
    ∃ l', InOrder k' l' ∧ Rearranges k k' ∧ k'.priority = Function.update k.priority t p ∧
      Relinked k' t l l' ∧ (l' = l ∨ next = .null) := by
  simp only [givePriority] at h
  split at h
  · next hready =>
      have hmem : t ∈ l := (O.ready t).mpr hready
      split at h
      · -- a neighbour stands wrong
        obtain ⟨k₁, hk₁, h⟩ := Option.bind_eq_some_iff.mp h
        cases h
        obtain ⟨ready, l', rfl, O', P⟩ := O.moves hready hp hk₁
        exact ⟨l', O', ⟨_, _, _, rfl⟩, rfl, Or.inr ⟨hmem, P⟩, Or.inr rfl⟩
      · next htest =>
          cases h
          obtain ⟨l₁, l₂, rfl⟩ := List.append_of_mem hmem
          have hlinks := O.ring.elem_links (h := ()) (a := t) rfl
          rw [hlinks.1, hlinks.2, not_or, not_lt, not_lt] at htest
          have hnd := O.nodup
          rw [List.nodup_middle, List.nodup_cons] at hnd
          refine ⟨_, O.stays hp ?_ ?_, ⟨_, _, _, rfl⟩, rfl, Or.inl rfl, Or.inl rfl⟩
          · intro a ha
            rcases List.eq_nil_or_concat' l₁ with rfl | ⟨l, b, rfl⟩
            · exact nomatch ha
            · have hab : b = a := by simpa using ha
              subst hab
              have hb : b ≠ t := by
                rintro rfl
                exact hnd.1 (by simp)
              have hle := htest.1
              rw [lastOf_concat] at hle
              simp only [readyPriority, Function.update_of_ne hb] at hle
              exact hle
          · intro b hb
            cases l₂ with
            | nil => exact nomatch hb
            | cons a l =>
              cases hb
              have hb : b ≠ t := by
                rintro rfl
                exact hnd.1 (by simp)
              have hle := htest.2
              rw [firstOf_cons] at hle
              simp only [readyPriority, Function.update_of_ne hb] at hle
              exact hle
  · next hready =>
      have O₁ := O.setPriority hready hp
      obtain ⟨b, -, h⟩ := Option.bind_eq_some_iff.mp h
      cases b with
      | false =>
        cases h
        exact ⟨l, O₁, ⟨_, _, _, rfl⟩, rfl, Or.inl rfl, Or.inl rfl⟩
      | true =>
        simp only [if_pos] at h
        split at h
        · split at h
          · obtain ⟨n, -, h⟩ := Option.bind_eq_some_iff.mp h
            cases h
            exact ⟨l, O₁, ⟨_, _, _, rfl⟩, rfl, Or.inl rfl, Or.inl rfl⟩
          · -- it is moved in its wait queue
            obtain ⟨k₁, hk₁, h⟩ := Option.bind_eq_some_iff.mp h
            obtain ⟨pos, -, hk₁⟩ := Option.bind_eq_some_iff.mp hk₁
            cases hk₁
            split at h
            · obtain ⟨n, -, h⟩ := Option.bind_eq_some_iff.mp h
              cases h
              exact ⟨l, O₁.same ⟨rfl, rfl, rfl, rfl⟩, ⟨_, _, _, rfl⟩, rfl,
                Or.inl rfl, Or.inl rfl⟩
            · cases h
              exact ⟨l, O₁.same ⟨rfl, rfl, rfl, rfl⟩, ⟨_, _, _, rfl⟩, rfl,
                Or.inl rfl, Or.inl rfl⟩
        · exact nomatch h

/-- Tasks below `p` have been raised to it, and one of them has been linked
    again if it was ready. -/
def Raises (p : Int) (k k' : Kernel T S) (l l' : List T) : Prop :=
  Rearranges k k' ∧ (∀ v, k'.priority v = k.priority v ∨ p < k.priority v) ∧
    (l' = l ∨ ∃ u ∈ l, Placed k' u (l.erase u) l' ∧ p < k.priority u)

/-- **`pass_prio`** -/
theorem passLoop_inOrder {fuel : Nat} {dest : TaskPtr T} (O : InOrder k l)
    (hp : Legal p) (h : passLoop fuel k dest p = some k') :
    ∃ l', InOrder k' l' ∧ Raises p k k' l l' := by
  have hstop : ∃ l', InOrder k l' ∧ Raises p k k l l' :=
    ⟨l, O, Rearranges.refl k, fun _ => Or.inl rfl, Or.inl rfl⟩
  induction fuel generalizing k dest with
  | zero =>
    cases dest with
    | null =>
      cases h
      exact hstop
    | higerr => exact nomatch h
    | task t => exact nomatch h
  | succ fuel ih =>
    cases dest with
    | null =>
      cases h
      exact hstop
    | higerr => exact nomatch h
    | task t =>
      simp only [passLoop] at h
      split at h
      · next hlt =>
          obtain ⟨⟨k₁, next⟩, hk₁, h⟩ := Option.bind_eq_some_iff.mp h
          obtain ⟨l₁, O₁, hre, hprio, hlink, hone⟩ :=
            givePriority_inOrder O hp hk₁
          have hother : ∀ v, k₁.priority v = k.priority v ∨ p < k.priority v := by
            intro v
            rw [hprio]
            by_cases hv : v = t
            · subst hv
              exact Or.inr hlt
            · exact Or.inl (Function.update_of_ne hv ..)
          by_cases hnull : next = .null
          · -- the walk ends here
            subst hnull
            have hend : k' = k₁ := by
              cases fuel <;> exact (Option.some.inj h).symm
            subst hend
            refine ⟨l₁, O₁, hre, hother, ?_⟩
            rcases hlink with hsame | ⟨hmem, P⟩
            · exact Or.inl hsame
            · exact Or.inr ⟨t, hmem, P, hlt⟩
          · obtain rfl := hone.resolve_right hnull
            obtain ⟨l', O', hre', hprio', hlink'⟩ := ih O₁ h
              ⟨l₁, O₁, Rearranges.refl k₁, fun _ => Or.inl rfl, Or.inl rfl⟩
            have hback : ∀ v, p < k₁.priority v → p < k.priority v := by
              intro v hv
              rcases hother v with heq | hgt
              · exact heq ▸ hv
              · exact hgt
            refine ⟨l', O', hre.trans hre', ?_, ?_⟩
            · intro v
              rcases hprio' v with heq | hgt
              · exact (hother v).imp_left heq.trans
              · exact Or.inr (hback v hgt)
            · rcases hlink' with hsame | ⟨u, hu, P, hgt⟩
              · exact Or.inl hsame
              · exact Or.inr ⟨u, hu, P, hback u hgt⟩
      · cases h
        exact hstop

end Priorities

/-! ## The relative order of the other tasks -/

/-- At most one task has been moved, linked or unlinked. -/
def OneMoved (x : T) (l l' : List T) : Prop :=
  l'.erase x = l.erase x

section Moving

variable {k k' : Kernel T S} {l l' : List T} {c t u : T} {p : Int}

theorem Relinked.oneMoved (O : InOrder k' l') (h : Relinked k' u l l') :
    OneMoved u l l' := by
  rcases h with rfl | ⟨-, P⟩
  · rfl
  · exact P.erase O.nodup

/-- **`rt_change_prio`**: the first task gets the priority whatever it is. -/
theorem rtChangePrio_inOrder {r : Outcome T S} (O : InOrder k l)
    (hp : p < RT_SCHED_LINUX_PRIORITY) (h : rtChangePrio k t p = some r) :
    ∃ l', InOrder r.1 l' ∧ (l' = l ∨ ∃ x, OneMoved x l l') := by
  unfold rtChangePrio at h
  split at h
  · cases h
    exact ⟨l, O, Or.inl rfl⟩
  · next hok =>
      have hpos : 0 ≤ p := by
        by_contra hneg
        exact hok (by simp [not_le.mp hneg])
      have hlegal : Legal p := ⟨hpos, hp⟩
      simp only [O.hard t, Bool.not_true, Bool.false_and, Bool.false_eq_true, if_false] at h
      have O₁ : InOrder { k with
          basePriority := Function.update k.basePriority t p } l :=
        O.same ⟨rfl, rfl, rfl, rfl⟩
      split at h
      · obtain ⟨⟨k₁, next⟩, hk₁, h⟩ := Option.bind_eq_some_iff.mp h
        obtain ⟨k₂, hk₂, h⟩ := Option.bind_eq_some_iff.mp h
        cases h
        obtain ⟨l₁, O₂, -, -, hlink, hone⟩ := givePriority_inOrder O₁ hlegal hk₁
        by_cases hnull : next = .null
        · subst hnull
          have hend : k₂ = k₁ := (Option.some.inj hk₂).symm
          subst hend
          exact ⟨l₁, O₂, Or.inr ⟨t, hlink.oneMoved O₂⟩⟩
        · obtain rfl := hone.resolve_right hnull
          obtain ⟨l', O', -, -, hmoved⟩ := passLoop_inOrder O₂ hlegal hk₂
          refine ⟨l', O', hmoved.imp_right ?_⟩
          rintro ⟨u, -, P, -⟩
          exact ⟨u, P.erase O'.nodup⟩
      · cases h
        exact ⟨l, O₁, Or.inl rfl⟩

/-- **GOING BEHIND ONE'S EQUALS** -/
theorem behindEquals_inOrder (O : InOrder k l) (hc : k.state c = {.ready})
    (h : behindEquals k c = some k') :
    ∃ ready l', k' = { k with ready := ready } ∧ InOrder k' l' ∧
      OneMoved c l l' := by
  have hmem : c ∈ l := (O.ready c).mpr hc
  obtain ⟨l₁, l₂, rfl⟩ := List.append_of_mem hmem
  have hnd := O.nodup
  obtain ⟨pos, hpos, h⟩ := Option.bind_eq_some_iff.mp h
  rw [(O.ring.elem_links (h := ()) rfl).1] at hpos
  have hstop : (fun n => some (!decide (k.priority c = readyPriority k n)))
      (.head () : Node T Unit) = some true := by
    have hne : k.priority c ≠ RT_SCHED_LINUX_PRIORITY := ne_of_lt (O.legal c).2
    simp [readyPriority, hne]
  have h0 : (fun _ => l₁ ++ c :: l₂) () = (l₁ ++ [c]) ++ l₂ := by simp
  obtain ⟨m₁, m₂, rfl, rfl, hequal, -⟩ :=
    O.ring.walk_split (h := ()) hstop h0 hpos
  have heq : ∀ a ∈ m₁, k.priority a = k.priority c := by
    intro a ha
    have ha : (!decide (k.priority c = readyPriority k (.elem a))) = false :=
      Option.some.inj (hequal a ha)
    rw [Bool.not_eq_false'] at ha
    exact (of_decide_eq_true ha).symm
  split at h
  · cases h
    have hring : Rings (k.ready.unlink (.elem c)) fun _ => (l₁ ++ m₁) ++ m₂ := by
      rw [List.append_assoc]
      exact O.ring.unlink_single
    have hout : c ∉ (l₁ ++ m₁) ++ m₂ := by
      rw [List.append_assoc]
      rw [List.nodup_middle, List.nodup_cons] at hnd
      exact hnd.1
    have hsort := pairwise_remove O.sorted
    rw [← List.append_assoc] at hsort
    have hcons := List.pairwise_append.mp O.sorted
    refine ⟨_, (l₁ ++ m₁) ++ c :: m₂, rfl, ⟨hring.insert_single hout, ?_, O.hard,
      O.legal, ?_⟩, ?_⟩
    · intro u
      show _ ↔ k.state u = {.ready}
      rw [← O.ready u]
      simp only [List.mem_append, List.mem_cons]
      tauto
    · apply pairwise_insert hsort
      · intro a ha
        rcases List.mem_append.mp ha with ha | ha
        · exact hcons.2.2 a ha c List.mem_cons_self
        · exact le_of_eq (heq a ha)
      · intro b hb
        have hbm : b ∈ m₁ ++ m₂ := List.mem_append_right _ hb
        exact List.rel_of_pairwise_cons hcons.2.1 hbm
    · have hnd' : ((l₁ ++ m₁) ++ c :: m₂).Nodup := by
        rw [List.nodup_middle, List.nodup_cons]
        exact ⟨hout, hring.nodup ()⟩
      unfold OneMoved
      rw [erase_middle hnd', erase_middle hnd, List.append_assoc]
  · cases h
    exact ⟨_, _, rfl, O, rfl⟩

end Moving

/-! ## Every operation -/

/-- What an operation may do to the list: a task that is made ready goes behind
    its equals, and no other than the task that it is about, or that gets another
    priority, is moved. -/
def Orderly (k' : Kernel T S) (l l' : List T) : ReadyOp T S → Prop
  | .enqReady t _ =>
    if k'.state t = {.ready} then Placed k' t l l' else l' = l
  | .remReady t _ => OneMoved t l l'
  | .remCurrent c _ => OneMoved c l l'
  | .renqReady t _ => OneMoved t l l'
  | .passPrio _ _ => l' = l ∨ ∃ x, OneMoved x l l'
  | .changePrio _ _ => l' = l ∨ ∃ x, OneMoved x l l'
  | .yield c => OneMoved c l l'
  | .rrYield c => OneMoved c l l'
  | .other _ _ => l' = l

section Steps

variable {k k' : Kernel T S} {rr rr' : RoundRobin T} {l : List T} {c : T}

theorem rrYield_inOrder (O : InOrder k l) (h : rrYield rr k c = some (rr', k')) :
    ∃ l', InOrder k' l' ∧ OneMoved c l l' := by
  unfold rrYield at h
  split at h
  · split at h
    · dsimp only at h
      split at h
      · next hready =>
          obtain ⟨k₁, hk₁, h⟩ := Option.bind_eq_some_iff.mp h
          cases h
          obtain ⟨_, l', -, O', hmoved⟩ := behindEquals_inOrder O hready hk₁
          exact ⟨l', O', hmoved⟩
      · cases h
        exact ⟨l, O, rfl⟩
    · cases h
      exact ⟨l, O, rfl⟩
  · cases h
    exact ⟨l, O, rfl⟩

/-- A state with a bit that is not `RT_SCHED_READY` is not ready. -/
theorem union_ne_ready (s : TaskState) {flag : Flag} (h : flag ≠ .ready) :
    s ∪ {flag} ≠ {.ready} := by
  intro heq
  have hmem : flag ∈ s ∪ {flag} :=
    Finset.mem_union_right _ (Finset.mem_singleton_self flag)
  rw [heq] at hmem
  exact h (Finset.mem_singleton.mp hmem)

/-- **EVERY OPERATION KEEPS THE ORDER.** -/
theorem InOrder.step (O : InOrder k l) {op : ReadyOp T S}
    (hcall : Called (rr, k) op) {s' : ReadyState T S} {o : Unit}
    (h : readyStep (rr, k) op = some (s', o)) :
    ∃ l', InOrder s'.2 l' ∧ Orderly s'.2 l l' op := by
  cases op with
  | enqReady t mask =>
    simp only [readyStep] at h
    split at h
    · next hready =>
        obtain ⟨k₁, hk₁, h⟩ := Option.bind_eq_some_iff.mp h
        cases h
        have hst : k.state t \ mask = {.ready} := by
          simpa using hready
        rw [hst] at hk₁
        obtain ⟨ready, l', rfl, O', P⟩ := O.enq hcall hk₁
        refine ⟨l', O', ?_⟩
        simp only [Orderly]
        rw [if_pos ((O'.ready t).mp (P.mem.mpr (Or.inl rfl)))]
        exact P
    · next hready =>
        cases h
        refine ⟨l, O.setState hcall (by simpa using hready), ?_⟩
        show if Function.update k.state t (k.state t \ mask) t = {.ready} then
          Placed _ t l l else l = l
        rw [if_neg hready]
  | remReady t flag =>
    cases h
    have hne := union_ne_ready (k.state t) hcall
    by_cases hready : k.state t = {.ready}
    · refine ⟨l.erase t, ?_, List.erase_of_not_mem ?_⟩
      · simp only [remReadyTask, if_pos hready]
        exact O.rem hready hne
      · exact fun hm => (O.nodup.mem_erase_iff.mp hm).1 rfl
    · refine ⟨l, ?_, rfl⟩
      simp only [remReadyTask, if_neg hready]
      exact O.setState hready hne
  | remCurrent c flag =>
    cases h
    obtain ⟨hready, hflag⟩ := hcall
    refine ⟨l.erase c, ?_, List.erase_of_not_mem ?_⟩
    · simp only [remReadyCurrent, if_pos (O.hard c)]
      exact O.rem hready (union_ne_ready (k.state c) hflag)
    · exact fun hm => (O.nodup.mem_erase_iff.mp hm).1 rfl
  | renqReady t priority =>
    obtain ⟨k₁, hk₁, h⟩ := Option.bind_eq_some_iff.mp h
    cases h
    obtain ⟨l', O', -, hlink, -⟩ := renqReadyTask_inOrder O hcall hk₁
    exact ⟨l', O', hlink.oneMoved O'⟩
  | passPrio dest src =>
    obtain ⟨k₁, hk₁, h⟩ := Option.bind_eq_some_iff.mp h
    cases h
    obtain ⟨l', O', -, -, hlink⟩ := passLoop_inOrder O (O.legal src) hk₁
    refine ⟨l', O', hlink.imp_right ?_⟩
    rintro ⟨u, -, P, -⟩
    exact ⟨u, P.erase O'.nodup⟩
  | changePrio t priority =>
    obtain ⟨r, hr, h⟩ := Option.bind_eq_some_iff.mp h
    cases h
    exact rtChangePrio_inOrder O hcall hr
  | yield c =>
    obtain ⟨k₁, hk₁, h⟩ := Option.bind_eq_some_iff.mp h
    cases h
    unfold rtTaskYield at hk₁
    split at hk₁
    · obtain ⟨_, l', -, O', hmoved⟩ := behindEquals_inOrder O hcall hk₁
      exact ⟨l', O', hmoved⟩
    · cases hk₁
      exact ⟨l, O, rfl⟩
  | rrYield c =>
    obtain ⟨⟨rr', k₁⟩, hk₁, h⟩ := Option.bind_eq_some_iff.mp h
    cases h
    exact rrYield_inOrder O hk₁
  | other rr' k₁ =>
    cases h
    exact ⟨l, O.same hcall, rfl⟩

/-! ## No operation goes round for ever -/

/-- There are no more tasks in the list than a walk has steps. -/
theorem InOrder.length_le (O : InOrder k l) {l₁ l₂ : List T}
    (h : l = l₁ ++ l₂) : l₂.length < taskFuel T := by
  have hle := O.nodup.length_le_card
  rw [h, List.length_append] at hle
  unfold taskFuel
  omega

omit decS finS in
theorem enqReadyTask_returns {ring : Links (Node T Unit)}
    (R : Rings ring fun _ => l) (hle : l.length ≤ Fintype.card T)
    (hring : k.ready = ring) (t : T)
    (hp : k.priority t < RT_SCHED_LINUX_PRIORITY) :
    ∃ k', enqReadyTask k t = some k' := by
  subst hring
  unfold enqReadyTask
  split
  · have hpos : ∃ pos, readyPos k t = some pos := by
      unfold readyPos
      rw [R.next_head ()]
      cases l with
      | nil =>
        exact ⟨_, if_pos hp⟩
      | cons a l =>
        rw [firstOf_cons]
        dsimp only
        split
        · exact ⟨_, rfl⟩
        · have h0 : (fun _ => a :: l) () = [] ++ a :: l := rfl
          have h1 : (fun _ => a :: l) () = [a] ++ l := rfl
          rw [(R.elem_links (h := ()) h0).1]
          refine R.walk_ends (h := ()) ?_ (fun _ => Option.some_ne_none _) h1 ?_
          · simp [readyPriority, hp]
          · rw [List.length_cons] at hle
            unfold taskFuel
            omega
    obtain ⟨pos, hpos⟩ := hpos
    exact ⟨_, by rw [hpos]; rfl⟩
  · exact ⟨_, rfl⟩

theorem behindEquals_returns (O : InOrder k l) (hc : k.state c = {.ready}) :
    ∃ k', behindEquals k c = some k' := by
  obtain ⟨l₁, l₂, rfl⟩ := List.append_of_mem ((O.ready c).mpr hc)
  have h0 : l₁ ++ c :: l₂ = (l₁ ++ [c]) ++ l₂ := by simp
  have hwalk : ∃ p, walk (fun n => some (!decide (k.priority c = readyPriority k n)))
      k.ready.next (taskFuel T) (k.ready.next (.elem c)) = some p := by
    rw [(O.ring.elem_links (h := ()) rfl).1]
    refine O.ring.walk_ends (h := ()) ?_ (fun _ => Option.some_ne_none _) h0 (O.length_le h0)
    have hne : k.priority c ≠ RT_SCHED_LINUX_PRIORITY := ne_of_lt (O.legal c).2
    simp [readyPriority, hne]
  obtain ⟨p, hp⟩ := hwalk
  unfold behindEquals
  rw [hp]
  simp only [Option.bind_eq_bind, Option.bind_some]
  split
  · exact ⟨_, rfl⟩
  · exact ⟨_, rfl⟩

/-- The operations that do not follow `blocked_on`. -/
def ReadyOp.isLocal : ReadyOp T S → Bool
  | .passPrio _ _ => false
  | .changePrio _ _ => false
  | _ => true

theorem InOrder.returns (O : InOrder k l) {op : ReadyOp T S}
    (hcall : Called (rr, k) op) (hlocal : op.isLocal = true) :
    ∃ r, readyStep (rr, k) op = some r := by
  have hle := O.nodup.length_le_card
  cases op with
  | enqReady t mask =>
    simp only [readyStep]
    split
    · obtain ⟨k', hk'⟩ := enqReadyTask_returns (k := { k with
        state := Function.update k.state t (k.state t \ mask) }) O.ring hle rfl
        t (O.legal t).2
      rw [hk']
      exact ⟨_, rfl⟩
    · exact ⟨_, rfl⟩
  | remReady t flag => exact ⟨_, rfl⟩
  | remCurrent c flag => exact ⟨_, rfl⟩
  | renqReady t priority =>
    have hrenq : ∃ k', renqReadyTask k t priority = some k' := by
      unfold renqReadyTask
      split
      · exact ⟨_, rfl⟩
      · dsimp only
        split
        · next hready =>
            have hnd := O.nodup
            obtain ⟨l₁, l₂, rfl⟩ := List.append_of_mem ((O.ready t).mpr hready)
            have hle' : (l₁ ++ l₂).length ≤ Fintype.card T := by
              refine le_trans ?_ hle
              simp
            have hp : Legal (Function.update k.priority t priority t) := by
              rw [Function.update_self]
              exact hcall
            refine enqReadyTask_returns (k := { k with
              priority := Function.update k.priority t priority
              ready := k.ready.unlink (.elem t) }) O.ring.unlink_single hle'
              rfl t ?_
            exact hp.2
        · exact ⟨_, rfl⟩
    obtain ⟨k', hk'⟩ := hrenq
    refine ⟨((rr, k'), ()), ?_⟩
    simp only [readyStep, hk']
    rfl
  | passPrio dest src => exact nomatch hlocal
  | changePrio t priority => exact nomatch hlocal
  | yield c =>
    obtain ⟨k', hk'⟩ := behindEquals_returns O hcall
    simp only [readyStep, rtTaskYield]
    split
    · rw [hk']
      exact ⟨_, rfl⟩
    · exact ⟨_, rfl⟩
  | rrYield c =>
    simp only [readyStep, rrYield]
    split
    · split
      · split
        · next hready =>
            obtain ⟨k', hk'⟩ := behindEquals_returns O hready
            rw [hk']
            exact ⟨_, rfl⟩
        · exact ⟨_, rfl⟩
      · exact ⟨_, rfl⟩
    · exact ⟨_, rfl⟩
  | other rr' k' => exact ⟨_, rfl⟩

end Steps

omit decS finT finS in
/-- To begin with no task is ready. -/
theorem inOrder_boot (cfg : Config T S) (hhard : ∀ t, cfg.hard t = true)
    (hprio : ∀ t, (cfg.priority t : Int) < RT_SCHED_LINUX_PRIORITY) :
    InOrder (boot cfg) [] where
  ring := Rings.empty
  ready := by
    intro t
    refine iff_of_false List.not_mem_nil ?_
    simp only [boot, hhard t, if_true]
    decide
  hard := hhard
  legal := by
    intro t
    simp only [boot, hhard t, if_true]
    exact ⟨Int.natCast_nonneg _, hprio t⟩
  sorted := List.Pairwise.nil

/-- **FIXED PRIORITY ORDER OF THE READY LIST**: in every state that is reached
    by the operations, the ready list is the ready tasks by priority, a task
    that is made ready stands behind its equals, and every operation leaves the
    order of the other tasks alone.  Those that do not follow `blocked_on` come
    to an end. -/
theorem ready_list_in_order (cfg : Config T S) (rr : RoundRobin T)
    (hhard : ∀ t, cfg.hard t = true)
    (hprio : ∀ t, (cfg.priority t : Int) < RT_SCHED_LINUX_PRIORITY)
    {s : ReadyState T S} (h : Reach readyStep Called (rr, boot cfg) s) :
    ∃ l, InOrder s.2 l ∧ (∀ op s' o, Called s op → readyStep s op = some (s', o) →
        ∃ l', InOrder s'.2 l' ∧ Orderly s'.2 l l' op) ∧
      ∀ op, Called s op → op.isLocal = true → ∃ r, readyStep s op = some r := by
  have hinv : ∃ l, InOrder s.2 l := by
    refine h.invariant (I := fun s => ∃ l, InOrder s.2 l) ⟨[], inOrder_boot cfg hhard hprio⟩ ?_
    rintro s op s' o ⟨l, O⟩ hcall hstep
    obtain ⟨l', O', -⟩ := O.step hcall hstep
    exact ⟨l', O'⟩
  -- the list exists in every state, so it can be followed
  obtain ⟨l, O⟩ := hinv
  refine ⟨l, O, ?_, ?_⟩
  · intro op s' o hcall hstep
    exact O.step hcall hstep
  · intro op hcall hlocal
    exact O.returns hcall hlocal

/-- Two tasks of one priority, both hard. -/
def equals : Config Bool Unit where
  hard := fun _ => true
  priority := fun _ => 5
  receiver := fun _ => none
  schedlat := fun _ => 0
  linuxSchedlat := 0
  sems := fun _ => ⟨.cntSem, 0, false⟩
  time := 0

/-- No task has a quantum. -/
def noRoundRobin : RoundRobin Bool where
  allowRr := false
  yieldTime := fun _ => 0
  rrQuantum := fun _ => 0
  rrRemaining := fun _ => 0
  tickTime := 0

/-- The first of them yields. -/
theorem ready_list_in_order_equals :
    ∃ s : ReadyState Bool Unit, s.2.ready.next (.head ()) = .elem false ∧
      ∃ l, InOrder s.2 l ∧ (∀ op s' o, Called s op → readyStep s op = some (s', o) →
          ∃ l', InOrder s'.2 l' ∧ Orderly s'.2 l l' op) ∧
        ∀ op, Called s op → op.isLocal = true → ∃ r, readyStep s op = some r := by
  have h0 : Reach readyStep Called (noRoundRobin, boot equals)
      (noRoundRobin, boot equals) := .refl _
  have h1 := h0.tail (a := .enqReady true {.suspended}) (o := ())
    (show (boot equals).state true ≠ {.ready} by decide) rfl
  have h2 := h1.tail (a := .enqReady false {.suspended}) (o := ())
    (by simp only [Called]; decide) rfl
  have h3 := h2.tail (a := .yield true) (o := ()) (by simp only [Called]; decide) rfl
  exact ⟨_, by decide, ready_list_in_order equals noRoundRobin
    (fun _ => rfl) (fun _ => show (5 : Int) < 0x7fffffff by decide) h3⟩

omit decT decS finT finS in
/-- A ready task is not in the list that the anchor leads to. -/
theorem not_inOrder_of_lost {k : Kernel T S} {a b : T} (hab : a ≠ b)
    (hb : k.state b = {.ready}) (h1 : k.ready.next (.head ()) = .elem a)
    (h2 : k.ready.next (.elem a) = .head ()) : ¬ ∃ l, InOrder k l := by
  rintro ⟨l, O⟩
  rw [O.ring.next_head] at h1
  obtain ⟨l₂, hl⟩ : ∃ l₂, l = [] ++ a :: l₂ := by
    cases l with
    | nil => exact nomatch h1
    | cons u l₂ => exact ⟨l₂, by rw [Node.elem.inj h1, List.nil_append]⟩
  have hnext := (O.ring.elem_links (h := ()) hl).1
  rw [h2] at hnext
  have hnil : l₂ = [] := by
    cases l₂ with
    | nil => rfl
    | cons u l₃ => exact nomatch hnext
  have hmem := (O.ready b).mpr hb
  rw [hl, hnil, List.nil_append, List.mem_singleton] at hmem
  exact hab hmem.symm

/-- The two tasks, and a resource. -/
def equalOwners : Config Bool Unit :=
  { equals with sems := fun _ => ⟨.resSem 1, 1, false⟩ }

/-- A task that owns the resource is suspended, which is registered, and then
    resumed while it is ready. -/
def resumedOwner : List (RtaiSteps.Action Bool Unit) :=
  [.linux (.resume true), .dispatch true, .call true (.semWait ()),
    .linux (.resume false), .linux (.suspend true), .linux (.resume true)]

/-- **A READY TASK IS LOST** when another one that is ready is made ready again,
    as `rt_task_resume` does with an owner whose suspension is registered. -/
theorem ready_task_lost : (∃ s : ReadyState Bool Unit,
      Reach readyStep (fun _ _ => True) (noRoundRobin, boot equals) s ∧
      ¬ ∃ l, InOrder s.2 l) ∧
    ∃ k : Kernel Bool Unit, Reach exec (fun _ _ => True) (boot equalOwners) k ∧
      ¬ ∃ l, InOrder k l := by
  constructor
  · obtain ⟨s, hplay, hb, h1, h2⟩ : ∃ s, play readyStep (fun _ _ => True)
        (noRoundRobin, boot equals)
        [.enqReady true {.suspended}, .enqReady false {.suspended},
          .enqReady true {.suspended, .delayed}] = some s ∧
        s.2.state false = {.ready} ∧ s.2.ready.next (.head ()) = .elem true ∧
        s.2.ready.next (.elem true) = .head () := ⟨_, rfl, by decide, rfl, rfl⟩
    exact ⟨s, reach_of_play hplay, not_inOrder_of_lost (by decide) hb h1 h2⟩
  · obtain ⟨k, hplay, hb, h1, h2⟩ : ∃ k, play exec (fun _ _ => True)
        (boot equalOwners) resumedOwner = some k ∧
        k.state false = {.ready} ∧ k.ready.next (.head ()) = .elem true ∧
        k.ready.next (.elem true) = .head () := ⟨_, rfl, by decide, rfl, rfl⟩
    exact ⟨k, reach_of_play hplay, not_inOrder_of_lost (by decide) hb h1 h2⟩

end RtaiReadyList
