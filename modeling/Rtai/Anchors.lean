import Rtai.ReadyList

/-! # The anchors of the ready list and of the timed list

    The loops of `enq_ready_task` and of `enq_timed_task` have no test for the
    end of the list: the Linux task has the priority `RT_SCHED_LINUX_PRIORITY` and
    the resume time `RTAI_TIME_LIMIT`, and stops what compares less.  What gets
    that far is a matter of the services that set a time or a priority. -/

namespace RtaiAnchors

open RtaiRings RtaiKernel RtaiSchedCore

variable {T S : Type} [decT : DecidableEq T] [decS : DecidableEq S] [finT : Fintype T]
  [finS : Fintype S]

/-- The services that lead to an insertion, with what they let in. -/
inductive Request (T : Type) where
  | sleepUntil (t : T) (time : Int)
  | semWaitUntil (t : T) (time : Int)
  | sendUntil (t : T) (time : Int)
  | taskInit (t : T) (priority : Int)
  | changePrio (t : T) (priority : Int)
  deriving DecidableEq

/-- The list that is scanned. -/
inductive Scan where
  | ready
  | timed
  deriving DecidableEq

/-- A state in which one of the loops begins, for a task. -/
structure Scanning (T S : Type) where
  kernel : Kernel T S
  task : T
  scan : Scan

/-- `if ((rt_current->resume_time = time) > rt_time_h)` -/
def untilTime (k : Kernel T S) (t : T) (time : Int) : Option (Scanning T S) :=
  let k := { k with resumeTime := Function.update k.resumeTime t time }
  if time > k.timeH then some ⟨k, t, .timed⟩ else none

/-- `rt_sleep_until`, up to the scan. -/
def rtSleepUntil (k : Kernel T S) (t : T) (time : Int) : Option (Scanning T S) :=
  untilTime k t time

/-- `rt_sem_wait_until`, up to the scan. -/
def rtSemWaitUntil (k : Kernel T S) (t : T) (time : Int) : Option (Scanning T S) :=
  untilTime k t time

/-- `rt_send_until`, up to the scan. -/
def rtSendUntil (k : Kernel T S) (t : T) (time : Int) : Option (Scanning T S) :=
  untilTime k t time

/-- `rt_task_init_cpuid`, and the `rt_task_resume` that starts the task. -/
def rtTaskInitCpuid (k : Kernel T S) (t : T) (priority : Int) : Option (Scanning T S) :=
  if k.magic t || priority < 0 then none
  else
    some ⟨{ k with
      magic := Function.update k.magic t true
      isHard := Function.update k.isHard t true
      state := Function.update k.state t {.ready}
      policy := Function.update k.policy t 0
      suspdepth := Function.update k.suspdepth t 0
      running := Function.update k.running t 0
      priority := Function.update k.priority t priority
      basePriority := Function.update k.basePriority t priority
      period := Function.update k.period t 0
      resumeTime := Function.update k.resumeTime t RTAI_TIME_LIMIT
      periodicResumeTime := Function.update k.periodicResumeTime t RTAI_TIME_LIMIT
      blockedOn := Function.update k.blockedOn t .null }, t, .ready⟩

/-- `rt_change_prio`, up to the `enq_ready_task` of the task itself.  The tasks
    that it goes on with get a priority below the one they had. -/
def rtChangePrio (k : Kernel T S) (t : T) (priority : Int) : Option (Scanning T S) :=
  if !k.magic t || priority < 0 then none
  else
    let prio := k.basePriority t
    let priority :=
      if !k.isHard t && priority < BASE_SOFT_PRIORITY then
        priority + BASE_SOFT_PRIORITY
      else priority
    let k := { k with
      basePriority := Function.update k.basePriority t priority }
    if prio = k.priority t ∨ priority < k.priority t then
      let k := { k with priority := Function.update k.priority t priority }
      if k.state t = {.ready} ∧ k.isHard t ∧
          (readyPriority k (k.ready.prev (.elem t)) > priority ∨
            readyPriority k (k.ready.next (.elem t)) < priority) then
        some ⟨{ k with ready := k.ready.unlink (.elem t) }, t, .ready⟩
      else none
    else none

/-- What a service comes to: a scan, unless it has returned before. -/
def request (k : Kernel T S) : Request T → Option (Scanning T S)
  | .sleepUntil t time => rtSleepUntil k t time
  | .semWaitUntil t time => rtSemWaitUntil k t time
  | .sendUntil t time => rtSendUntil k t time
  | .taskInit t priority => rtTaskInitCpuid k t priority
  | .changePrio t priority => rtChangePrio k t priority

/-- The task that calls a timed service is not in the timed list. -/
def Awake (lt : List T) : Request T → Prop
  | .sleepUntil t _ | .semWaitUntil t _ | .sendUntil t _ => t ∉ lt
  | _ => True

/-- **WELL-FORMED LISTS**: two rings of tasks; a ready task is linked, and the
    priorities are values of `int` that are not negative. -/
structure Lists (k : Kernel T S) (lr lt : List T) : Prop where
  ready : Rings k.ready fun _ => lr
  timed : Rings k.timed fun _ => lt
  alive : ∀ t, t ∈ lr → k.magic t = true
  linked : ∀ t, k.state t = {.ready} → k.isHard t = true → t ∈ lr
  priorities : ∀ t ∈ lr, 0 ≤ k.priority t ∧ k.priority t < 2 ^ 31

/-- **THE LOOP STOPS AT THE ANCHOR AT THE LATEST**: it passes some of the tasks
    once, and the task is linked behind these. -/
def Stops (lr lt : List T) (x : Scanning T S) : Prop :=
  match x.scan with
  | .ready => ∃ k l₁ l₂, enqReadyTask x.kernel x.task = some k ∧ lr.erase x.task = l₁ ++ l₂ ∧
      (∀ u ∈ l₁, x.kernel.priority u ≤ x.kernel.priority x.task) ∧
      Rings k.ready fun _ => l₁ ++ x.task :: l₂
  | .timed => ∃ k l₁ l₂, enqTimedTask x.kernel x.task = some k ∧ lt = l₁ ++ l₂ ∧
      (∀ u ∈ l₁, x.kernel.resumeTime u < x.kernel.resumeTime x.task) ∧
      Rings k.timed fun _ => l₁ ++ x.task :: l₂

/-- The priority is above that of the Linux task; the time is not beyond
    `RTAI_TIME_LIMIT`, or a task of the list waits for as long. -/
def Anchored (lt : List T) (x : Scanning T S) : Prop :=
  match x.scan with
  | .ready => x.kernel.priority x.task < RT_SCHED_LINUX_PRIORITY
  | .timed => x.kernel.resumeTime x.task ≤ RTAI_TIME_LIMIT ∨
      ∃ u ∈ lt, x.kernel.resumeTime x.task ≤ x.kernel.resumeTime u

/-! ## The loops -/

section Loops

variable {k : Kernel T S} {t : T} {l l₁ l₂ : List T}

omit decT in
/-- No ring has more tasks than there are. -/
theorem ring_length {ring : Links (Node T Unit)} (R : Rings ring fun _ => l) :
    l.length ≤ Fintype.card T :=
  (R.nodup ()).length_le_card

omit decS finS in
/-- **`enq_timed_task`** passes the tasks of an earlier time. -/
theorem enqTimedTask_passes (R : Rings k.timed fun _ => l₁ ++ l₂)
    (h1 : ∀ u ∈ l₁, k.resumeTime u < k.resumeTime t)
    (h2 : k.resumeTime t ≤ timedResumeTime k (firstOf l₂ (.head ()))) :
    enqTimedTask k t = some { k with
      timed := k.timed.insertBefore (.elem t) (firstOf l₂ (.head ())) } := by
  have hlen := ring_length R
  rw [List.length_append] at hlen
  have hwalk : walk (fun n => some (!(k.resumeTime t > timedResumeTime k n)))
      k.timed.next (taskFuel T) (firstOf (l₁ ++ l₂) (.head ())) =
        some (firstOf l₂ (.head ())) := by
    refine R.walk_first (h := ()) ?_ (show _ = [] ++ (l₁ ++ l₂) from rfl) ?_ ?_
    · simp only [gt_iff_lt, not_lt.mpr h2, decide_false, Bool.not_false]
    · intro u hu
      have hlt : timedResumeTime k (.elem u) < k.resumeTime t := h1 u hu
      simp only [gt_iff_lt, hlt, decide_true, Bool.not_true]
    · unfold taskFuel
      omega
  unfold enqTimedTask
  rw [R.next_head (), hwalk]
  rfl

omit decS finS in
/-- It goes round for ever when nobody waits for as long. -/
theorem enqTimedTask_never (R : Rings k.timed fun _ => l)
    (hlimit : RTAI_TIME_LIMIT < k.resumeTime t)
    (hall : ∀ u ∈ l, k.resumeTime u < k.resumeTime t) :
    enqTimedTask k t = none := by
  have hwalk : walk (fun n => some (!(k.resumeTime t > timedResumeTime k n)))
      k.timed.next (taskFuel T) (firstOf l (.head ())) = none := by
    refine R.walk_never (h := ()) ?_ ?_ (show _ = [] ++ l from rfl)
    · have hlt : timedResumeTime k (.head ()) < k.resumeTime t := hlimit
      simp only [gt_iff_lt, hlt, decide_true, Bool.not_true, ne_eq,
        Option.some.injEq, Bool.false_eq_true, not_false_eq_true]
    · intro u hu
      have hlt : timedResumeTime k (.elem u) < k.resumeTime t := hall u hu
      simp only [gt_iff_lt, hlt, decide_true, Bool.not_true, ne_eq,
        Option.some.injEq, Bool.false_eq_true, not_false_eq_true]
  unfold enqTimedTask
  rw [R.next_head (), hwalk]
  rfl

omit decS finS in
/-- **`enq_ready_task`** passes the tasks of a priority that is not lower. -/
theorem enqReadyTask_passes (R : Rings k.ready fun _ => l₁ ++ l₂)
    (hhard : k.isHard t = true) (hpos : ∀ u ∈ l₁, 0 ≤ k.priority u)
    (h1 : ∀ u ∈ l₁, k.priority u ≤ k.priority t)
    (h2 : k.priority t < readyPriority k (firstOf l₂ (.head ()))) :
    enqReadyTask k t = some { k with
      ready := k.ready.insertBefore (.elem t) (firstOf l₂ (.head ())) } := by
  have hlen := ring_length R
  rw [List.length_append] at hlen
  have hplace : readyPos k t = some (firstOf l₂ (.head ())) := by
    unfold readyPos
    rw [R.next_head ()]
    cases l₁ with
    | nil => exact if_pos h2
    | cons a l =>
      have hge : ¬ k.priority t < readyPriority k (.elem a) :=
        not_lt.mpr (h1 a List.mem_cons_self)
      have h0 : (fun _ => a :: l ++ l₂) () = [] ++ a :: (l ++ l₂) := rfl
      have hnext : k.ready.next (.elem a) = firstOf (l ++ l₂) (.head ()) :=
        (R.elem_links (h := ()) h0).1
      rw [List.cons_append, firstOf_cons]
      dsimp only
      rw [if_neg hge, hnext]
      refine R.walk_first (h := ()) ?_ (show _ = [a] ++ (l ++ l₂) from rfl) ?_ ?_
      · simp only [h2, decide_true, Bool.or_true]
      · intro u hu
        have hmem := List.mem_cons_of_mem a hu
        have hz : ¬ readyPriority k (.elem u) < 0 := not_lt.mpr (hpos u hmem)
        have hle : ¬ k.priority t < readyPriority k (.elem u) :=
          not_lt.mpr (h1 u hmem)
        simp only [hz, hle, decide_false, Bool.or_self]
      · rw [List.length_cons] at hlen
        unfold taskFuel
        omega
  unfold enqReadyTask
  rw [if_pos hhard, hplace]
  rfl

omit decS finS in
/-- It goes round for ever with a priority that nobody is below. -/
theorem enqReadyTask_never (R : Rings k.ready fun _ => l)
    (hhard : k.isHard t = true) (hlinux : RT_SCHED_LINUX_PRIORITY ≤ k.priority t)
    (hall : ∀ u ∈ l, 0 ≤ k.priority u ∧ k.priority u ≤ k.priority t) :
    enqReadyTask k t = none := by
  have hnode : ∀ n, (n = .head () ∨ ∃ u ∈ l, n = .elem u) →
      ¬ readyPriority k n < 0 ∧ ¬ k.priority t < readyPriority k n := by
    rintro n (rfl | ⟨u, hu, rfl⟩)
    · have hz : (0 : Int) ≤ RT_SCHED_LINUX_PRIORITY := by decide
      exact ⟨not_lt.mpr hz, not_lt.mpr hlinux⟩
    · exact ⟨not_lt.mpr (hall u hu).1, not_lt.mpr (hall u hu).2⟩
  have hplace : readyPos k t = none := by
    have hfirst := hnode (firstOf l (.head ())) (by
      cases l with
      | nil => exact Or.inl rfl
      | cons a l => exact Or.inr ⟨a, List.mem_cons_self, rfl⟩)
    have hstop : ∀ n, (n = .head () ∨ ∃ u ∈ l, n = .elem u) →
        some (decide (readyPriority k n < 0) ||
          decide (k.priority t < readyPriority k n)) ≠ some true := by
      intro n hn
      simp only [hnode n hn, decide_false, Bool.or_self, ne_eq,
        Option.some.injEq, Bool.false_eq_true, not_false_eq_true]
    unfold readyPos
    rw [R.next_head ()]
    simp only
    rw [if_neg hfirst.2]
    cases l with
    | nil =>
      have hnext : k.ready.next (firstOf [] (.head ())) =
          firstOf [] (.head ()) := R.next_head ()
      rw [hnext]
      exact R.walk_never (h := ()) (hstop _ (Or.inl rfl)) nofun (show _ = [] ++ [] from rfl)
    | cons a l =>
      have h0 : (fun _ => a :: l) () = [] ++ a :: l := rfl
      rw [firstOf_cons, (R.elem_links (h := ()) h0).1]
      exact R.walk_never (h := ()) (hstop _ (Or.inl rfl))
        (fun u hu => hstop _ (Or.inr ⟨u, hu, rfl⟩)) (show _ = [a] ++ l from rfl)
  unfold enqReadyTask
  rw [if_pos hhard, hplace]
  rfl

end Loops

/-! ## The services -/

section Services

variable {k : Kernel T S} {t : T} {lr lt : List T}

/-- The scan of the timed list. -/
theorem timed_stops_iff (R : Rings k.timed fun _ => lt) (ht : t ∉ lt) :
    Stops lr lt ⟨k, t, .timed⟩ ↔ Anchored lt ⟨k, t, .timed⟩ := by
  constructor
  · rintro ⟨k', l₁, l₂, henq, -, -, -⟩
    by_contra hnot
    have hnot' : ¬ (k.resumeTime t ≤ RTAI_TIME_LIMIT ∨
        ∃ u ∈ lt, k.resumeTime t ≤ k.resumeTime u) := hnot
    have hnever : enqTimedTask k t = none := by
      refine enqTimedTask_never R ?_ ?_
      · exact not_le.mp fun h => hnot' (Or.inl h)
      · exact fun u hu => not_le.mp fun h => hnot' (Or.inr ⟨u, hu, h⟩)
    have henq' : enqTimedTask k t = some k' := henq
    rw [hnever] at henq'
    exact nomatch henq'
  · intro hanch
    have hanch' : k.resumeTime t ≤ RTAI_TIME_LIMIT ∨
        ∃ u ∈ lt, k.resumeTime t ≤ k.resumeTime u := hanch
    obtain ⟨l₁, l₂, rfl, h1, h2⟩ :=
      exists_first (fun u => decide (k.resumeTime t ≤ k.resumeTime u)) lt
    have hpass : ∀ u ∈ l₁, k.resumeTime u < k.resumeTime t := fun u hu =>
      not_le.mp (of_decide_eq_false (h1 u hu))
    have hstop : k.resumeTime t ≤ timedResumeTime k (firstOf l₂ (.head ())) := by
      cases l₂ with
      | nil =>
        -- then it is the anchor that stops the loop
        rcases hanch' with h | ⟨u, hu, h⟩
        · exact h
        · rw [List.append_nil] at hu
          exact absurd h (not_le.mpr (hpass u hu))
      | cons a l => exact of_decide_eq_true (h2 a rfl)
    exact ⟨_, l₁, l₂, enqTimedTask_passes R hpass hstop, rfl, hpass, R.insert_single ht⟩

/-- The scan of the ready list. -/
theorem ready_stops_iff (R : Rings k.ready fun _ => lr.erase t) (ht : t ∉ lr.erase t)
    (hhard : k.isHard t = true)
    (hprio : ∀ u ∈ lr.erase t, 0 ≤ k.priority u ∧ k.priority u < 2 ^ 31) :
    Stops lr lt ⟨k, t, .ready⟩ ↔ Anchored lt ⟨k, t, .ready⟩ := by
  have hlinux : RT_SCHED_LINUX_PRIORITY = 2 ^ 31 - 1 := rfl
  constructor
  · rintro ⟨k', l₁, l₂, henq, -, -, -⟩
    by_contra hnot
    have hnot' : ¬ k.priority t < RT_SCHED_LINUX_PRIORITY := hnot
    have hnever : enqReadyTask k t = none := by
      refine enqReadyTask_never R hhard (not_lt.mp hnot') fun u hu => ?_
      obtain ⟨h0, hmax⟩ := hprio u hu
      exact ⟨h0, by omega⟩
    have henq' : enqReadyTask k t = some k' := henq
    rw [hnever] at henq'
    exact nomatch henq'
  · intro hanch
    have hanch' : k.priority t < RT_SCHED_LINUX_PRIORITY := hanch
    obtain ⟨l₁, l₂, hl, h1, h2⟩ :=
      exists_first (fun u => decide (k.priority t < k.priority u)) (lr.erase t)
    rw [hl] at R ht hprio
    have hpass : ∀ u ∈ l₁, k.priority u ≤ k.priority t := fun u hu =>
      not_lt.mp (of_decide_eq_false (h1 u hu))
    have hstop : k.priority t < readyPriority k (firstOf l₂ (.head ())) := by
      cases l₂ with
      | nil => exact hanch'
      | cons a l => exact of_decide_eq_true (h2 a rfl)
    exact ⟨_, l₁, l₂, enqReadyTask_passes R hhard
      (fun u hu => (hprio u (List.mem_append_left _ hu)).1) hpass hstop, hl, hpass,
      R.insert_single ht⟩

theorem untilTime_stops_iff {time : Int} {x : Scanning T S} (W : Lists k lr lt)
    (ht : t ∉ lt) (h : untilTime k t time = some x) :
    Stops lr lt x ↔ Anchored lt x := by
  unfold untilTime at h
  dsimp only at h
  split at h
  · cases h
    exact timed_stops_iff W.timed ht
  · exact nomatch h

theorem rtTaskInitCpuid_stops_iff {priority : Int} {x : Scanning T S}
    (W : Lists k lr lt) (h : rtTaskInitCpuid k t priority = some x) :
    Stops lr lt x ↔ Anchored lt x := by
  unfold rtTaskInitCpuid at h
  split at h
  · exact nomatch h
  · next hcheck =>
      cases h
      simp only [Bool.or_eq_true, decide_eq_true_eq, not_or, Bool.not_eq_true] at hcheck
      have hnew : t ∉ lr := fun hin => by
        have hm := W.alive t hin
        rw [hcheck.1] at hm
        exact nomatch hm
      have herase : lr.erase t = lr := List.erase_of_not_mem hnew
      refine ready_stops_iff ?_ ?_ ?_ fun u hu => ?_
      · rw [herase]
        exact W.ready
      · rw [herase]
        exact hnew
      · exact Function.update_self ..
      · rw [herase] at hu
        have hne : u ≠ t := fun heq => hnew (heq ▸ hu)
        show 0 ≤ Function.update k.priority t priority u ∧
          Function.update k.priority t priority u < 2 ^ 31
        rw [Function.update_of_ne hne]
        exact W.priorities u hu

theorem rtChangePrio_stops_iff {priority : Int} {x : Scanning T S}
    (W : Lists k lr lt) (h : rtChangePrio k t priority = some x) :
    Stops lr lt x ↔ Anchored lt x := by
  unfold rtChangePrio at h
  split at h
  · exact nomatch h
  · dsimp only at h
    generalize (if (!k.isHard t && decide (priority < BASE_SOFT_PRIORITY)) =
      true then priority + BASE_SOFT_PRIORITY else priority) = p at h
    split at h
    · split at h
      · next hscan =>
          cases h
          obtain ⟨hready, hhard, -⟩ := hscan
          have hin := W.linked t hready hhard
          have hring := W.ready.unlink_erase (h := ()) hin
          rw [update_unit] at hring
          have hout : t ∉ lr.erase t := (W.ready.nodup ()).not_mem_erase
          refine ready_stops_iff hring hout hhard fun u hu => ?_
          have hne : u ≠ t := fun heq => hout (heq ▸ hu)
          show 0 ≤ Function.update k.priority t p u ∧ Function.update k.priority t p u < 2 ^ 31
          rw [Function.update_of_ne hne]
          exact W.priorities u (List.mem_of_mem_erase hu)
      · exact nomatch h
    · exact nomatch h

/-- **WHERE THE INSERTIONS STOP**: at the anchor at the latest, if and only if the
    priority is above that of the Linux task, and the time is not beyond
    `RTAI_TIME_LIMIT` unless somebody waits for as long already. -/
theorem insertions_stop_iff (W : Lists k lr lt) (r : Request T) (hr : Awake lt r)
    (x : Scanning T S) (h : request k r = some x) :
    Stops lr lt x ↔ Anchored lt x := by
  cases r with
  | sleepUntil t time => exact untilTime_stops_iff W hr h
  | semWaitUntil t time => exact untilTime_stops_iff W hr h
  | sendUntil t time => exact untilTime_stops_iff W hr h
  | taskInit t priority => exact rtTaskInitCpuid_stops_iff W h
  | changePrio t priority => exact rtChangePrio_stops_iff W h

end Services

/-- Two tasks that are yet to be created, and empty lists. -/
def nobody : Kernel (Fin 2) Unit :=
  { boot ⟨fun _ => true, fun _ => 0, fun _ => none, fun _ => 0, 0,
      fun _ => ⟨.cntSem, 0, false⟩, 0⟩ with magic := fun _ => false }

/-- The second one has been created, and is in the list of ready tasks. -/
def oneReady : Kernel (Fin 2) Unit :=
  { nobody with
    ready := (Links.empty : Links (Node (Fin 2) Unit)).insertBefore (.elem 1) (.head ())
    state := fun t => if t = 1 then {.ready} else {.suspended}
    priority := fun _ => 3
    magic := fun t => t = 1 }

theorem lists_oneReady : Lists oneReady [1] [] where
  ready :=
    have h : Rings (Links.empty : Links (Node (Fin 2) Unit)) fun _ => [] ++ [] := Rings.empty
    h.insert_single List.not_mem_nil
  timed := Rings.empty
  alive := by decide
  linked := by decide
  priorities := by decide

/-- A task with the lowest priority that the anchor stops. -/
theorem insertions_stop_lowest :
    ∃ x, request oneReady (.taskInit 0 (2 ^ 31 - 2)) = some x ∧ Stops [1] [] x := by
  refine ⟨_, rfl, ?_⟩
  refine (insertions_stop_iff lists_oneReady (.taskInit 0 (2 ^ 31 - 2)) trivial _ rfl).mpr ?_
  show (2 ^ 31 - 2 : Int) < RT_SCHED_LINUX_PRIORITY
  decide

/-- **THE LOWEST PRIORITY OF ALL GOES ROUND FOR EVER**: `rt_task_init_cpuid` takes
    `0x7fffffff`, and `rt_sleep_until` takes times beyond `RTAI_TIME_LIMIT`. -/
theorem insertions_never_stop : (∃ x, request nobody (.taskInit 0 (2 ^ 31 - 1)) = some x ∧
      enqReadyTask x.kernel x.task = none ∧ ¬ Stops [] [] x) ∧
    ∃ x, request nobody (.sleepUntil 0 (RTAI_TIME_LIMIT + 1)) = some x ∧
      enqTimedTask x.kernel x.task = none ∧ ¬ Stops [] [] x := by
  constructor
  · refine ⟨_, rfl, rfl, ?_⟩
    rintro ⟨k, l₁, l₂, h, -⟩
    have hnone : (none : Option (Kernel (Fin 2) Unit)) = some k := h
    exact nomatch hnone
  · refine ⟨_, rfl, rfl, ?_⟩
    rintro ⟨k, l₁, l₂, h, -⟩
    have hnone : (none : Option (Kernel (Fin 2) Unit)) = some k := h
    exact nomatch hnone

end RtaiAnchors
