import Rtai.Kernel
import Rtai.Ranks

/-! # Rate monotonic priorities

    `rt_spv_RMS` of `sched.c`, on the tasks of one CPU.  It gives the periodic
    tasks their priorities where they are: `renq_ready_task` and
    `enqueue_blocked` keep the ready list and the wait queues in the order of
    the priorities, `rt_spv_RMS` calls neither. -/

namespace RtaiRms

open RtaiRings RtaiKernel

variable {T S : Type} [decT : DecidableEq T]

/-! ## The function -/

/-- One pass of the inner loop, with `htask` and `period`. -/
def shorter (k : Kernel T S) (best : Option T × Int) (task : T) : Option T × Int :=
  if k.priority task ≥ 0 ∧ k.policy task ≥ 0 ∧ k.period task ≠ 0 ∧
      k.period task < best.2 then (some task, k.period task)
  else best

/-- The inner loop: the task of the shortest period that is not marked. -/
def shortest (k : Kernel T S) (tasks : List T) : Option T :=
  (tasks.foldl (shorter k) (none, RTAI_TIME_LIMIT)).1

/-- `htask->priority = -1; htask->base_priority = prio` -/
def mark (k : Kernel T S) (htask : T) (prio : Int) : Kernel T S :=
  { k with priority := Function.update k.priority htask (-1),
           basePriority := Function.update k.basePriority htask prio }

/-- The outer loop, which runs once for each task of the list at most. -/
def assign (tasks : List T) : List T → Int → Kernel T S → Kernel T S
  | [], _, k => k
  | _ :: left, prio, k =>
    match shortest k tasks with
    | some htask => assign tasks left (prio + 1) (mark k htask prio)
    | none => k

/-- The loop at `ret`. -/
def restore (tasks : List T) (k : Kernel T S) : Kernel T S :=
  tasks.foldl (fun k task =>
    if k.priority task < 0 then
      { k with priority :=
          Function.update k.priority task (k.basePriority task) }
    else k) k

/-- `rt_spv_RMS` -/
def rtSpvRMS (k : Kernel T S) (tasks : List T) : Kernel T S :=
  restore tasks (assign tasks tasks 0 k)

/-! ## The scheduler -/

/-- Whether `enqueue_blocked` gets a `qtype` of 0. -/
def byPriority (k : Kernel T S) : Head T S → Prop
  | .sem s => k.qtype s = 0
  | .msg _ => True
  | .ret _ => True

/-- **THE LISTS ARE IN ORDER**: the ready list and the wait queues are these, and
    those that are kept by priority are in its order. -/
structure InOrder (k : Kernel T S) (ready : List T) (waiting : Head T S → List T) :
    Prop where
  readyRing : Rings k.ready fun _ => ready
  queueRing : Rings k.queue waiting
  ready : ready.Pairwise fun t u => k.priority t ≤ k.priority u
  waiting : ∀ h, byPriority k h → (waiting h).Pairwise fun t u => k.priority t ≤ k.priority u

/-- **THE STATE OF THE SCHEDULER**: the tasks of the CPU, and the lists.  No
    priority is negative: `rt_task_init` and `rt_change_prio` take none. -/
structure Scheduler (T S : Type) where
  kernel : Kernel T S
  tasks : List T
  ready : List T
  waiting : Head T S → List T
  nodup : tasks.Nodup
  legal : ∀ t, 0 ≤ kernel.priority t
  inOrder : InOrder kernel ready waiting

/-- A hard periodic task; those with deadlines have a negative policy. -/
def Periodic (k : Kernel T S) (t : T) : Prop := k.policy t ≥ 0 ∧ k.period t ≠ 0

instance (k : Kernel T S) (t : T) : Decidable (Periodic k t) :=
  inferInstanceAs (Decidable (_ ∧ _))

namespace Scheduler

variable (s : Scheduler T S)

/-- The tasks with a period. -/
def periodic : List T := s.tasks.filter fun t => Periodic s.kernel t

/-- The periodic tasks whose period `rt_spv_RMS` can find. -/
def found : List T := s.periodic.filter fun t => s.kernel.period t < RTAI_TIME_LIMIT

/-- The place of a task: by its period, and as it is listed. -/
def place (t : T) : Int ×ₗ Nat := toLex (s.kernel.period t, s.tasks.idxOf t)

/-- The number of tasks found before it. -/
def rank (t : T) : Nat := RtaiRanks.rank s.place s.found t

end Scheduler

/-- **RATE MONOTONIC**: what `rt_spv_RMS` is to leave. -/
structure RateMonotonic (s : Scheduler T S) (k : Kernel T S) : Prop where
  range : ∀ t ∈ s.periodic, 0 ≤ k.priority t ∧ k.priority t < s.periodic.length
  distinct : ∀ t ∈ s.periodic, ∀ u ∈ s.periodic, k.priority t = k.priority u → t = u
  monotone : ∀ t ∈ s.periodic, ∀ u ∈ s.periodic,
    k.period t < k.period u → k.priority t ≤ k.priority u
  others : ∀ t ∉ s.periodic, k.priority t = s.kernel.priority t ∧
    k.basePriority t = s.kernel.basePriority t
  inOrder : InOrder k s.ready s.waiting

/-! ## The search -/

section Search

variable {k : Kernel T S} {tasks : List T} {t u : T}

/-- What a task that is found must be. -/
def Candidate (k : Kernel T S) (t : T) : Prop :=
  k.priority t ≥ 0 ∧ k.policy t ≥ 0 ∧ k.period t ≠ 0

omit decT in
/-- The inner loop finds nothing shorter, or the first of the shortest. -/
theorem shorter_spec (l : List T) (best : Option T × Int) :
    (l.foldl (shorter k) best = best ∧ ∀ u ∈ l, Candidate k u → best.2 ≤ k.period u) ∨
      ∃ l₁ t l₂, l = l₁ ++ t :: l₂ ∧ Candidate k t ∧
        l.foldl (shorter k) best = (some t, k.period t) ∧ k.period t < best.2 ∧
        (∀ u ∈ l₁, Candidate k u → k.period t < k.period u) ∧
        ∀ u ∈ l₂, Candidate k u → k.period t ≤ k.period u := by
  induction l generalizing best with
  | nil => exact .inl ⟨rfl, fun u hu => absurd hu List.not_mem_nil⟩
  | cons a l ih =>
    rw [List.foldl_cons]
    by_cases ha : Candidate k a ∧ k.period a < best.2
    · have hnew : shorter k best a = (some a, k.period a) :=
        if_pos ⟨ha.1.1, ha.1.2.1, ha.1.2.2, ha.2⟩
      rw [hnew]
      rcases ih (some a, k.period a) with ⟨hstay, hall⟩ |
        ⟨l₁, t, l₂, rfl, ht, hfold, hlt, h1, h2⟩
      · exact .inr ⟨[], a, l, rfl, ha.1, hstay, ha.2,
          fun u hu => absurd hu List.not_mem_nil, hall⟩
      · refine .inr ⟨a :: l₁, t, l₂, rfl, ht, hfold, lt_trans hlt ha.2, ?_, h2⟩
        intro u hu hc
        rcases List.mem_cons.mp hu with rfl | hu
        · exact hlt
        · exact h1 u hu hc
    · have hold : shorter k best a = best :=
        if_neg fun h => ha ⟨⟨h.1, h.2.1, h.2.2.1⟩, h.2.2.2⟩
      have hmin : Candidate k a → best.2 ≤ k.period a :=
        fun hc => not_lt.mp fun hlt => ha ⟨hc, hlt⟩
      rw [hold]
      rcases ih best with ⟨hstay, hall⟩ | ⟨l₁, t, l₂, rfl, ht, hfold, hlt, h1, h2⟩
      · refine .inl ⟨hstay, fun u hu hc => ?_⟩
        rcases List.mem_cons.mp hu with rfl | hu
        · exact hmin hc
        · exact hall u hu hc
      · refine .inr ⟨a :: l₁, t, l₂, rfl, ht, hfold, hlt, ?_, h2⟩
        intro u hu hc
        rcases List.mem_cons.mp hu with rfl | hu
        · exact hlt.trans_le (hmin hc)
        · exact h1 u hu hc

/-- Of two tasks in a list the first has the smaller index. -/
theorem idxOf_lt_idxOf {l₁ l₂ : List T} (h : (l₁ ++ t :: l₂).Nodup) (hu : u ∈ l₂) :
    (l₁ ++ t :: l₂).idxOf t < (l₁ ++ t :: l₂).idxOf u := by
  obtain ⟨-, hnodup, hdisj⟩ := List.nodup_append.mp h
  have ht : t ∉ l₁ := fun ht => hdisj t ht t List.mem_cons_self rfl
  have hu' : u ∉ l₁ := fun hu' => hdisj u hu' u (List.mem_cons_of_mem t hu) rfl
  have hne : u ≠ t := by
    rintro rfl
    exact (List.nodup_cons.mp hnodup).1 hu
  rw [List.idxOf_append_of_notMem ht, List.idxOf_append_of_notMem hu',
    List.idxOf_cons_self, List.idxOf_cons_ne _ hne.symm]
  omega

theorem shortest_some (h : tasks.Nodup) (hsome : shortest k tasks = some t) :
    t ∈ tasks ∧ Candidate k t ∧ k.period t < RTAI_TIME_LIMIT ∧ ∀ u ∈ tasks, Candidate k u →
        toLex (k.period t, tasks.idxOf t) ≤ toLex (k.period u, tasks.idxOf u) := by
  unfold shortest at hsome
  rcases @shorter_spec _ _ k tasks (none, RTAI_TIME_LIMIT) with ⟨hstay, -⟩ |
    ⟨l₁, t', l₂, rfl, hc, hfold, hlt, h1, h2⟩
  · rw [hstay] at hsome
    exact nomatch hsome
  · rw [hfold] at hsome
    obtain rfl := Option.some.inj hsome
    refine ⟨List.mem_append_right _ List.mem_cons_self, hc, hlt, fun u hu hcu => ?_⟩
    rcases List.mem_append.mp hu with hu | hu
    · exact le_of_lt (Prod.Lex.toLex_lt_toLex.mpr (.inl (h1 u hu hcu)))
    · rcases List.mem_cons.mp hu with rfl | hu
      · exact le_rfl
      · refine le_of_lt (Prod.Lex.toLex_lt_toLex.mpr ?_)
        rcases lt_or_eq_of_le (h2 u hu hcu) with hless | heq
        · exact .inl hless
        · exact .inr ⟨heq, idxOf_lt_idxOf h hu⟩

omit decT in
theorem shortest_none (hnone : shortest k tasks = none) :
    ∀ u ∈ tasks, Candidate k u → RTAI_TIME_LIMIT ≤ k.period u := by
  unfold shortest at hnone
  rcases @shorter_spec _ _ k tasks (none, RTAI_TIME_LIMIT) with ⟨-, hall⟩ |
    ⟨l₁, t', l₂, rfl, hc, hfold, hlt, h1, h2⟩
  · exact hall
  · rw [hfold] at hnone
    exact nomatch hnone

end Search

/-! ## The marks -/

namespace Scheduler

variable {s : Scheduler T S} {t u : T} {n : Nat}

omit decT in
theorem mem_periodic : t ∈ s.periodic ↔ t ∈ s.tasks ∧ Periodic s.kernel t := by
  unfold periodic
  rw [List.mem_filter, decide_eq_true_iff]

omit decT in
theorem mem_found : t ∈ s.found ↔ t ∈ s.periodic ∧ s.kernel.period t < RTAI_TIME_LIMIT := by
  unfold found
  rw [List.mem_filter, decide_eq_true_iff]

omit decT in
theorem mem_tasks (h : t ∈ s.found) : t ∈ s.tasks :=
  (mem_periodic.mp (mem_found.mp h).1).1

theorem place_injective (ht : t ∈ s.found) (h : s.place t = s.place u) : t = u :=
  (List.idxOf_inj (mem_tasks ht)).mp (Prod.mk.inj (toLex.injective h)).2

theorem rank_lt_length (ht : t ∈ s.found) : s.rank t < s.found.length :=
  RtaiRanks.rank_lt_length ht

theorem rank_le_iff (hu : u ∈ s.found) : s.rank t ≤ s.rank u ↔ s.place t ≤ s.place u :=
  RtaiRanks.rank_le_iff hu

theorem rank_injective (ht : t ∈ s.found) (hu : u ∈ s.found)
    (h : s.rank t = s.rank u) : t = u :=
  place_injective ht (le_antisymm ((rank_le_iff hu).mp h.le) ((rank_le_iff ht).mp h.ge))

theorem exists_rank (hn : n < s.found.length) : ∃ t ∈ s.found, s.rank t = n :=
  RtaiRanks.exists_rank ((s.nodup.filter _).filter _)
    (fun _ ha _ _ h => place_injective ha h) hn

/-- The state when the first `n` tasks are marked. -/
def marked (s : Scheduler T S) (n : Nat) : Kernel T S :=
  { s.kernel with
    priority := fun t =>
      if t ∈ s.found ∧ s.rank t < n then -1 else s.kernel.priority t,
    basePriority := fun t =>
      if t ∈ s.found ∧ s.rank t < n then s.rank t else s.kernel.basePriority t }

theorem marked_zero : s.marked 0 = s.kernel := by
  have hnone : ∀ t, ¬(t ∈ s.found ∧ s.rank t < 0) := fun t h =>
    Nat.not_lt_zero _ h.2
  unfold marked
  simp only [hnone, if_false]

/-- A task that is not marked and can be found. -/
theorem candidate_iff (ht : t ∈ s.tasks) (hlt : s.kernel.period t < RTAI_TIME_LIMIT) :
    Candidate (s.marked n) t ↔ t ∈ s.found ∧ n ≤ s.rank t := by
  have hmem : t ∈ s.found ↔ Periodic s.kernel t := by
    rw [mem_found, mem_periodic]
    exact ⟨fun h => h.1.2, fun h => ⟨⟨ht, h⟩, hlt⟩⟩
  constructor
  · rintro ⟨hprio, hper⟩
    refine ⟨hmem.mpr hper, Nat.le_of_not_lt fun hrank => ?_⟩
    have hmark : (s.marked n).priority t = -1 := if_pos ⟨hmem.mpr hper, hrank⟩
    rw [hmark] at hprio
    exact absurd hprio (by decide)
  · rintro ⟨hfound, hrank⟩
    have hold : (s.marked n).priority t = s.kernel.priority t :=
      if_neg fun h => absurd h.2 (Nat.not_lt.mpr hrank)
    refine ⟨?_, hmem.mp hfound⟩
    rw [hold]
    exact s.legal t

/-- **THE SEARCH** finds the next task. -/
theorem shortest_marked (hn : n < s.found.length) :
    ∃ t ∈ s.found, s.rank t = n ∧ shortest (s.marked n) s.tasks = some t := by
  obtain ⟨u, hu, hrank⟩ := @exists_rank _ _ _ s n hn
  have hulimit := (mem_found.mp hu).2
  have hucand := (candidate_iff (mem_tasks hu) hulimit).mpr ⟨hu, hrank.ge⟩
  cases hs : shortest (s.marked n) s.tasks with
  | none =>
    have hle := shortest_none hs u (mem_tasks hu) hucand
    exact absurd hulimit (not_lt.mpr hle)
  | some t =>
    obtain ⟨ht, hc, hlt, hmin⟩ := shortest_some s.nodup hs
    obtain ⟨hfound, hge⟩ := (candidate_iff ht hlt).mp hc
    have hle : s.rank t ≤ s.rank u :=
      (rank_le_iff hu).mpr (hmin u (mem_tasks hu) hucand)
    exact ⟨t, hfound, by omega, rfl⟩

theorem shortest_done : shortest (s.marked s.found.length) s.tasks = none := by
  cases hs : shortest (s.marked s.found.length) s.tasks with
  | none => rfl
  | some t =>
    obtain ⟨ht, hc, hlt, -⟩ := shortest_some s.nodup hs
    obtain ⟨hfound, hge⟩ := (candidate_iff ht hlt).mp hc
    exact absurd (rank_lt_length hfound) (Nat.not_lt.mpr hge)

theorem mark_marked (ht : t ∈ s.found) (hrank : s.rank t = n) :
    mark (s.marked n) t n = s.marked (n + 1) := by
  have hiff : ∀ u, u ≠ t →
      ((u ∈ s.found ∧ s.rank u < n + 1) ↔ (u ∈ s.found ∧ s.rank u < n)) := by
    intro u hne
    refine and_congr_right fun hu => ?_
    have hother : s.rank u ≠ n := fun h =>
      hne (rank_injective hu ht (h.trans hrank.symm))
    omega
  have hnew : t ∈ s.found ∧ s.rank t < n + 1 := ⟨ht, by omega⟩
  have hprio : Function.update (s.marked n).priority t (-1) = (s.marked (n + 1)).priority := by
    funext u
    by_cases hne : u = t
    · rw [hne, Function.update_self]
      exact (if_pos hnew).symm
    · rw [Function.update_of_ne hne]
      exact if_congr (hiff u hne).symm rfl rfl
  have hbase : Function.update (s.marked n).basePriority t (n : Int) =
      (s.marked (n + 1)).basePriority := by
    funext u
    by_cases hne : u = t
    · rw [hne, Function.update_self, ← hrank]
      exact (if_pos ⟨ht, Nat.lt_succ_self _⟩).symm
    · rw [Function.update_of_ne hne]
      exact if_congr (hiff u hne).symm rfl rfl
  unfold mark
  rw [hprio, hbase]
  rfl

/-- The outer loop marks one task after the other. -/
theorem assign_marked (left : List T) (hn : n ≤ s.found.length)
    (henough : s.found.length ≤ n + left.length) :
    assign s.tasks left n (s.marked n) = s.marked s.found.length := by
  induction left generalizing n with
  | nil =>
    have hall : n = s.found.length := by
      rw [List.length_nil] at henough
      omega
    rw [hall]
    rfl
  | cons a left ih =>
    unfold assign
    rcases Nat.lt_or_eq_of_le hn with hlt | heq
    · obtain ⟨t, ht, hrank, hs⟩ := @shortest_marked _ _ _ s n hlt
      rw [hs]
      dsimp only
      rw [mark_marked ht hrank]
      rw [List.length_cons] at henough
      exact @ih (n + 1) hlt (by omega)
    · rw [heq, shortest_done]

end Scheduler

/-- The last loop takes the marks away. -/
theorem restore_eq (l : List T) (k : Kernel T S) :
    restore l k = { k with priority := fun t =>
      if t ∈ l ∧ k.priority t < 0 then k.basePriority t else k.priority t } := by
  unfold restore
  induction l generalizing k with
  | nil => simp only [List.foldl_nil, List.not_mem_nil, false_and, if_false]
  | cons a l ih =>
    rw [List.foldl_cons, ih]
    split
    · next hneg =>
        refine congrArg (fun p : T → Int => ({ k with priority := p } : Kernel T S))
          (funext fun t => ?_)
        dsimp only
        by_cases hta : t = a
        · simp only [hta, Function.update_self, ite_self, List.mem_cons_self,
            true_and, if_pos hneg]
        · simp only [Function.update_of_ne hta, List.mem_cons, hta, false_or]
    · next hpos =>
        refine congrArg (fun p : T → Int => ({ k with priority := p } : Kernel T S))
          (funext fun t => ?_)
        refine if_congr ?_ rfl rfl
        rw [List.mem_cons]
        constructor
        · rintro ⟨ht, hneg⟩
          exact ⟨.inr ht, hneg⟩
        · rintro ⟨rfl | ht, hneg⟩
          · exact absurd hneg hpos
          · exact ⟨ht, hneg⟩

/-- **WHAT `rt_spv_RMS` DOES**: the tasks it finds get their ranks. -/
theorem rtSpvRMS_eq (s : Scheduler T S) : rtSpvRMS s.kernel s.tasks =
      { s.kernel with
        priority := fun t => if t ∈ s.found then s.rank t else s.kernel.priority t,
        basePriority := fun t =>
          if t ∈ s.found then s.rank t else s.kernel.basePriority t } := by
  have hlen : s.found.length ≤ s.tasks.length :=
    (List.length_filter_le _ _).trans (List.length_filter_le _ _)
  have hassign := @Scheduler.assign_marked _ _ _ s 0 s.tasks (Nat.zero_le _) (by omega)
  rw [Scheduler.marked_zero] at hassign
  have hmark : ∀ t, (t ∈ s.found ∧ s.rank t < s.found.length) ↔ t ∈ s.found :=
    fun t => ⟨And.left, fun ht => ⟨ht, Scheduler.rank_lt_length ht⟩⟩
  have hbase : (s.marked s.found.length).basePriority = fun t =>
      if t ∈ s.found then (s.rank t : Int) else s.kernel.basePriority t :=
    funext fun t => if_congr (hmark t) rfl rfl
  have hprio : (fun t => if t ∈ s.tasks ∧ (s.marked s.found.length).priority t < 0
        then (s.marked s.found.length).basePriority t
        else (s.marked s.found.length).priority t) =
      fun t => if t ∈ s.found then (s.rank t : Int) else s.kernel.priority t := by
    funext t
    have hpt : (s.marked s.found.length).priority t =
        if t ∈ s.found then -1 else s.kernel.priority t := if_congr (hmark t) rfl rfl
    rw [hbase, hpt]
    dsimp only
    by_cases ht : t ∈ s.found
    · rw [if_pos ht, if_pos ht, if_pos ht, if_pos ⟨Scheduler.mem_tasks ht, by decide⟩]
    · have hlegal := s.legal t
      rw [if_neg ht, if_neg ht, if_neg ht, if_neg (fun h => absurd h.2 (not_lt.mpr hlegal))]
  unfold rtSpvRMS
  rw [show (0 : Int) = ((0 : Nat) : Int) from rfl, hassign, restore_eq, hprio]
  show ({ s.kernel with
    priority := _, basePriority := (s.marked s.found.length).basePriority } : Kernel T S) = _
  rw [hbase]

/-! ## When the priorities are rate monotonic -/

namespace Scheduler

variable {s : Scheduler T S} {t u : T}

/-- The new priorities of a task and of one behind it are in order. -/
def Keeps (s : Scheduler T S) (t u : T) : Prop :=
  (t ∈ s.found → u ∈ s.found → s.place t ≤ s.place u) ∧
    (t ∈ s.found → u ∉ s.found → (s.rank t : Int) ≤ s.kernel.priority u) ∧
    (t ∉ s.found → u ∈ s.found → s.kernel.priority t ≤ s.rank u)

/-- The lists are by chance in the order of the new priorities, and so are the
    priorities of the periodic tasks that are not found. -/
structure Fits (s : Scheduler T S) : Prop where
  range : ∀ t ∈ s.periodic, t ∉ s.found →
    s.found.length ≤ s.kernel.priority t ∧ s.kernel.priority t < s.periodic.length
  distinct : ∀ t ∈ s.periodic, t ∉ s.found → ∀ u ∈ s.periodic, u ∉ s.found →
    s.kernel.priority t = s.kernel.priority u → t = u
  monotone : ∀ t ∈ s.periodic, t ∉ s.found → ∀ u ∈ s.periodic, u ∉ s.found →
    s.kernel.period t < s.kernel.period u → s.kernel.priority t ≤ s.kernel.priority u
  ready : s.ready.Pairwise s.Keeps
  waiting : ∀ h, byPriority s.kernel h → (s.waiting h).Pairwise s.Keeps

omit decT in
theorem late (ht : t ∈ s.periodic) (hnot : t ∉ s.found) :
    RTAI_TIME_LIMIT ≤ s.kernel.period t :=
  not_lt.mp fun hlt => hnot (mem_found.mpr ⟨ht, hlt⟩)

theorem keeps_iff {p : T → Int} (hp : p = fun t =>
      if t ∈ s.found then (s.rank t : Int) else s.kernel.priority t)
    (h : s.kernel.priority t ≤ s.kernel.priority u) :
    p t ≤ p u ↔ s.Keeps t u := by
  unfold Keeps
  rw [hp]
  dsimp only
  by_cases ht : t ∈ s.found <;> by_cases hu : u ∈ s.found
  · simp only [ht, hu, if_true, true_imp_iff, not_true, false_imp_iff, and_true]
    rw [Int.ofNat_le, rank_le_iff hu]
  · simp only [ht, hu, if_true, if_false, true_imp_iff, not_true, not_false_iff,
      false_imp_iff, and_true, true_and]
  · simp only [ht, hu, if_true, if_false, true_imp_iff, not_false_iff, false_imp_iff, true_and]
  · simp only [ht, hu, if_false, false_imp_iff, true_imp_iff, not_false_iff, and_true, h]

/-- A list that was in order. -/
theorem pairwise_iff {p : T → Int} (hp : p = fun t =>
      if t ∈ s.found then (s.rank t : Int) else s.kernel.priority t)
    {l : List T} (h : l.Pairwise fun t u => s.kernel.priority t ≤ s.kernel.priority u) :
    (l.Pairwise fun t u => p t ≤ p u) ↔ l.Pairwise s.Keeps := by
  constructor
  · intro hnew
    exact (h.and hnew).imp fun hb => (keeps_iff hp hb.1).mp hb.2
  · intro hkeeps
    exact (h.and hkeeps).imp fun hb => (keeps_iff hp hb.1).mpr hb.2

end Scheduler

/-- **RATE MONOTONIC ASSIGNMENT**: `rt_spv_RMS` leaves what it is to leave if
    and only if the state fits. -/
theorem rms_iff (s : Scheduler T S) :
    RateMonotonic s (rtSpvRMS s.kernel s.tasks) ↔ s.Fits := by
  have heq := rtSpvRMS_eq s
  generalize rtSpvRMS s.kernel s.tasks = k at heq ⊢
  have hprio : k.priority = fun t =>
      if t ∈ s.found then (s.rank t : Int) else s.kernel.priority t := by
    rw [heq]
  have hfound : ∀ t ∈ s.found, k.priority t = s.rank t := by
    intro t ht
    rw [hprio]
    exact if_pos ht
  have hnot : ∀ t ∉ s.found, k.priority t = s.kernel.priority t := by
    intro t ht
    rw [hprio]
    exact if_neg ht
  have hperiod : k.period = s.kernel.period := by
    rw [heq]
  have hby : ∀ h, byPriority k h ↔ byPriority s.kernel h := by
    intro h
    rw [heq]
    cases h <;> exact Iff.rfl
  have hsub : ∀ t ∈ s.found, t ∈ s.periodic := fun t ht =>
    (Scheduler.mem_found.mp ht).1
  constructor
  · intro R
    refine ⟨fun t ht hlate => ?_, fun t ht hlate u hu hlate' hsame => ?_,
      fun t ht hlate u hu hlate' hlt => ?_, ?_, fun h hh => ?_⟩
    · obtain ⟨h0, hn⟩ := R.range t ht
      rw [hnot t hlate] at h0 hn
      refine ⟨?_, hn⟩
      -- the last of the tasks that are found is below it
      rcases Nat.eq_zero_or_pos s.found.length with hz | hpos
      · rw [hz]
        exact h0
      · obtain ⟨u, hu, hrank⟩ := @Scheduler.exists_rank _ _ _ s (s.found.length - 1) (by omega)
        have hle := R.monotone u (hsub u hu) t ht (by
          rw [hperiod]
          exact (Scheduler.mem_found.mp hu).2.trans_le (Scheduler.late ht hlate))
        have hne : k.priority u ≠ k.priority t := fun hsame =>
          hlate (R.distinct u (hsub u hu) t ht hsame ▸ hu)
        rw [hfound u hu, hnot t hlate] at hle hne
        omega
    · exact R.distinct t ht u hu (by rw [hnot t hlate, hnot u hlate', hsame])
    · have hle := R.monotone t ht u hu (by rw [hperiod]; exact hlt)
      rwa [hnot t hlate, hnot u hlate'] at hle
    · exact (Scheduler.pairwise_iff hprio s.inOrder.ready).mp R.inOrder.ready
    · exact (Scheduler.pairwise_iff hprio (s.inOrder.waiting h hh)).mp
        (R.inOrder.waiting h ((hby h).mpr hh))
  · intro F
    have hlen : s.found.length ≤ s.periodic.length := List.length_filter_le _ _
    refine ⟨fun t ht => ?_, fun t ht u hu hsame => ?_, fun t ht u hu hlt => ?_,
      fun t ht => ?_, ?_⟩
    · by_cases hf : t ∈ s.found
      · have hrank := Scheduler.rank_lt_length hf
        rw [hfound t hf]
        omega
      · obtain ⟨hm, hn⟩ := F.range t ht hf
        rw [hnot t hf]
        omega
    · by_cases hf : t ∈ s.found <;> by_cases hf' : u ∈ s.found
      · rw [hfound t hf, hfound u hf'] at hsame
        exact Scheduler.rank_injective hf hf' (Int.ofNat_inj.mp hsame)
      · have hrank := Scheduler.rank_lt_length hf
        have hm := (F.range u hu hf').1
        rw [hfound t hf, hnot u hf'] at hsame
        omega
      · have hrank := Scheduler.rank_lt_length hf'
        have hm := (F.range t ht hf).1
        rw [hnot t hf, hfound u hf'] at hsame
        omega
      · rw [hnot t hf, hnot u hf'] at hsame
        exact F.distinct t ht hf u hu hf' hsame
    · rw [hperiod] at hlt
      by_cases hf : t ∈ s.found <;> by_cases hf' : u ∈ s.found
      · rw [hfound t hf, hfound u hf', Int.ofNat_le, Scheduler.rank_le_iff hf']
        exact le_of_lt (Prod.Lex.toLex_lt_toLex.mpr (.inl hlt))
      · have hrank := Scheduler.rank_lt_length hf
        have hm := (F.range u hu hf').1
        rw [hfound t hf, hnot u hf']
        omega
      · have hlate := Scheduler.late ht hf
        have hlimit := (Scheduler.mem_found.mp hf').2
        omega
      · rw [hnot t hf, hnot u hf']
        exact F.monotone t ht hf u hu hf' hlt
    · have hf : t ∉ s.found := fun hf => ht (hsub t hf)
      refine ⟨hnot t hf, ?_⟩
      rw [heq]
      exact if_neg hf
    · refine ⟨?_, ?_, ?_, fun h hh => ?_⟩
      · rw [heq]
        exact s.inOrder.readyRing
      · rw [heq]
        exact s.inOrder.queueRing
      · exact (Scheduler.pairwise_iff hprio s.inOrder.ready).mpr F.ready
      · have hh' := (hby h).mp hh
        exact (Scheduler.pairwise_iff hprio (s.inOrder.waiting h hh')).mpr (F.waiting h hh')

/-- Two ready tasks, of periods 10 and 5 and of priorities 1 and 2. -/
def twoTasks : Kernel Bool Unit :=
  { boot ⟨fun _ => true, fun t => if t then 2 else 1, fun _ => none, fun _ => 0, 0,
      fun _ => ⟨.cntSem, 0, false⟩, 0⟩ with
    state := fun _ => {.ready}, period := fun t => if t then 5 else 10,
    ready := (Links.empty.insertBefore (.elem true) (.head ())).insertBefore
      (.elem false) (.elem true) }

theorem twoTasks_ready : Rings twoTasks.ready fun _ => [false, true] := by
  have hone := @Rings.insert Bool Unit _ _ _ _ Rings.empty () [] [] true rfl
    (fun _ => List.not_mem_nil)
  have htwo := @Rings.insert Bool Unit _ _ _ _ hone () [] [true] false rfl
    (fun h => by
      cases h
      decide)
  rw [show (fun _ => [false, true]) = Function.update
    (Function.update (fun _ : Unit => []) () [true]) () [false, true] from rfl]
  exact htwo

/-- Two tasks, both ready. -/
def bothReady : Scheduler Bool Unit where
  kernel := twoTasks
  tasks := [false, true]
  ready := [false, true]
  waiting := fun _ => []
  nodup := by decide
  legal := by
    intro t
    cases t <;> decide
  inOrder :=
    { readyRing := twoTasks_ready
      queueRing := Rings.empty
      ready := by decide
      waiting := fun _ _ => .nil }

/-- The first task of the ready list is left with the lower priority. -/
theorem ready_list_out_of_order : (rtSpvRMS twoTasks [false, true]).priority false = 1 ∧
      (rtSpvRMS twoTasks [false, true]).priority true = 0 ∧
      ¬RateMonotonic bothReady (rtSpvRMS bothReady.kernel bothReady.tasks) := by
  have hfalse : (rtSpvRMS twoTasks [false, true]).priority false = 1 := by decide
  have htrue : (rtSpvRMS twoTasks [false, true]).priority true = 0 := by decide
  refine ⟨hfalse, htrue, fun R => ?_⟩
  have hle := List.rel_of_pairwise_cons R.inOrder.ready List.mem_cons_self
  have hle' : (rtSpvRMS twoTasks [false, true]).priority false ≤
    (rtSpvRMS twoTasks [false, true]).priority true := hle
  rw [hfalse, htrue] at hle'
  exact absurd hle' (by decide)

end RtaiRms
