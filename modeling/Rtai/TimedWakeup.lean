import Rtai.Anchors

/-! # The tasks that `wake_up_timed_tasks` wakes up

    The loop makes tasks ready while it walks along the timed list, and cuts the
    list only at the end.  The first task is taken `schedlat` early; the others
    when their time has come. -/

namespace RtaiTimedWakeup

open RtaiRings RtaiKernel RtaiSchedCore RtaiAnchors

variable {T S : Type} [decT : DecidableEq T] [decS : DecidableEq S] [finT : Fintype T]
  [finS : Fintype S]

/-- What is left of `task->state` without the bits of a wait. -/
def remaining (k : Kernel T S) (t : T) : TaskState := k.state t \ timedMask

/-- Nothing keeps the task from running. -/
def Released (k : Kernel T S) (t : T) : Prop := remaining k t = {.ready}

instance (k : Kernel T S) (t : T) : Decidable (Released k t) :=
  inferInstanceAs (Decidable (_ = _))

/-- A task that a scheduler of RTAI chooses: a hard one, or one with deadlines. -/
def Scheduled (k : Kernel T S) (t : T) : Prop :=
  k.isHard t = true ∨ k.policy t < 0

instance (k : Kernel T S) (t : T) : Decidable (Scheduled k t) :=
  inferInstanceAs (Decidable (_ ∨ _))

/-- **WELL-FORMED LISTS**: the timed list has the delayed tasks by their resume
    times, the ready list none of them; the fields are values of their C
    types. -/
structure Lists (k : Kernel T S) (lr lt : List T) : Prop where
  ready : Rings k.ready fun _ => lr
  timed : Rings k.timed fun _ => lt
  apart : ∀ t ∈ lt, t ∉ lr
  delayed : ∀ t ∈ lt, .delayed ∈ k.state t
  sorted : lt.Pairwise fun a b => k.resumeTime a ≤ k.resumeTime b
  times : ∀ t ∈ lt, -2 ^ 63 ≤ k.resumeTime t ∧ k.resumeTime t < 2 ^ 63
  latencies : ∀ t ∈ lt, 0 ≤ k.schedlat t ∧ k.schedlat t < 2 ^ 31
  linuxLatency : -2 ^ 31 ≤ k.linuxSchedlat ∧ k.linuxSchedlat < 2 ^ 31
  priorities : ∀ t, t ∈ lr ∨ t ∈ lt → 0 ≤ k.priority t

/-- **EXACTLY THE DUE TASKS**: a prefix of the timed list is removed, with all
    tasks whose time has come and at most the first one besides; its tasks lose
    the bits of their waits, and those that are released and `linked` are
    linked in the ready list, once and no others. -/
def TakesDue (linked : T → Prop) [DecidablePred linked] (k : Kernel T S)
    (lr lt : List T) (k' : Kernel T S) : Prop :=
  ∃ due rest lr', wakeUpTimedTasks k = some k' ∧ lt = due ++ rest ∧
    (∀ t ∈ lt, k.resumeTime t ≤ k.timeH → t ∈ due) ∧
    (∀ t ∈ due, k.resumeTime t ≤ k.timeH ∨
      lt.head? = some t ∧ k.resumeTime t - k.schedlat t ≤ k.timeH) ∧
    (Rings k'.timed fun _ => rest) ∧
    (∀ t ∈ due, Disjoint (k'.state t) timedMask) ∧
    (∀ t ∉ due, k'.state t = k.state t) ∧
    (Rings k'.ready fun _ => lr') ∧
    lr'.Perm (due.filter (fun t => Released k t ∧ linked t) ++ lr)

/-- The first test is made on the time itself: the subtraction of `schedlat` does
    not overflow, nor is the Linux task taken for a delayed one. -/
def FirstTest (k : Kernel T S) : List T → Prop
  | [] => k.timeH < RTAI_TIME_LIMIT - k.linuxSchedlat
  | t :: _ => -2 ^ 63 ≤ k.resumeTime t - k.schedlat t

/-! ## One task -/

section Task

variable {k : Kernel T S} {t : T} {lr : List T}

/-- The state of a task that has been woken up.  A soft one is left to Linux. -/
def wokenState (k : Kernel T S) (t : T) : TaskState :=
  if Released k t ∧ ¬ Scheduled k t then remaining k t ∪ {.sftrdy}
  else remaining k t

omit decS finS in
/-- **`enq_ready_edf_task`** links the task somewhere. -/
theorem enqReadyEdfTask_links (R : Rings k.ready fun _ => lr) (ht : t ∉ lr) :
    ∃ ready l₁ l₂, enqReadyEdfTask k t = some { k with ready := ready } ∧
      lr = l₁ ++ l₂ ∧ Rings ready fun _ => l₁ ++ t :: l₂ := by
  obtain ⟨l₁, l₂, rfl, h1, h2⟩ := exists_first
    (fun u => !(decide (k.policy u < 0) && decide (k.period t ≥ k.period u))) lr
  have hlen := ring_length R
  rw [List.length_append] at hlen
  have hwalk : walk (fun n => some (!(decide (readyPolicy k n < 0) &&
      decide (k.period t ≥ readyPeriod k n)))) k.ready.next (taskFuel T)
        (firstOf (l₁ ++ l₂) (.head ())) = some (firstOf l₂ (.head ())) := by
    refine R.walk_first (h := ()) ?_ (show _ = [] ++ (l₁ ++ l₂) from rfl) ?_ ?_
    · cases l₂ with
      | nil => rfl
      | cons a l => exact congrArg some (h2 a rfl)
    · exact fun u hu => congrArg some (h1 u hu)
    · unfold taskFuel
      omega
  refine ⟨_, l₁, l₂, ?_, rfl, R.insert_single ht⟩
  unfold enqReadyEdfTask
  rw [R.next_head (), hwalk]
  rfl

omit decS finS in
/-- **`enq_ready_task`** links a hard task somewhere. -/
theorem enqReadyTask_links (R : Rings k.ready fun _ => lr) (ht : t ∉ lr)
    (hhard : k.isHard t = true) (hpos : ∀ u ∈ lr, 0 ≤ k.priority u)
    (hprio : k.priority t < RT_SCHED_LINUX_PRIORITY) :
    ∃ ready l₁ l₂, enqReadyTask k t = some { k with ready := ready } ∧
      lr = l₁ ++ l₂ ∧ Rings ready fun _ => l₁ ++ t :: l₂ := by
  obtain ⟨l₁, l₂, rfl, h1, h2⟩ :=
    exists_first (fun u => decide (k.priority t < k.priority u)) lr
  refine ⟨_, l₁, l₂, ?_, rfl, R.insert_single ht⟩
  refine enqReadyTask_passes R hhard (fun u hu => hpos u (List.mem_append_left _ hu))
    (fun u hu => not_lt.mp (of_decide_eq_false (h1 u hu))) ?_
  cases l₂ with
  | nil => exact hprio
  | cons a l => exact of_decide_eq_true (h2 a rfl)

/-- What waking a task up does to the fields that change. -/
structure Wakes (k : Kernel T S) (due lr : List T) (k' : Kernel T S)
    (lr' : List T) : Prop where
  fields : ∃ depth state ready wakeup, k' = { k with
    suspdepth := depth
    state := state
    ready := ready
    wakeup := wakeup }
  woken : ∀ t ∈ due, k'.state t = wokenState k t
  others : ∀ t ∉ due, k'.state t = k.state t
  ring : Rings k'.ready fun _ => lr'
  linked : lr'.Perm (due.filter (fun t => Released k t ∧ Scheduled k t) ++ lr)
  resumed : ∀ t ∈ due, Released k t → ¬ Scheduled k t → k'.wakeup t = true
  awake : ∀ t, k.wakeup t = true → k'.wakeup t = true

/-- A task that is linked has a priority for which the loop stops. -/
def Stoppable (k : Kernel T S) (t : T) : Prop :=
  Released k t → 0 ≤ k.policy t → k.isHard t = true → k.priority t < RT_SCHED_LINUX_PRIORITY

/-- **ONE TASK IS WOKEN UP.** -/
theorem wakeUpTask_wakes (R : Rings k.ready fun _ => lr) (ht : t ∉ lr)
    (hpos : ∀ u ∈ lr, 0 ≤ k.priority u) (hstop : Stoppable k t) :
    ∃ k' lr', wakeUpTask k t = some k' ∧ Wakes k [t] lr k' lr' := by
  generalize hd : (if .suspended ∈ k.state t ∧ k.suspdepth t > 0 then
    Function.update k.suspdepth t 0 else k.suspdepth) = depth
  have hk : (if .suspended ∈ k.state t ∧ k.suspdepth t > 0 then
      { k with suspdepth := Function.update k.suspdepth t 0 } else k) =
        { k with suspdepth := depth } := by
    rw [← hd]
    split <;> rfl
  unfold wakeUpTask
  simp only [hk]
  have hself : Function.update k.state t (k.state t \ timedMask) t =
      remaining k t := Function.update_self ..
  have hother : ∀ u ∉ [t], Function.update k.state t (k.state t \ timedMask) u =
      k.state u := by
    intro u hu
    exact Function.update_of_ne (fun heq => hu (by rw [heq]; exact List.mem_cons_self)) ..
  have hfilter : ∀ p : T → Bool, [t].filter p = if p t then [t] else [] := by
    intro p
    cases hp : p t with
    | true => rw [List.filter_cons_of_pos hp]; rfl
    | false =>
      rw [List.filter_cons_of_neg (by rw [hp]; exact Bool.false_ne_true)]
      rfl
  rw [hself]
  by_cases hrel : remaining k t = {.ready}
  · rw [if_pos hrel]
    -- a task that is linked, behind `l₁`
    have hlink : ∀ ready l₁ l₂, lr = l₁ ++ l₂ →
        (Rings ready fun _ => l₁ ++ t :: l₂) → Scheduled k t →
        Wakes k [t] lr { k with
          suspdepth := depth
          state := Function.update k.state t (k.state t \ timedMask)
          ready := ready } (l₁ ++ t :: l₂) := by
      intro ready l₁ l₂ hl hring hsched
      refine ⟨⟨_, _, _, _, rfl⟩, fun u hu => ?_, hother, hring, ?_, fun u hu _ hn => ?_,
        fun _ h => h⟩
      · rw [List.mem_singleton.mp hu]
        refine hself.trans (if_neg fun h => h.2 hsched).symm
      · rw [hfilter, if_pos (decide_eq_true ⟨hrel, hsched⟩), hl]
        exact List.perm_middle
      · rw [List.mem_singleton.mp hu] at hn
        exact absurd hsched hn
    by_cases hpol : k.policy t < 0
    · obtain ⟨ready, l₁, l₂, henq, hl, hring⟩ := enqReadyEdfTask_links
        (k := { k with
          suspdepth := depth
          state := Function.update k.state t (k.state t \ timedMask) }) R ht
      refine ⟨_, _, ?_, hlink ready l₁ l₂ hl hring (Or.inr hpol)⟩
      rw [if_pos hpol]
      exact henq
    · rw [if_neg hpol]
      by_cases hhard : k.isHard t = true
      · obtain ⟨ready, l₁, l₂, henq, hl, hring⟩ := enqReadyTask_links
          (k := { k with
            suspdepth := depth
            state := Function.update k.state t (k.state t \ timedMask) })
          R ht hhard hpos (hstop hrel (not_lt.mp hpol) hhard)
        exact ⟨_, _, henq, hlink ready l₁ l₂ hl hring (Or.inl hhard)⟩
      · -- Linux runs it
        have hsoft : ¬ Scheduled k t := by
          rintro (h | h)
          · exact hhard h
          · exact hpol h
        refine ⟨_, lr, if_neg hhard, ⟨_, _, _, _, rfl⟩, fun u hu => ?_,
          fun u hu => ?_, R, ?_, fun u hu _ _ => ?_, fun u hu => ?_⟩
        · rw [List.mem_singleton.mp hu]
          show Function.update (Function.update k.state t (k.state t \ timedMask)) t
            (Function.update k.state t (k.state t \ timedMask) t ∪ {.sftrdy}) t = _
          rw [Function.update_self, hself]
          exact (if_pos ⟨hrel, hsoft⟩).symm
        · have hne : u ≠ t := fun heq => hu (by rw [heq]; exact List.mem_cons_self)
          exact (Function.update_of_ne hne ..).trans (hother u hu)
        · rw [hfilter, if_neg (by simp only [decide_eq_true_eq]; exact fun h => hsoft h.2)]
          exact List.Perm.refl _
        · rw [List.mem_singleton.mp hu]
          exact Function.update_self ..
        · show Function.update k.wakeup t true u = true
          by_cases hut : u = t
          · rw [hut, Function.update_self]
          · rw [Function.update_of_ne hut]
            exact hu
  · rw [if_neg hrel]
    refine ⟨_, lr, rfl, ⟨_, _, _, _, rfl⟩, fun u hu => ?_, hother, R, ?_,
      fun u hu h _ => ?_, fun _ h => h⟩
    · rw [List.mem_singleton.mp hu]
      exact hself.trans (if_neg fun h => hrel h.1).symm
    · rw [hfilter, if_neg (by simp only [decide_eq_true_eq]; exact fun h => hrel h.1)]
      exact List.Perm.refl _
    · rw [List.mem_singleton.mp hu] at h
      exact absurd h hrel

end Task

/-! ## The loop -/

section Loop

variable {k k₁ k₂ : Kernel T S} {t : T} {due₁ due₂ lr lr₁ lr₂ m₂ : List T}

omit decT decS finT finS in
theorem Wakes.same (h : Wakes k due₁ lr k₁ lr₁) :
    k₁.timed = k.timed ∧ k₁.priority = k.priority ∧ k₁.policy = k.policy ∧
      k₁.isHard = k.isHard ∧ k₁.resumeTime = k.resumeTime ∧ k₁.timeH = k.timeH := by
  obtain ⟨_, _, _, _, rfl⟩ := h.fields
  exact ⟨rfl, rfl, rfl, rfl, rfl, rfl⟩

omit decT decS finT finS in
/-- The tasks that have not been woken up yet are as before. -/
theorem Wakes.remaining (h : Wakes k due₁ lr k₁ lr₁) (ht : t ∉ due₁) :
    remaining k₁ t = remaining k t := by
  unfold RtaiTimedWakeup.remaining
  rw [h.others t ht]

theorem Wakes.released (h : Wakes k due₁ lr k₁ lr₁) (ht : t ∉ due₁) :
    Released k₁ t ↔ Released k t := by
  unfold Released
  rw [h.remaining ht]

theorem Wakes.scheduled (h : Wakes k due₁ lr k₁ lr₁) : Scheduled k₁ t ↔ Scheduled k t := by
  obtain ⟨-, -, hpol, hhard, -, -⟩ := h.same
  unfold Scheduled
  rw [hpol, hhard]

theorem Wakes.stoppable (h : Wakes k due₁ lr k₁ lr₁) (ht : t ∉ due₁)
    (hs : Stoppable k t) : Stoppable k₁ t := by
  obtain ⟨-, hprio, hpol, hhard, -, -⟩ := h.same
  unfold Stoppable
  rw [h.released ht, hpol, hhard, hprio]
  exact hs

/-- Some tasks after others. -/
theorem Wakes.trans (h₁ : Wakes k due₁ lr k₁ lr₁) (h₂ : Wakes k₁ due₂ lr₁ k₂ lr₂)
    (hapart : ∀ t ∈ due₂, t ∉ due₁) : Wakes k (due₁ ++ due₂) lr k₂ lr₂ := by
  have hwoken : ∀ t ∉ due₁, wokenState k₁ t = wokenState k t := by
    intro t ht
    unfold wokenState
    simp only [h₁.released ht, h₁.scheduled, h₁.remaining ht]
  constructor
  · obtain ⟨_, _, _, _, rfl⟩ := h₁.fields
    obtain ⟨d, st, rd, w, rfl⟩ := h₂.fields
    exact ⟨d, st, rd, w, rfl⟩
  · intro t ht
    by_cases h2 : t ∈ due₂
    · exact (h₂.woken t h2).trans (hwoken t (hapart t h2))
    · have h1 := (List.mem_append.mp ht).resolve_right h2
      exact (h₂.others t h2).trans (h₁.woken t h1)
  · intro t ht
    rw [List.mem_append, not_or] at ht
    exact (h₂.others t ht.2).trans (h₁.others t ht.1)
  · exact h₂.ring
  · have hsame : due₂.filter (fun t => Released k₁ t ∧ Scheduled k₁ t) =
        due₂.filter (fun t => Released k t ∧ Scheduled k t) := by
      refine List.filter_congr fun t ht => ?_
      simp only [h₁.released (hapart t ht), h₁.scheduled]
    have h := h₂.linked
    rw [hsame] at h
    refine h.trans ?_
    rw [List.filter_append, List.append_assoc]
    refine (List.Perm.append_left _ h₁.linked).trans ?_
    exact List.perm_append_comm_assoc ..
  · intro t ht hrel hsoft
    by_cases h2 : t ∈ due₂
    · refine h₂.resumed t h2 ?_ ?_
      · rw [h₁.released (hapart t h2)]
        exact hrel
      · rw [h₁.scheduled]
        exact hsoft
    · have h1 := (List.mem_append.mp ht).resolve_right h2
      exact h₂.awake t (h₁.resumed t h1 hrel hsoft)
  · exact fun t ht => h₂.awake t (h₁.awake t ht)

/-- **THE LOOP** wakes up the first task and those behind it that are due. -/
theorem wakeUpLoop_wakes (m : List T) : ∀ {k : Kernel T S} {t : T} {lr l₀ : List T}
    {fuel : Nat}, (Rings k.timed fun _ => l₀ ++ t :: (m ++ m₂)) →
    (Rings k.ready fun _ => lr) → (∀ u ∈ t :: m, u ∉ lr) →
    (∀ u, u ∈ lr ∨ u ∈ t :: m → 0 ≤ k.priority u) →
    (∀ u ∈ t :: m, Stoppable k u) → (∀ u ∈ m, k.resumeTime u ≤ k.timeH) →
    k.timeH < timedResumeTime k (firstOf m₂ (.head ())) → m.length < fuel →
    ∃ k' lr', wakeUpLoop fuel k (.elem t) = some (k', firstOf m₂ (.head ())) ∧
      Wakes k (t :: m) lr k' lr' := by
  induction m with
  | nil =>
    intro k t lr l₀ fuel R hready hout hpos hstop _ hrest hfuel
    obtain ⟨fuel, rfl⟩ : ∃ n, fuel = n + 1 := ⟨fuel - 1, by omega⟩
    obtain ⟨k', lr', hw, W⟩ := wakeUpTask_wakes hready (hout t List.mem_cons_self)
      (fun u hu => hpos u (Or.inl hu)) (hstop t List.mem_cons_self)
    refine ⟨k', lr', ?_, W⟩
    obtain ⟨htimed, -, -, -, htime, hnow⟩ := W.same
    have hnext : k'.timed.next (.elem t) = firstOf m₂ (.head ()) := by
      rw [htimed]
      exact (R.elem_links (h := ()) rfl).1
    have hlate : ¬ timedResumeTime k' (firstOf m₂ (.head ())) ≤ k'.timeH := by
      have hsame : timedResumeTime k' = timedResumeTime k := by
        funext n
        cases n with
        | head _ => rfl
        | elem u => exact congrFun htime u
      rw [hsame, hnow]
      exact not_le.mpr hrest
    unfold wakeUpLoop
    rw [hw]
    simp only [Option.bind_eq_bind, Option.bind_some, hnext]
    rw [if_neg hlate]
    rfl
  | cons u m ih =>
    intro k t lr l₀ fuel R hready hout hpos hstop hdue hrest hfuel
    obtain ⟨fuel, rfl⟩ : ∃ n, fuel = n + 1 := ⟨fuel - 1, by omega⟩
    obtain ⟨k', lr', hw, W⟩ := wakeUpTask_wakes hready (hout t List.mem_cons_self)
      (fun u hu => hpos u (Or.inl hu)) (hstop t List.mem_cons_self)
    obtain ⟨htimed, hprio, -, -, htime, hnow⟩ := W.same
    have hsame : timedResumeTime k' = timedResumeTime k := by
      funext n
      cases n with
      | head _ => rfl
      | elem u => exact congrFun htime u
    have hnext : k'.timed.next (.elem t) = .elem u := by
      rw [htimed]
      exact (R.elem_links (h := ()) rfl).1
    have hnodup : (t :: (u :: m ++ m₂)).Nodup :=
      (List.nodup_append.mp (R.nodup ())).2.1
    have htout : ∀ v ∈ u :: m, v ≠ t := by
      intro v hv heq
      rw [heq] at hv
      exact (List.nodup_cons.mp hnodup).1 (List.mem_append_left _ hv)
    have hfilter : ∀ v ∈ lr', v ∈ lr ∨ v = t := by
      intro v hv
      rcases List.mem_append.mp (W.linked.mem_iff.mp hv) with h | h
      · exact Or.inr (List.mem_singleton.mp (List.mem_of_mem_filter h))
      · exact Or.inl h
    have hR : Rings k'.timed fun _ => (l₀ ++ [t]) ++ u :: (m ++ m₂) := by
      have hl : l₀ ++ t :: (u :: m ++ m₂) = (l₀ ++ [t]) ++ u :: (m ++ m₂) := by simp
      rw [htimed, ← hl]
      exact R
    have hfuel' : m.length < fuel := Nat.lt_of_succ_lt_succ hfuel
    obtain ⟨k₂, lr₂, hloop, W₂⟩ := ih hR W.ring
      (fun v hv hin => by
        rcases hfilter v hin with h | h
        · exact hout v (List.mem_cons_of_mem _ hv) h
        · exact htout v hv h)
      (fun v hv => by
        rw [hprio]
        rcases hv with hv | hv
        · rcases hfilter v hv with h | h
          · exact hpos v (Or.inl h)
          · exact hpos v (Or.inr (by rw [h]; exact List.mem_cons_self))
        · exact hpos v (Or.inr (List.mem_cons_of_mem _ hv)))
      (fun v hv => W.stoppable (fun h => htout v hv (List.mem_singleton.mp h))
        (hstop v (List.mem_cons_of_mem _ hv)))
      (fun v hv => by rw [htime, hnow]; exact hdue v (List.mem_cons_of_mem _ hv))
      (by rw [hsame, hnow]; exact hrest) hfuel'
    refine ⟨k₂, lr₂, ?_, ?_⟩
    · have hearly : timedResumeTime k' (.elem u) ≤ k'.timeH := by
        rw [hsame, hnow]
        exact hdue u List.mem_cons_self
      unfold wakeUpLoop
      rw [hw]
      simp only [Option.bind_eq_bind, Option.bind_some, hnext]
      rw [if_pos hearly]
      exact hloop
    · exact W.trans W₂ fun v hv hin => htout v hv (List.mem_singleton.mp hin)

end Loop

/-! ## `wake_up_timed_tasks` -/

section Timer

variable {k : Kernel T S} {lr lt : List T}

omit decT decS finT finS in
theorem wokenState_disjoint (k : Kernel T S) (t : T) :
    Disjoint (wokenState k t) timedMask := by
  have hrem : Disjoint (remaining k t) timedMask := Finset.sdiff_disjoint
  unfold wokenState
  split
  · exact Finset.disjoint_union_left.mpr ⟨hrem, by decide⟩
  · exact hrem

omit decT decS finT finS in
/-- Behind a task that is not due there are none. -/
theorem none_due {l : List T} (hsort : l.Pairwise fun a b =>
    k.resumeTime a ≤ k.resumeTime b) (hhead : ∀ b ∈ l.head?, k.timeH < k.resumeTime b) :
    ∀ b ∈ l, k.timeH < k.resumeTime b := by
  cases l with
  | nil => exact nofun
  | cons a l =>
    have ha := hhead a rfl
    intro b hb
    rcases List.mem_cons.mp hb with rfl | hb
    · exact ha
    · exact lt_of_lt_of_le ha (List.rel_of_pairwise_cons hsort hb)

omit decT decS finT finS in
/-- The test of the first task, when the subtraction does not overflow. -/
theorem firstTest_iff (L : Lists k lr lt) (hfirst : FirstTest k lt) :
    toRTIME (timedResumeTime k (firstOf lt (.head ())) -
        timedSchedlat k (firstOf lt (.head ()))) ≤ k.timeH ↔
      ∃ t, lt.head? = some t ∧ k.resumeTime t - k.schedlat t ≤ k.timeH := by
  cases lt with
  | nil =>
    have hlat := L.linuxLatency
    have hfirst' : k.timeH < RTAI_TIME_LIMIT - k.linuxSchedlat := hfirst
    have heq : toRTIME (RTAI_TIME_LIMIT - k.linuxSchedlat) =
        RTAI_TIME_LIMIT - k.linuxSchedlat := by
      simp only [toRTIME, Int.bmod, RTAI_TIME_LIMIT]
      omega
    refine iff_of_false ?_ nofun
    show ¬ toRTIME (RTAI_TIME_LIMIT - k.linuxSchedlat) ≤ k.timeH
    rw [heq]
    omega
  | cons t l =>
    have htime := L.times t List.mem_cons_self
    have hlat := L.latencies t List.mem_cons_self
    have hfirst' : -2 ^ 63 ≤ k.resumeTime t - k.schedlat t := hfirst
    have heq : toRTIME (k.resumeTime t - k.schedlat t) = k.resumeTime t - k.schedlat t := by
      simp only [toRTIME, Int.bmod]
      omega
    show toRTIME (k.resumeTime t - k.schedlat t) ≤ k.timeH ↔ _
    rw [heq]
    exact ⟨fun h => ⟨t, rfl, h⟩, fun ⟨u, hu, h⟩ => by cases hu; exact h⟩

/-- **EXACTLY THE DUE TASKS ARE WOKEN UP**: those that RTAI schedules are linked in
    the ready list, the others are left to Linux. -/
theorem due_tasks_woken (L : Lists k lr lt) (hnow : k.timeH < RTAI_TIME_LIMIT)
    (hfirst : FirstTest k lt) (hstop : ∀ t ∈ lt, Stoppable k t) :
    ∃ k', TakesDue (Scheduled k) k lr lt k' ∧
      ∀ t ∈ lt, .delayed ∉ k'.state t → Released k t → ¬ Scheduled k t →
        k'.state t = {.ready, .sftrdy} ∧ k'.wakeup t = true := by
  have htest := firstTest_iff L hfirst
  by_cases hdue : ∃ t, lt.head? = some t ∧ k.resumeTime t - k.schedlat t ≤ k.timeH
  · obtain ⟨t, ht, hearly⟩ := hdue
    cases lt with
    | nil => exact nomatch ht
    | cons t' l =>
      cases ht
      -- the loop stops at the first task that is not due
      obtain ⟨m, m₂, rfl, h1, h2⟩ :=
        exists_first (fun u => decide (k.timeH < k.resumeTime u)) l
      have hm : ∀ u ∈ m, k.resumeTime u ≤ k.timeH := fun u hu =>
        not_lt.mp (of_decide_eq_false (h1 u hu))
      have hsort := (List.pairwise_cons.mp L.sorted).2
      have hrest : ∀ u ∈ m₂, k.timeH < k.resumeTime u :=
        none_due (List.pairwise_append.mp hsort).2.1 fun b hb =>
          of_decide_eq_true (h2 b hb)
      have hmem : ∀ u ∈ t :: m, u ∈ t :: (m ++ m₂) := fun u hu => by
        rcases List.mem_cons.mp hu with rfl | hu
        · exact List.mem_cons_self
        · exact List.mem_cons_of_mem _ (List.mem_append_left _ hu)
      have hlen := ring_length L.timed
      rw [List.length_cons, List.length_append] at hlen
      have hnode : k.timeH < timedResumeTime k (firstOf m₂ (.head ())) := by
        cases m₂ with
        | nil => exact hnow
        | cons a l => exact hrest a List.mem_cons_self
      have hR : Rings k.timed fun _ => [] ++ t :: (m ++ m₂) := L.timed
      have hfuel : m.length < taskFuel T := by
        unfold taskFuel
        omega
      obtain ⟨k', lr', hloop, W⟩ := wakeUpLoop_wakes m hR L.ready
        (fun u hu => L.apart u (hmem u hu))
        (fun u hu => L.priorities u (hu.imp_right (hmem u)))
        (fun u hu => hstop u (hmem u hu)) hm hnode hfuel
      -- those in front of it are cut off the ring at once
      have hcut := L.timed.cut (h := ()) (show _ = (t :: m) ++ m₂ from rfl)
      rw [update_unit, ← W.same.1] at hcut
      refine ⟨{ k' with timed := ⟨Function.update k'.timed.next (.head ())
          (firstOf m₂ (.head ())), Function.update k'.timed.prev
          (firstOf m₂ (.head ())) (.head ())⟩ },
        ⟨t :: m, m₂, lr', ?_, rfl, ?_, ?_, hcut, ?_, W.others, W.ring, W.linked⟩, ?_⟩
      · unfold wakeUpTimedTasks
        dsimp only
        rw [L.timed.next_head (), if_pos (htest.mpr ⟨t, rfl, hearly⟩), firstOf_cons, hloop]
        rfl
      · intro u hu hle
        rcases List.mem_cons.mp hu with rfl | hu
        · exact List.mem_cons_self
        · rcases List.mem_append.mp hu with hu | hu
          · exact List.mem_cons_of_mem _ hu
          · exact absurd hle (not_le.mpr (hrest u hu))
      · intro u hu
        rcases List.mem_cons.mp hu with rfl | hu
        · exact Or.inr ⟨rfl, hearly⟩
        · exact Or.inl (hm u hu)
      · intro u hu
        show Disjoint (k'.state u) timedMask
        rw [W.woken u hu]
        exact wokenState_disjoint k u
      · intro u hu hdel hrel hsoft
        have hin : u ∈ t :: m := by
          by_contra hout
          refine hdel ?_
          show .delayed ∈ k'.state u
          rw [W.others u hout]
          exact L.delayed u hu
        refine ⟨?_, W.resumed u hin hrel hsoft⟩
        show k'.state u = _
        rw [W.woken u hin, wokenState, if_pos ⟨hrel, hsoft⟩]
        have hrel' : remaining k u = {.ready} := hrel
        rw [hrel']
        rfl
  -- the first task is not due, so none is
  · have hnone : ∀ t ∈ lt, k.timeH < k.resumeTime t := by
      refine none_due L.sorted fun t ht => ?_
      have hlat := (L.latencies t (List.mem_of_mem_head? ht)).1
      have hlate : ¬ k.resumeTime t - k.schedlat t ≤ k.timeH := fun h =>
        hdue ⟨t, ht, h⟩
      omega
    refine ⟨k, ⟨[], lt, lr, ?_, rfl, ?_, nofun, L.timed, nofun, fun _ _ => rfl,
      L.ready, List.Perm.refl _⟩, ?_⟩
    · unfold wakeUpTimedTasks
      dsimp only
      rw [L.timed.next_head (), if_neg (mt htest.mp hdue)]
    · exact fun t ht hle => absurd hle (not_le.mpr (hnone t ht))
    · exact fun t ht hdel => absurd (L.delayed t ht) hdel

end Timer

/-- One task that is delayed to time 0, at time 0. -/
def oneDelayed (hard : Bool) : Kernel (Fin 1) Unit :=
  { boot ⟨fun _ => hard, fun _ => 0, fun _ => none, fun _ => 0, 0,
      fun _ => ⟨.cntSem, 0, false⟩, 0⟩ with
    state := fun _ => {.ready, .delayed}
    resumeTime := fun _ => 0
    timed := Links.empty.insertBefore (.elem 0) (.head ()) }

theorem lists_oneDelayed (hard : Bool) : Lists (oneDelayed hard) [] [0] where
  ready := Rings.empty
  timed := by
    have hempty : Rings (Links.empty : Links (Node (Fin 1) Unit))
      fun _ => [] ++ [] := Rings.empty
    exact hempty.insert_single List.not_mem_nil
  apart := fun _ _ => List.not_mem_nil
  delayed := fun _ _ => by
    show Flag.delayed ∈ ({.ready, .delayed} : TaskState)
    decide
  sorted := List.pairwise_singleton ..
  times := fun _ _ => ⟨by show (-2 ^ 63 : Int) ≤ 0; decide, by show (0 : Int) < 2 ^ 63; decide⟩
  latencies := fun _ _ => ⟨le_refl 0, by show (0 : Int) < 2 ^ 31; decide⟩
  linuxLatency := ⟨by show (-2 ^ 31 : Int) ≤ 0; decide, by show (0 : Int) < 2 ^ 31; decide⟩
  priorities := by
    intro t _
    show (0 : Int) ≤ if hard then 0 else BASE_SOFT_PRIORITY + 0
    split <;> decide

/-- A hard and a soft task that are due, a hard one that is not, and one that is
    ready. -/
def threeDelayed : Kernel (Fin 4) Unit :=
  { boot ⟨fun t => decide (t ≠ 1), fun _ => 0, fun _ => none, fun _ => 0, 0,
      fun _ => ⟨.cntSem, 0, false⟩, 0⟩ with
    state := fun t => if t = 3 then {.ready} else {.ready, .delayed}
    resumeTime := fun t => if t = 2 then 5 else 0
    timed := ((Links.empty.insertBefore (.elem 0) (.head ())).insertBefore
      (.elem 1) (.head ())).insertBefore (.elem 2) (.head ())
    ready := Links.empty.insertBefore (.elem 3) (.head ()) }

theorem lists_threeDelayed : Lists threeDelayed [3] [0, 1, 2] where
  ready := by
    have hempty : Rings (Links.empty : Links (Node (Fin 4) Unit))
      fun _ => [] ++ [] := Rings.empty
    exact hempty.insert_single List.not_mem_nil
  timed := by
    have h0 : Rings (Links.empty : Links (Node (Fin 4) Unit)) fun _ => [] ++ [] := Rings.empty
    have h1 : Rings _ fun _ => [(0 : Fin 4)] ++ [] :=
      h0.insert_single (x := 0) List.not_mem_nil
    have h2 : Rings _ fun _ => [(0 : Fin 4), 1] ++ [] :=
      h1.insert_single (x := 1) (by decide)
    exact h2.insert_single (x := 2) (by decide)
  apart := by decide
  delayed := by decide
  sorted := by decide
  times := by decide
  latencies := by decide
  linuxLatency := by decide
  priorities := by decide

/-- The hard task that is due is linked, the soft one is left to Linux, and the
    third stays in the timed list. -/
theorem due_tasks_woken_three :
    ∃ k', TakesDue (Scheduled threeDelayed) threeDelayed [3] [0, 1, 2] k' ∧
      k'.state 1 = {.ready, .sftrdy} ∧ k'.wakeup 1 = true := by
  have hfirst : FirstTest threeDelayed [0, 1, 2] :=
    show (-2 ^ 63 : Int) ≤ 0 by decide
  have hhard : ∀ t, threeDelayed.isHard t = true →
      threeDelayed.priority t < RT_SCHED_LINUX_PRIORITY := by
    decide
  have hstop : ∀ t ∈ [0, 1, 2], Stoppable threeDelayed t :=
    fun t _ _ _ h => hhard t h
  obtain ⟨k', h, hsoft⟩ :=
    due_tasks_woken lists_threeDelayed (by decide) hfirst hstop
  refine ⟨k', h, hsoft 1 (by decide) ?_ (by decide) (by decide)⟩
  obtain ⟨due, rest, lr', -, -, hdue, -, -, hbits, -, -, -⟩ := h
  have h1 : (1 : Fin 4) ∈ due := hdue 1 (by decide) (by decide)
  intro hdel
  exact Finset.disjoint_left.mp (hbits 1 h1) hdel (by decide)

/-- **A SOFT TASK IS NOT LINKED**: Linux runs it. -/
theorem soft_task_not_linked : Lists (oneDelayed false) [] [0] ∧
      ∀ k', ¬ TakesDue (fun _ => True) (oneDelayed false) [] [0] k' := by
  refine ⟨lists_oneDelayed false, ?_⟩
  rintro k' ⟨due, rest, lr', hw, -, hdue, -, -, -, -, hring, hperm⟩
  have hready : k'.ready = Links.empty :=
    (Option.some.inj (congrArg (Option.map fun k => k.ready) hw)).symm
  have hin : (0 : Fin 1) ∈ due := hdue 0 List.mem_cons_self (le_refl 0)
  have hlinked : (0 : Fin 1) ∈ lr' := by
    refine hperm.mem_iff.mpr (List.mem_append_left _ (List.mem_filter.mpr ⟨hin, ?_⟩))
    decide
  rw [hready] at hring
  have hnext := hring.next_head ()
  cases lr' with
  | nil => exact absurd hlinked List.not_mem_nil
  | cons a l => exact nomatch hnext

end RtaiTimedWakeup
