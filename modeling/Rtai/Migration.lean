import Rtai.Cpus
import Rtai.ReadyList

/-! # Moving a task to another CPU

    A task that is moved takes its place in the task list and in the timed list
    along.  Its place in the ready list, the load counters and the low bits of
    its `tid` stay behind, and its times are scaled from the clock to the
    timer. -/

namespace RtaiMigration

open RtaiRings RtaiRuns RtaiCpus
open RtaiKernel (Flag TaskState toRTIME RT_SCHED_LINUX_PRIORITY RTAI_TIME_LIMIT)
open RtaiReadyList (pairwise_insert)

variable {T : Type} [decT : DecidableEq T] [finT : Fintype T]

/-! ## Well formed lists -/

section Lists

variable {links links' : Links (Node T Nat)} {on on' : T → Prop}
  {cpu cpu' : T → Nat} {order order' : T → T → Prop} {t : T}

omit decT finT in
/-- The same lists, described in other words. -/
theorem wellFormed_same (W : WellFormed links on cpu order)
    (hon : ∀ u, on' u ↔ on u) (hcpu : ∀ u, on u → cpu' u = cpu u)
    (horder : ∀ u v, on u → on v → order u v → order' u v) :
    WellFormed links on' cpu' order' := by
  obtain ⟨L, R, hmem, hpw⟩ := W
  refine ⟨L, R, fun c u => ?_, fun c => ?_⟩
  · rw [hmem, hon]
    refine and_congr_right fun hu => ?_
    rw [hcpu u hu]
  · exact (hpw c).imp_of_mem fun hu hv h =>
      horder _ _ ((hmem c _).mp hu).1 ((hmem c _).mp hv).1 h

omit decT finT in
/-- A node that is in no list may be linked anywhere. -/
theorem wellFormed_congr (W : WellFormed links on cpu order) (ht : ¬ on t)
    (hnext : ∀ n, n ≠ .elem t → links'.next n = links.next n)
    (hprev : ∀ n, n ≠ .elem t → links'.prev n = links.prev n) :
    WellFormed links' on cpu order := by
  obtain ⟨L, R, hmem, hpw⟩ := W
  have hne : ∀ c, ∀ a ∈ L c, (.elem a : Node T Nat) ≠ .elem t := by
    intro c a ha heq
    cases heq
    exact ht ((hmem c t).mp ha).1
  refine ⟨L, ⟨fun c => ?_, R.nodup, R.apart⟩, hmem, hpw⟩
  exact (R.chain c).congr (hnext _ nofun) (fun a ha => hnext _ (hne c a ha))
    (fun a ha => hprev _ (hne c a ha)) (hprev _ nofun)

omit finT in
/-- **A task is unlinked.** -/
theorem wellFormed_unlink (W : WellFormed links on cpu order) (ht : on t)
    (hon : ∀ u, on' u ↔ on u ∧ u ≠ t) (hcpu : ∀ u, u ≠ t → cpu' u = cpu u)
    (horder : ∀ u v, u ≠ t → v ≠ t → order u v → order' u v) :
    WellFormed (links.unlink (.elem t)) on' cpu' order' := by
  obtain ⟨L, R, hmem, hpw⟩ := W
  have hin : t ∈ L (cpu t) := (hmem _ t).mpr ⟨ht, rfl⟩
  have hmem' : ∀ c u, u ∈ Function.update L (cpu t) ((L (cpu t)).erase t) c ↔
      u ∈ L c ∧ u ≠ t := by
    intro c u
    by_cases hc : c = cpu t
    · subst hc
      rw [Function.update_self, (R.nodup _).mem_erase_iff]
      exact and_comm
    · rw [Function.update_of_ne hc]
      refine ⟨fun hu => ⟨hu, ?_⟩, fun hu => hu.1⟩
      rintro rfl
      exact hc ((hmem c _).mp hu).2.symm
  refine ⟨_, R.unlink_erase hin, fun c u => ?_, fun c => ?_⟩
  · rw [hmem', hmem, hon]
    constructor
    · rintro ⟨⟨h1, h2⟩, h3⟩
      exact ⟨⟨h1, h3⟩, (hcpu u h3).trans h2⟩
    · rintro ⟨⟨h1, h3⟩, h2⟩
      exact ⟨⟨h1, (hcpu u h3).symm.trans h2⟩, h3⟩
  · have hsub : (Function.update L (cpu t) ((L (cpu t)).erase t) c).Pairwise
        order := by
      by_cases hc : c = cpu t
      · subst hc
        rw [Function.update_self]
        exact (hpw _).sublist List.erase_sublist
      · rw [Function.update_of_ne hc]
        exact hpw c
    exact hsub.imp_of_mem fun hu hv h =>
      horder _ _ ((hmem' c _).mp hu).2 ((hmem' c _).mp hv).2 h

omit finT in
/-- **A task is linked** at a place of the list of its CPU. -/
theorem wellFormed_insert {L : Nat → List T} (R : Rings links L)
    (hmem : ∀ c u, u ∈ L c ↔ on u ∧ cpu u = c) (hpw : ∀ c, (L c).Pairwise order)
    (ht : ¬ on t) {l₁ l₂ : List T} (hL : L (cpu' t) = l₁ ++ l₂)
    (hon : ∀ u, on' u ↔ on u ∨ u = t) (hcpu : ∀ u, u ≠ t → cpu' u = cpu u)
    (horder : ∀ u v, on u → on v → order u v → order' u v)
    (h1 : ∀ a ∈ l₁, order' a t) (h2 : ∀ b ∈ l₂, order' t b) :
    WellFormed (links.insertBefore (.elem t) (firstOf l₂ (.head (cpu' t))))
      on' cpu' order' := by
  have hout : ∀ c, t ∉ L c := fun c hc => ht ((hmem c t).mp hc).1
  have hne : ∀ c u, u ∈ L c → u ≠ t := by
    rintro c u hu rfl
    exact hout c hu
  refine ⟨_, R.insert hL hout, fun c u => ?_, fun c => ?_⟩
  · have hmem' : u ∈ Function.update L (cpu' t) (l₁ ++ t :: l₂) c ↔
        u ∈ L c ∨ (u = t ∧ c = cpu' t) := by
      by_cases hc : c = cpu' t
      · subst hc
        rw [Function.update_self, hL]
        simp only [List.mem_append, List.mem_cons, and_true]
        exact ⟨fun h => by tauto, fun h => by tauto⟩
      · rw [Function.update_of_ne hc]
        exact ⟨Or.inl, fun h => h.resolve_right fun h => hc h.2⟩
    rw [hmem', hon]
    constructor
    · rintro (hu | ⟨rfl, rfl⟩)
      · obtain ⟨h1, h2⟩ := (hmem c u).mp hu
        exact ⟨Or.inl h1, (hcpu u (hne c u hu)).trans h2⟩
      · exact ⟨Or.inr rfl, rfl⟩
    · rintro ⟨hu | rfl, hc⟩
      · by_cases hut : u = t
        · subst hut
          exact absurd hu ht
        · exact Or.inl ((hmem c u).mpr ⟨hu, (hcpu u hut).symm.trans hc⟩)
      · exact Or.inr ⟨rfl, hc.symm⟩
  · have horder' : ∀ c, (L c).Pairwise order' := fun c =>
      (hpw c).imp_of_mem fun hu hv h =>
        horder _ _ ((hmem c _).mp hu).1 ((hmem c _).mp hv).1 h
    by_cases hc : c = cpu' t
    · subst hc
      rw [Function.update_self]
      exact pairwise_insert (hL ▸ horder' _) h1 h2
    · rw [Function.update_of_ne hc]
      exact horder' c

end Lists

/-! ## The task lists -/

section TaskLists

variable {x : Cpus T} {t : T}

omit finT in
/-- Unlinking from a list that a null pointer ends is unlinking from a ring. -/
theorem taskLinks_unlink {on : T → Prop} {order : T → T → Prop}
    (W : WellFormed (taskLinks x) on x.runnableOnCpus order) (ht : on t) :
    taskLinks (unlinkTask x t) = (taskLinks x).unlink (.elem t) := by
  obtain ⟨L, R, hmem, -⟩ := W
  have hin : t ∈ L (x.runnableOnCpus t) := (hmem _ t).mpr ⟨ht, rfl⟩
  obtain ⟨l₁, l₂, hL⟩ := List.append_of_mem hin
  have hprev : x.prev (.elem t) = lastOf (.head (x.runnableOnCpus t)) l₁ :=
    (R.elem_links hL).2
  -- the node before the task is in the same list
  have hhome : home x (x.prev (.elem t)) = x.runnableOnCpus t := by
    rw [hprev]
    rcases lastOf_mem l₁ (.head (x.runnableOnCpus t) : Node T Nat) with
      he | ⟨b, hb, he⟩
    · rw [he]
      rfl
    · rw [he]
      have hbL : b ∈ L (x.runnableOnCpus t) := by
        rw [hL]
        exact List.mem_append_left _ hb
      exact ((hmem _ b).mp hbL).2
  have hnext : (taskLinks (unlinkTask x t)).next = ((taskLinks x).unlink (.elem t)).next := by
    funext n
    rw [taskLinks_next]
    show (Function.update x.next (x.prev (.elem t)) (x.next (.elem t)) n).elim
        (.head (home x n)) .elem =
      Function.update (taskLinks x).next (x.prev (.elem t)) ((taskLinks x).next (.elem t)) n
    by_cases hn : n = x.prev (.elem t)
    · subst hn
      rw [Function.update_self, Function.update_self, hhome, taskLinks_next]
      rfl
    · rw [Function.update_of_ne hn, Function.update_of_ne hn, taskLinks_next]
  have hprev' : (taskLinks (unlinkTask x t)).prev = ((taskLinks x).unlink (.elem t)).prev := by
    show Function.update x.prev _ _ = Function.update x.prev _ _
    rfl
  exact congr (congrArg Links.mk hnext) hprev'

omit finT in
/-- Appending to it is linking before the head. -/
theorem taskLinks_append {c : Nat} (hc : x.runnableOnCpus t = c)
    (hp : x.prev (.head c) ≠ .elem t) :
    taskLinks (appendTask x t c) = (taskLinks x).insertBefore (.elem t) (.head c) := by
  have hnext : (taskLinks (appendTask x t c)).next =
      ((taskLinks x).insertBefore (.elem t) (.head c)).next := by
    funext n
    rw [taskLinks_next]
    show (Function.update (Function.update x.next (.elem t) none)
        (x.prev (.head c)) (some t) n).elim (.head (home x n)) .elem =
      Function.update (Function.update (taskLinks x).next (x.prev (.head c))
        (.elem t)) (.elem t) (.head c) n
    by_cases hn : n = .elem t
    · subst hn
      rw [Function.update_self, Function.update_of_ne hp.symm, Function.update_self]
      exact congrArg Node.head hc
    · rw [Function.update_of_ne hn]
      by_cases hnp : n = x.prev (.head c)
      · subst hnp
        rw [Function.update_self, Function.update_self]
        rfl
      · rw [Function.update_of_ne hnp, Function.update_of_ne hnp,
          Function.update_of_ne hn, taskLinks_next]
  exact congr (congrArg Links.mk hnext) rfl

omit finT in
/-- **A task is appended** to the list of its CPU. -/
theorem tasks_append {on on' : T → Prop} {cpu : T → Nat}
    (W : WellFormed (taskLinks x) on cpu fun _ _ => True) (ht : ¬ on t)
    (hon : ∀ u, on' u ↔ on u ∨ u = t)
    (hcpu : ∀ u, u ≠ t → x.runnableOnCpus u = cpu u) :
    WellFormed (taskLinks (appendTask x t (x.runnableOnCpus t))) on'
      x.runnableOnCpus fun _ _ => True := by
  obtain ⟨L, R, hmem, hpw⟩ := W
  have hp : x.prev (.head (x.runnableOnCpus t)) ≠ .elem t := by
    have hlast := (R.chain (x.runnableOnCpus t)).prev_eq
    intro he
    rw [show (taskLinks x).prev = x.prev from rfl, he] at hlast
    refine elem_ne_lastOf ?_ hlast
    exact fun hin => ht ((hmem _ t).mp hin).1
  rw [taskLinks_append rfl hp]
  have hL : L (x.runnableOnCpus t) = L (x.runnableOnCpus t) ++ [] :=
    (List.append_nil _).symm
  exact wellFormed_insert R hmem hpw ht hL hon hcpu (fun _ _ _ _ _ => trivial)
    (fun _ _ => trivial) (fun _ _ => trivial)

end TaskLists

/-! ## The ready list and the timed list -/

section Enqueue

variable {x x' : Cpus T} {t : T}

theorem length_le_fuel {links : Links (Node T Nat)} {L : Nat → List T}
    (R : Rings links L) (c : Nat) : (L c).length < taskFuel T := by
  have := (R.nodup c).length_le_card
  show _ < Fintype.card T + 2
  omega

/-- The priorities are those of an `int` that is not negative. -/
def Legal (x : Cpus T) : Prop :=
  ∀ t, 0 ≤ x.priority t ∧ x.priority t ≤ RT_SCHED_LINUX_PRIORITY

/-- Where `enq_ready_task` links a task. -/
theorem readyPos_place {L : Nat → List T} (R : Rings x.ready L)
    (hpw : ∀ c, (L c).Pairwise fun t u => x.priority t ≤ x.priority u)
    (hlegal : Legal x) {pos : Node T Nat} (h : readyPos x t = some pos) :
    ∃ l₁ l₂, L (x.runnableOnCpus t) = l₁ ++ l₂ ∧
      pos = firstOf l₂ (.head (x.runnableOnCpus t)) ∧
      (∀ a ∈ l₁, x.priority a ≤ x.priority t) ∧
      ∀ b ∈ l₂, x.priority t ≤ x.priority b := by
  have habove : ∀ {l₁ l₂ : List T}, L (x.runnableOnCpus t) = l₁ ++ l₂ →
      (∀ b ∈ l₂.head?, x.priority t ≤ x.priority b) →
      ∀ b ∈ l₂, x.priority t ≤ x.priority b := by
    intro l₁ l₂ hL hfirst b hb
    cases l₂ with
    | nil => exact nomatch hb
    | cons a l =>
      have ha := hfirst a rfl
      have hsorted := hpw (x.runnableOnCpus t)
      rw [hL, List.pairwise_append] at hsorted
      rcases List.mem_cons.mp hb with rfl | hb
      · exact ha
      · exact ha.trans (List.rel_of_pairwise_cons hsorted.2.1 hb)
  have h0 : L (x.runnableOnCpus t) = [] ++ L (x.runnableOnCpus t) := rfl
  simp only [readyPos, R.next_head] at h
  split at h
  · next hlt =>
      cases h
      refine ⟨[], _, h0, rfl, nofun, habove h0 fun b hb => ?_⟩
      cases hl : L (x.runnableOnCpus t) with
      | nil =>
        rw [hl] at hb
        exact nomatch hb
      | cons a l =>
        rw [hl] at hb hlt
        cases hb
        exact le_of_lt hlt
  · next hge =>
      -- a walk that ends has met something behind the task
      have hbelow : x.priority t < RT_SCHED_LINUX_PRIORITY := by
        have hs := walk_stop h
        replace hs := Option.some.inj hs
        simp only [Bool.or_eq_true, decide_eq_true_eq] at hs
        cases pos with
        | head c =>
          rcases hs with hs | hs
          · exact absurd hs (by show ¬ RT_SCHED_LINUX_PRIORITY < 0; decide)
          · exact hs
        | elem u =>
          obtain ⟨hu0, hu1⟩ := hlegal u
          rcases hs with hs | hs
          · exact absurd hs (not_lt.mpr hu0)
          · exact lt_of_lt_of_le hs hu1
      cases hl : L (x.runnableOnCpus t) with
      | nil =>
        rw [hl] at hge
        exact absurd hbelow hge
      | cons a l =>
        rw [hl] at hge h
        have hfirst : L (x.runnableOnCpus t) = [] ++ a :: l := hl
        rw [firstOf_cons, (R.elem_links hfirst).1] at h
        have hstop : (fun n => some (decide (readyPriority x n < 0) ||
            decide (x.priority t < readyPriority x n)))
            (.head (x.runnableOnCpus t) : Node T Nat) = some true := by
          have hb : decide (x.priority t < RT_SCHED_LINUX_PRIORITY) = true :=
            decide_eq_true hbelow
          show some (_ || decide (x.priority t < RT_SCHED_LINUX_PRIORITY)) = _
          rw [hb, Bool.or_true]
        have hrest : L (x.runnableOnCpus t) = [a] ++ l := hl
        obtain ⟨m₁, m₂, rfl, rfl, hpassed, hstopped⟩ :=
          R.walk_split hstop hrest h
        refine ⟨a :: m₁, m₂, rfl, rfl, ?_, ?_⟩
        · intro b hb
          rcases List.mem_cons.mp hb with rfl | hb
          · exact not_lt.mp hge
          · have hb : (decide (x.priority b < 0) ||
                decide (x.priority t < x.priority b)) = false :=
              Option.some.inj (hpassed b hb)
            simp only [Bool.or_eq_false_iff, decide_eq_false_iff_not] at hb
            exact not_lt.mp hb.2
        · have h2 : L (x.runnableOnCpus t) = (a :: m₁) ++ m₂ := hl
          refine habove h2 fun b hb => ?_
          have hb : (decide (x.priority b < 0) ||
              decide (x.priority t < x.priority b)) = true :=
            Option.some.inj (hstopped b hb)
          simp only [Bool.or_eq_true, decide_eq_true_eq] at hb
          exact le_of_lt (hb.resolve_left (not_lt.mpr (hlegal b).1))

/-- **`enq_ready_task`** -/
theorem enqReadyTask_wellFormed {on on' : T → Prop}
    (W : WellFormed x.ready on x.runnableOnCpus fun t u => x.priority t ≤ x.priority u)
    (hlegal : Legal x) (ht : ¬ on t) (hon : ∀ u, on' u ↔ on u ∨ u = t)
    (h : enqReadyTask x t = some x') :
    ∃ ready, x' = { x with ready := ready } ∧ WellFormed ready on' x.runnableOnCpus
        fun t u => x.priority t ≤ x.priority u := by
  obtain ⟨L, R, hmem, hpw⟩ := W
  obtain ⟨pos, hpos, h⟩ := Option.bind_eq_some_iff.mp h
  cases h
  obtain ⟨l₁, l₂, hL, rfl, h1, h2⟩ := readyPos_place R hpw hlegal hpos
  exact ⟨_, rfl, wellFormed_insert R hmem hpw ht hL hon (fun _ _ => rfl)
    (fun _ _ _ _ h => h) h1 h2⟩

/-- The times in a timed list are below the limit. -/
def Limited (x : Cpus T) (on : T → Prop) : Prop :=
  ∀ t, on t → x.resumeTime t ≤ RTAI_TIME_LIMIT

/-- **`enq_timed_task`** -/
theorem enqTimedTask_wellFormed {on on' : T → Prop} (W : WellFormed x.timed on x.runnableOnCpus
      fun t u => x.resumeTime t ≤ x.resumeTime u)
    (hlimit : Limited x on) (ht : ¬ on t) (hon : ∀ u, on' u ↔ on u ∨ u = t)
    (h : enqTimedTask x t = some x') :
    ∃ timed, x' = { x with timed := timed } ∧ x.resumeTime t ≤ RTAI_TIME_LIMIT ∧
      WellFormed timed on' x.runnableOnCpus fun t u => x.resumeTime t ≤ x.resumeTime u := by
  obtain ⟨L, R, hmem, hpw⟩ := W
  obtain ⟨pos, hpos, h⟩ := Option.bind_eq_some_iff.mp h
  cases h
  rw [R.next_head] at hpos
  have h0 : L (x.runnableOnCpus t) = [] ++ L (x.runnableOnCpus t) := rfl
  -- a walk that ends has met something that is due later
  have hbelow : x.resumeTime t ≤ RTAI_TIME_LIMIT := by
    have hs := walk_stop hpos
    replace hs := Option.some.inj hs
    simp only [gt_iff_lt, Bool.not_eq_true', decide_eq_false_iff_not, not_lt] at hs
    obtain ⟨m₁, m₂, hm, rfl⟩ := R.walk_mem h0 hpos
    cases m₂ with
    | nil => exact hs
    | cons b m₂ =>
      have hb : b ∈ L (x.runnableOnCpus t) := by
        rw [hm]
        exact List.mem_append_cons_self
      exact hs.trans (hlimit b ((hmem _ b).mp hb).1)
  have hstop : (fun n => some (!decide (x.resumeTime t > timedResumeTime x n)))
      (.head (x.runnableOnCpus t) : Node T Nat) = some true := by
    have hd : decide (x.resumeTime t > RTAI_TIME_LIMIT) = false :=
      decide_eq_false (not_lt.mpr hbelow)
    show some (!decide (x.resumeTime t > RTAI_TIME_LIMIT)) = _
    rw [hd]
    rfl
  obtain ⟨m₁, m₂, hL, rfl, hpassed, hstopped⟩ := R.walk_split hstop h0 hpos
  refine ⟨_, rfl, hbelow, wellFormed_insert R hmem hpw ht hL hon
    (fun _ _ => rfl) (fun _ _ _ _ h => h) ?_ ?_⟩
  · intro a ha
    have hb := Option.some.inj (hpassed a ha)
    simp only [Bool.not_eq_false', decide_eq_true_eq] at hb
    exact le_of_lt hb
  · intro b hb
    cases m₂ with
    | nil => exact nomatch hb
    | cons a m₂ =>
      have ha := Option.some.inj (hstopped a rfl)
      simp only [gt_iff_lt, Bool.not_eq_true', decide_eq_false_iff_not, not_lt] at ha
      have hsorted := hpw (x.runnableOnCpus t)
      rw [hL, List.pairwise_append] at hsorted
      rcases List.mem_cons.mp hb with rfl | hb
      · exact ha
      · exact le_trans ha (List.rel_of_pairwise_cons hsorted.2.1 hb)

/-- A task that is due before the limit finds its place. -/
theorem enqTimedTask_returns {on : T → Prop} (W : WellFormed x.timed on x.runnableOnCpus
      fun t u => x.resumeTime t ≤ x.resumeTime u)
    (h : x.resumeTime t ≤ RTAI_TIME_LIMIT) : ∃ x', enqTimedTask x t = some x' := by
  obtain ⟨L, R, -, -⟩ := W
  have h0 : L (x.runnableOnCpus t) = [] ++ L (x.runnableOnCpus t) := rfl
  have hstop : (fun n => some (!decide (x.resumeTime t > timedResumeTime x n)))
      (.head (x.runnableOnCpus t) : Node T Nat) = some true := by
    have hd : decide (x.resumeTime t > RTAI_TIME_LIMIT) = false :=
      decide_eq_false (not_lt.mpr h)
    show some (!decide (x.resumeTime t > RTAI_TIME_LIMIT)) = _
    rw [hd]
    rfl
  have hdef : ∀ a, (fun n => some (!decide (x.resumeTime t >
      timedResumeTime x n))) (.elem a : Node T Nat) ≠ none := fun _ => nofun
  obtain ⟨p, hp⟩ := @Rings.walk_ends T Nat x.timed L R _
    (fun n => some (!decide (x.resumeTime t > timedResumeTime x n))) hstop hdef
    _ _ _ h0 (length_le_fuel R _)
  refine ⟨_, Option.bind_eq_some_iff.mpr ⟨p, ?_, rfl⟩⟩
  rw [R.next_head]
  exact hp

end Enqueue

/-! ## The invariant -/

/-- What the tasks satisfy as long as none has been moved: the low bits of
    every `tid` are the CPU of the task, and no two are the same. -/
structure Placed (x : Cpus T) : Prop where
  tasks : WellFormed (taskLinks x) (fun t => x.magic t) x.runnableOnCpus fun _ _ => True
  ready : WellFormed x.ready (fun t => x.magic t ∧ x.state t = {.ready})
    x.runnableOnCpus fun t u => x.priority t ≤ x.priority u
  timed : WellFormed x.timed (fun t => x.magic t ∧ .delayed ∈ x.state t)
    x.runnableOnCpus fun t u => x.resumeTime t ≤ x.resumeTime u
  limit : Limited x fun t => x.magic t ∧ .delayed ∈ x.state t
  legal : Legal x
  counts : ∀ c, x.tasksPerCpu c =
    (Finset.univ.filter fun t => x.magic t ∧ x.runnableOnCpus t = c).card
  cpu : ∀ t, x.magic t → x.tid t % 16 = x.runnableOnCpus t
  tids : ∀ t u, x.magic t → x.magic u → x.tid t = x.tid u → t = u
  pid : x.rtPid % 16 = 0

section Finding

variable {x : Cpus T} {t : T}

omit decT finT in
/-- The `next` pointer of a node in a list. -/
theorem next_eq_head {n : Node T Nat} {l : List T} {c : Nat}
    (h : (taskLinks x).next n = firstOf l (.head c)) : x.next n = l.head? := by
  rw [taskLinks_next] at h
  cases l with
  | nil =>
    cases hn : x.next n with
    | none => rfl
    | some u =>
      rw [hn] at h
      cases h
  | cons a l =>
    cases hn : x.next n with
    | none =>
      rw [hn] at h
      cases h
    | some u =>
      rw [hn] at h
      cases h
      rfl

omit finT in
/-- The walk finds the first task with the number. -/
theorem findLoop_finds {L : Nat → List T} (R : Rings (taskLinks x) L) {c : Nat}
    {pid : Int} (ht : x.tid t = pid) :
    ∀ {fuel : Nat} {l₁ l₂ : List T}, L c = l₁ ++ l₂ → l₂.length < fuel →
      t ∈ l₂ → (∀ u ∈ l₂, x.tid u = pid → u = t) →
      findLoop x pid fuel l₂.head? = some t := by
  intro fuel
  induction fuel with
  | zero =>
    intro l₁ l₂ _ hlt
    exact absurd hlt (Nat.not_lt_zero _)
  | succ fuel ih =>
    intro l₁ l₂ hL hlt hmem honly
    cases l₂ with
    | nil => exact nomatch hmem
    | cons a l =>
      simp only [List.head?_cons, findLoop]
      by_cases ha : x.tid a = pid
      · rw [if_pos ha, honly a List.mem_cons_self ha]
      · rw [if_neg ha, next_eq_head (R.elem_links hL).1]
        have hL' : L c = (l₁ ++ [a]) ++ l := by
          rw [hL, List.append_assoc]
          rfl
        refine ih hL' (Nat.lt_of_succ_lt_succ hlt) ?_
          fun u hu => honly u (List.mem_cons_of_mem _ hu)
        rcases List.mem_cons.mp hmem with rfl | hm
        · exact absurd ht ha
        · exact hm

/-- **EVERY TASK IS FOUND BY ITS `tid`**. -/
theorem Placed.found (P : Placed x) (ht : x.magic t) :
    rtFindTaskByPid x (x.tid t) = some t := by
  obtain ⟨L, R, hmem, -⟩ := P.tasks
  have hc : (x.tid t % 16).toNat = x.runnableOnCpus t := by
    rw [P.cpu t ht]
    exact Int.toNat_natCast _
  have h0 : L (x.runnableOnCpus t) = [] ++ L (x.runnableOnCpus t) := rfl
  simp only [rtFindTaskByPid, hc, next_eq_head (R.next_head _)]
  refine findLoop_finds R rfl h0 (length_le_fuel R _) ((hmem _ t).mpr ⟨ht, rfl⟩) ?_
  intro u hu hut
  exact P.tids u t ((hmem _ u).mp hu).1 ht hut

theorem Placed.sound (P : Placed x) : Sound x :=
  ⟨P.tasks, P.ready, P.timed, P.counts, fun _ ht => P.found ht⟩

end Finding

/-! ## The services -/

section Services

variable {m : Machine} {x x' : Cpus T} {t : T}

/-- Only the ready list, the timed list and what they depend on change. -/
theorem Placed.lists (P : Placed x) {s : T → TaskState}
    {p a b c : T → Int} {r d : Links (Node T Nat)}
    (hready : WellFormed r (fun t => x.magic t ∧ s t = {.ready})
      x.runnableOnCpus fun t u => p t ≤ p u)
    (htimed : WellFormed d (fun t => x.magic t ∧ .delayed ∈ s t)
      x.runnableOnCpus fun t u => b t ≤ b u)
    (hlimit : ∀ t, x.magic t ∧ .delayed ∈ s t → b t ≤ RTAI_TIME_LIMIT)
    (hlegal : ∀ t, 0 ≤ p t ∧ p t ≤ RT_SCHED_LINUX_PRIORITY) :
    Placed { x with
      state := s
      priority := p
      period := a
      resumeTime := b
      periodicResumeTime := c
      ready := r
      timed := d } :=
  ⟨P.tasks, hready, htimed, hlimit, hlegal, P.counts, P.cpu, P.tids, P.pid⟩

omit finT in
/-- A task whose state changes is in a list no more, and the others are as
    before. -/
theorem on_list_iff (x : Cpus T) (t : T) (q : TaskState → Prop) {v : TaskState}
    (hv : ¬ q v) (u : T) :
    x.magic u ∧ q (Function.update x.state t v u) ↔ (x.magic u ∧ q (x.state u)) ∧ u ≠ t := by
  by_cases hu : u = t
  · subst hu
    rw [Function.update_self]
    exact ⟨fun h => absurd h.2 hv, fun h => absurd rfl h.2⟩
  · rw [Function.update_of_ne hu]
    exact ⟨fun h => ⟨h, hu⟩, fun h => h.1⟩

/-- The ready list without a task that is not ready any more. -/
theorem Placed.remReady (P : Placed x) (ht : x.magic t) {v : TaskState} (hv : v ≠ {.ready}) :
    WellFormed (remReadyTask x t).ready
      (fun u => x.magic u ∧ Function.update x.state t v u = {.ready})
      x.runnableOnCpus fun u w => x.priority u ≤ x.priority w := by
  have hon := on_list_iff x t (fun w => w = {.ready}) hv
  simp only [remReadyTask]
  split
  · next hs =>
      exact wellFormed_unlink P.ready ⟨ht, hs⟩ hon (fun _ _ => rfl) fun _ _ _ _ h => h
  · next hs =>
      refine wellFormed_same P.ready (fun u => ?_) (fun _ _ => rfl) fun _ _ _ _ h => h
      rw [hon]
      refine ⟨fun h => h.1, fun h => ⟨h, ?_⟩⟩
      rintro rfl
      exact hs h.2

/-- The timed list without a task that is not delayed any more. -/
theorem Placed.remTimed (P : Placed x) (ht : x.magic t) {v : TaskState} (hv : .delayed ∉ v) :
    WellFormed (remTimedTask x t).timed
      (fun u => x.magic u ∧ .delayed ∈ Function.update x.state t v u)
      x.runnableOnCpus fun u w => x.resumeTime u ≤ x.resumeTime w := by
  have hon := on_list_iff x t (fun w => .delayed ∈ w) hv
  simp only [remTimedTask]
  split
  · next hs =>
      exact wellFormed_unlink P.timed ⟨ht, hs⟩ hon (fun _ _ => rfl) fun _ _ _ _ h => h
  · next hs =>
      refine wellFormed_same P.timed (fun u => ?_) (fun _ _ => rfl) fun _ _ _ _ h => h
      rw [hon]
      refine ⟨fun h => h.1, fun h => ⟨h, ?_⟩⟩
      rintro rfl
      exact hs h.2

omit decT finT in
/-- A list whose tasks do not change. -/
theorem wellFormed_state [DecidableEq T] {links : Links (Node T Nat)}
    {magic : T → Bool} {state : T → TaskState} {q : TaskState → Prop}
    {cpu : T → Nat} {order : T → T → Prop} {v : TaskState}
    (W : WellFormed links (fun u => magic u ∧ q (state u)) cpu order)
    (h : q v ↔ q (state t)) :
    WellFormed links (fun u => magic u ∧ q (Function.update state t v u)) cpu
      order := by
  refine wellFormed_same W (fun u => ?_) (fun _ _ => rfl) fun _ _ _ _ h => h
  by_cases hu : u = t
  · subst hu
    rw [Function.update_self, h]
  · rw [Function.update_of_ne hu]

/-- A task with a bit that keeps it from running is not ready. -/
theorem union_ne_ready {s bits : TaskState} (hne : bits ≠ ∅)
    (hbits : .ready ∉ bits) : s ∪ bits ≠ {.ready} := by
  intro h
  obtain ⟨f, hf⟩ := Finset.nonempty_iff_ne_empty.mpr hne
  have hfr : f ∈ ({.ready} : TaskState) := h ▸ Finset.mem_union_right _ hf
  rw [Finset.mem_singleton] at hfr
  exact hbits (hfr ▸ hf)

/-- **A task is held.** -/
theorem Placed.hold (P : Placed x) (ht : x.magic t) {bits : TaskState}
    (hne : bits ≠ ∅) (hbits : .ready ∉ bits) {resumeTime : Int}
    (h : holdTask x t bits resumeTime = some x') : Placed x' := by
  have hready := P.remReady ht (union_ne_ready (s := x.state t) hne hbits)
  have hfields : remReadyTask x t =
      { x with ready := (remReadyTask x t).ready } := by
    simp only [remReadyTask]
    split <;> rfl
  generalize hr : (remReadyTask x t).ready = r at hready hfields
  simp only [holdTask, hfields] at h
  split at h
  · next hd =>
      obtain ⟨hin, hout⟩ := hd
      -- the task goes into the timed list with a new time
      have hnew : ∀ u, x.magic u ∧ .delayed ∈ Function.update x.state t (x.state t ∪ bits) u ↔
          (x.magic u ∧ .delayed ∈ x.state u) ∨ u = t := by
        intro u
        by_cases hu : u = t
        · subst hu
          rw [Function.update_self]
          exact ⟨fun _ => Or.inr rfl, fun _ => ⟨ht, Finset.mem_union_right _ hin⟩⟩
        · rw [Function.update_of_ne hu]
          exact ⟨Or.inl, fun h => h.resolve_right hu⟩
      have hother : ∀ u, x.magic u ∧ .delayed ∈ x.state u →
          Function.update x.resumeTime t resumeTime u = x.resumeTime u := by
        rintro u ⟨-, hu⟩
        refine Function.update_of_ne ?_ ..
        rintro rfl
        exact hout hu
      have W : WellFormed x.timed (fun u => x.magic u ∧ .delayed ∈ x.state u)
          x.runnableOnCpus fun u w =>
            Function.update x.resumeTime t resumeTime u ≤
              Function.update x.resumeTime t resumeTime w :=
        wellFormed_same P.timed (fun _ => Iff.rfl) (fun _ _ => rfl)
          fun u w hu hw h => by rw [hother u hu, hother w hw]; exact h
      have hlim : ∀ u, x.magic u ∧ .delayed ∈ x.state u →
          Function.update x.resumeTime t resumeTime u ≤ RTAI_TIME_LIMIT := by
        intro u hu
        rw [hother u hu]
        exact P.limit u hu
      obtain ⟨timed, rfl, hle, W'⟩ := enqTimedTask_wellFormed
        (by exact W) (by exact hlim) (fun hon => hout hon.2) hnew h
      refine P.lists hready W' (fun u hu => ?_) P.legal
      rcases (hnew u).mp hu with hu | rfl
      · exact hlim u hu
      · exact hle
  · next hd =>
      cases h
      have hsame : .delayed ∈ x.state t ∪ bits ↔ .delayed ∈ x.state t := by
        rw [Finset.mem_union]
        refine ⟨fun h => ?_, Or.inl⟩
        by_contra hout
        exact hd ⟨h.resolve_left hout, hout⟩
      have htimed := wellFormed_state (t := t) (q := fun s => .delayed ∈ s) P.timed hsame
      refine P.lists hready htimed (fun u hu => P.limit u ?_) P.legal
      refine ⟨hu.1, ?_⟩
      by_cases hut : u = t
      · subst hut
        rw [Function.update_self] at hu
        exact hsame.mp hu.2
      · rw [Function.update_of_ne hut] at hu
        exact hu.2

/-- **A task is freed.** -/
theorem Placed.free (P : Placed x) (ht : x.magic t) {bits : TaskState}
    (h : freeTask x t bits = some x') : Placed x' := by
  by_cases hs : x.state t = {.ready}
  · -- nothing to free it from
    have hnot : Flag.delayed ∉ x.state t := by
      rw [hs]
      decide
    have hx : (if .delayed ∈ bits then remTimedTask x t else x) = x := by
      split
      · exact if_neg hnot
      · rfl
    simp only [freeTask, hx, if_pos hs] at h
    cases h
    exact P
  · have htimed : WellFormed (if .delayed ∈ bits then remTimedTask x t else x).timed
        (fun u => x.magic u ∧ .delayed ∈ Function.update x.state t (x.state t \ bits) u)
        x.runnableOnCpus fun u w => x.resumeTime u ≤ x.resumeTime w := by
      by_cases hd : Flag.delayed ∈ bits
      · rw [if_pos hd]
        exact P.remTimed ht fun hin => (Finset.mem_sdiff.mp hin).2 hd
      · rw [if_neg hd]
        refine wellFormed_state (q := fun s => .delayed ∈ s) P.timed ?_
        rw [Finset.mem_sdiff]
        exact ⟨fun h => h.1, fun h => ⟨h, hd⟩⟩
    have hlim : ∀ u, x.magic u ∧ .delayed ∈ Function.update x.state t (x.state t \ bits) u →
          x.resumeTime u ≤ RTAI_TIME_LIMIT := by
      rintro u ⟨hm, hu⟩
      refine P.limit u ⟨hm, ?_⟩
      by_cases hut : u = t
      · subst hut
        rw [Function.update_self] at hu
        exact (Finset.mem_sdiff.mp hu).1
      · rw [Function.update_of_ne hut] at hu
        exact hu
    have hfields : (if .delayed ∈ bits then remTimedTask x t else x) =
        { x with timed :=
          (if .delayed ∈ bits then remTimedTask x t else x).timed } := by
      simp only [remTimedTask]
      split
      · split <;> rfl
      · rfl
    generalize hd : (if .delayed ∈ bits then remTimedTask x t else x).timed = d
      at htimed hfields
    simp only [freeTask, hfields, if_neg hs, Function.update_self] at h
    split at h
    · next hv =>
        have hnew : ∀ u, x.magic u ∧
            Function.update x.state t (x.state t \ bits) u = {.ready} ↔
            (x.magic u ∧ x.state u = {.ready}) ∨ u = t := by
          intro u
          by_cases hu : u = t
          · subst hu
            rw [Function.update_self]
            exact ⟨fun _ => Or.inr rfl, fun _ => ⟨ht, hv⟩⟩
          · rw [Function.update_of_ne hu]
            exact ⟨Or.inl, fun h => h.resolve_right hu⟩
        obtain ⟨ready, rfl, W⟩ := enqReadyTask_wellFormed (by exact P.ready)
          (by exact P.legal) (fun hon => hs hon.2) hnew h
        exact P.lists W htimed hlim P.legal
    · next hv =>
        cases h
        refine P.lists ?_ htimed hlim P.legal
        exact wellFormed_state (q := fun s => s = {.ready}) P.ready
          ⟨fun h => absurd h hv, fun h => absurd h hs⟩

omit finT decT in
/-- A task that is taken out and put back. -/
theorem and_ne_or {q : T → Prop} {u : T} (ht : q t) : q u ↔ (q u ∧ u ≠ t) ∨ u = t := by
  constructor
  · intro hu
    by_cases hut : u = t
    · exact Or.inr hut
    · exact Or.inl ⟨hu, hut⟩
  · rintro (hu | rfl)
    · exact hu.1
    · exact ht

/-- **A task gets a new priority.** -/
theorem Placed.renq (P : Placed x) (ht : x.magic t) {priority : Int}
    (h0 : 0 ≤ priority) (h1 : priority ≤ RT_SCHED_LINUX_PRIORITY)
    (h : renqReadyTask x t priority = some x') : Placed x' := by
  simp only [renqReadyTask] at h
  split at h
  · cases h
    exact P
  · have hlegal : ∀ u, 0 ≤ Function.update x.priority t priority u ∧
        Function.update x.priority t priority u ≤ RT_SCHED_LINUX_PRIORITY := by
      intro u
      by_cases hu : u = t
      · subst hu
        rw [Function.update_self]
        exact ⟨h0, h1⟩
      · rw [Function.update_of_ne hu]
        exact P.legal u
    have horder : ∀ u w, u ≠ t → w ≠ t → x.priority u ≤ x.priority w →
        Function.update x.priority t priority u ≤ Function.update x.priority t priority w := by
      intro u w hu hw hle
      rw [Function.update_of_ne hu, Function.update_of_ne hw]
      exact hle
    split at h
    · next hs =>
        have hout : ∀ u, ((x.magic u ∧ x.state u = {.ready}) ∧ u ≠ t) ↔
            (x.magic u ∧ x.state u = {.ready}) ∧ u ≠ t := fun _ => Iff.rfl
        have W := wellFormed_unlink P.ready ⟨ht, hs⟩ hout (fun _ _ => rfl) horder
        obtain ⟨ready, rfl, W'⟩ := enqReadyTask_wellFormed (by exact W)
          (by exact hlegal) (fun hon => hon.2 rfl) (fun u => and_ne_or
            (q := fun u => x.magic u ∧ x.state u = {.ready}) ⟨ht, hs⟩) h
        exact P.lists W' P.timed P.limit hlegal
    · next hs =>
        cases h
        refine P.lists (wellFormed_same P.ready (fun _ => Iff.rfl)
          (fun _ _ => rfl) fun u w hu hw hle => ?_) P.timed P.limit hlegal
        refine horder u w ?_ ?_ hle
        · rintro rfl
          exact hs hu.2
        · rintro rfl
          exact hs hw.2

/-- Times are set. -/
theorem Placed.setTimes (P : Placed x) (hd : .delayed ∉ x.state t)
    {a c : T → Int} {time : Int} :
    Placed { x with
      period := a
      resumeTime := Function.update x.resumeTime t time
      periodicResumeTime := c } := by
  have hother : ∀ u, x.magic u ∧ .delayed ∈ x.state u →
      Function.update x.resumeTime t time u = x.resumeTime u := by
    rintro u ⟨-, hu⟩
    refine Function.update_of_ne ?_ ..
    rintro rfl
    exact hd hu
  refine P.lists P.ready ?_ (fun u hu => ?_) P.legal
  · refine wellFormed_same P.timed (fun _ => Iff.rfl) (fun _ _ => rfl) ?_
    intro u w hu hw h
    rw [hother u hu, hother w hw]
    exact h
  · rw [hother u hu]
    exact P.limit u hu

end Services

/-! ## Creating and deleting -/

section Lives

variable {m : Machine} {x x' : Cpus T} {t : T}

/-- An `int` keeps its low bits. -/
theorem toInt_emod (a : Int) : toInt a % 16 = a % 16 := by
  have hdvd : (16 : Int) ∣ (2 ^ 32 : Nat) := ⟨2 ^ 28, by decide⟩
  calc toInt a % 16 = toInt a % (2 ^ 32 : Nat) % 16 := (Int.emod_emod_of_dvd _ hdvd).symm
    _ = a % (2 ^ 32 : Nat) % 16 := by rw [toInt, Int.bmod_emod]
    _ = a % 16 := Int.emod_emod_of_dvd _ hdvd

/-- The load counters with one task more. -/
theorem counts_insert {c : Nat} (ht : ¬ x.magic t) (h : ∀ c, x.tasksPerCpu c =
      (Finset.univ.filter fun u => x.magic u ∧ x.runnableOnCpus u = c).card)
    (d : Nat) :
    Function.update x.tasksPerCpu c (x.tasksPerCpu c + 1) d =
      (Finset.univ.filter fun u => Function.update x.magic t true u ∧
        Function.update x.runnableOnCpus t c u = d).card := by
  have hmem : ∀ u, u ∈ (Finset.univ.filter fun u =>
      Function.update x.magic t true u ∧ Function.update x.runnableOnCpus t c u = d) ↔
      u ∈ (Finset.univ.filter fun u => x.magic u ∧ x.runnableOnCpus u = d) ∨
        (u = t ∧ c = d) := by
    intro u
    simp only [Finset.mem_filter, Finset.mem_univ, true_and]
    by_cases hu : u = t
    · subst hu
      rw [Function.update_self, Function.update_self]
      exact ⟨fun h => Or.inr ⟨rfl, h.2⟩,
        fun h => ⟨rfl, h.elim (fun h => absurd h.1 ht) fun h => h.2⟩⟩
    · rw [Function.update_of_ne hu, Function.update_of_ne hu]
      exact ⟨Or.inl, fun h => h.resolve_right fun h => hu h.1⟩
  by_cases hd : d = c
  · subst hd
    have hset : (Finset.univ.filter fun u =>
        Function.update x.magic t true u ∧ Function.update x.runnableOnCpus t d u = d) =
        insert t (Finset.univ.filter fun u =>
          x.magic u ∧ x.runnableOnCpus u = d) := by
      ext u
      rw [hmem, Finset.mem_insert]
      exact ⟨fun h => h.elim Or.inr fun h => Or.inl h.1,
        fun h => h.elim (fun h => Or.inr ⟨h, rfl⟩) Or.inl⟩
    have hout : t ∉ (Finset.univ.filter fun u =>
        x.magic u ∧ x.runnableOnCpus u = d) :=
      fun h => ht (Finset.mem_filter.mp h).2.1
    rw [hset, Finset.card_insert_of_notMem hout, Function.update_self, h d]
    push_cast
    rfl
  · have hset : (Finset.univ.filter fun u =>
        Function.update x.magic t true u ∧ Function.update x.runnableOnCpus t c u = d) =
        (Finset.univ.filter fun u => x.magic u ∧ x.runnableOnCpus u = d) := by
      ext u
      rw [hmem]
      exact ⟨fun h => h.resolve_right fun h => hd h.2.symm, Or.inl⟩
    rw [hset, Function.update_of_ne hd, h d]

/-- The load counters with one task less. -/
theorem counts_erase (ht : x.magic t) (h : ∀ c, x.tasksPerCpu c =
      (Finset.univ.filter fun u => x.magic u ∧ x.runnableOnCpus u = c).card)
    (d : Nat) :
    Function.update x.tasksPerCpu (x.runnableOnCpus t)
        (x.tasksPerCpu (x.runnableOnCpus t) - 1) d =
      (Finset.univ.filter fun u => Function.update x.magic t false u ∧
        x.runnableOnCpus u = d).card := by
  have hset : (Finset.univ.filter fun u =>
      Function.update x.magic t false u ∧ x.runnableOnCpus u = d) =
      (Finset.univ.filter fun u => x.magic u ∧ x.runnableOnCpus u = d).erase
        t := by
    ext u
    simp only [Finset.mem_filter, Finset.mem_univ, true_and, Finset.mem_erase]
    by_cases hu : u = t
    · subst hu
      rw [Function.update_self]
      exact ⟨fun h => (nomatch h.1), fun h => absurd rfl h.1⟩
    · rw [Function.update_of_ne hu]
      exact ⟨fun h => ⟨hu, h⟩, fun h => h.2⟩
  rw [hset]
  by_cases hd : d = x.runnableOnCpus t
  · subst hd
    have hin : t ∈ (Finset.univ.filter fun u =>
        x.magic u ∧ x.runnableOnCpus u = x.runnableOnCpus t) :=
      Finset.mem_filter.mpr ⟨Finset.mem_univ t, ht, rfl⟩
    have hpos := Finset.card_pos.mpr ⟨t, hin⟩
    rw [Finset.card_erase_of_mem hin, Function.update_self, h]
    omega
  · have hout : t ∉ (Finset.univ.filter fun u =>
        x.magic u ∧ x.runnableOnCpus u = d) :=
      fun h => hd (Finset.mem_filter.mp h).2.2.symm
    rw [Finset.erase_eq_of_notMem hout, Function.update_of_ne hd, h d]

omit finT in
/-- The lists of a state in which only the new task is described otherwise. -/
theorem wellFormed_new {links : Links (Node T Nat)} {magic : T → Bool}
    {q q' : T → Prop} {cpu cpu' : T → Nat} {order order' : T → T → Prop}
    (W : WellFormed links (fun u => magic u ∧ q u) cpu order)
    (ht : ¬ magic t) (hq : ¬ q' t) (hqs : ∀ u, u ≠ t → (q' u ↔ q u))
    (hcpu : ∀ u, u ≠ t → cpu' u = cpu u)
    (horder : ∀ u w, u ≠ t → w ≠ t → order u w → order' u w) :
    WellFormed links (fun u => Function.update magic t true u ∧ q' u) cpu'
      order' := by
  have hne : ∀ u, magic u ∧ q u → u ≠ t := by
    rintro u hu rfl
    exact ht hu.1
  refine wellFormed_same W (fun u => ?_) (fun u hu => hcpu u (hne u hu))
    fun u w hu hw => horder u w (hne u hu) (hne w hw)
  by_cases hu : u = t
  · subst hu
    exact ⟨fun h => absurd h.2 hq, fun h => absurd h.1 ht⟩
  · rw [Function.update_of_ne hu, hqs u hu]

omit finT in
/-- The task lists with one task more. -/
theorem tasks_create {y : Cpus T} {c : Nat} (hc : y.runnableOnCpus t = c)
    (W : WellFormed (taskLinks x) (fun u => x.magic u) x.runnableOnCpus fun _ _ => True)
    (ht : ¬ x.magic t) (hnext : y.next = x.next) (hprev : y.prev = x.prev)
    (hcpu : ∀ u, u ≠ t → y.runnableOnCpus u = x.runnableOnCpus u)
    (hmagic : ∀ u, y.magic u ↔ x.magic u ∨ u = t) :
    WellFormed (taskLinks (appendTask y t c)) (fun u => y.magic u)
      y.runnableOnCpus fun _ _ => True := by
  subst hc
  have hhome : ∀ n, n ≠ .elem t → home y n = home x n := by
    intro n hn
    cases n with
    | head c => rfl
    | elem u => exact hcpu u fun hu => hn (congrArg Node.elem hu)
  have W' : WellFormed (taskLinks y) (fun u => x.magic u) x.runnableOnCpus
      fun _ _ => True := by
    refine wellFormed_congr W ht (fun n hn => ?_) fun n _ => congrFun hprev n
    rw [taskLinks_next, taskLinks_next, hnext, hhome n hn]
  exact tasks_append W' ht hmagic hcpu

omit finT in
theorem magic_new {magic : T → Bool} {u : T} :
    Function.update magic t true u ↔ magic u ∨ u = t := by
  by_cases hu : u = t
  · subst hu
    exact ⟨fun _ => Or.inr rfl, fun _ => Function.update_self ..⟩
  · rw [Function.update_of_ne hu]
    exact ⟨Or.inl, fun h => h.resolve_right hu⟩

omit finT in
theorem magic_gone {magic : T → Bool} {u : T} :
    Function.update magic t false u ↔ magic u ∧ u ≠ t := by
  by_cases hu : u = t
  · subst hu
    rw [Function.update_self]
    exact ⟨fun h => (nomatch h), fun h => absurd rfl h.2⟩
  · rw [Function.update_of_ne hu]
    exact ⟨fun h => ⟨h, hu⟩, fun h => h.1⟩

/-- A new number with the CPU in its low bits. -/
theorem Placed.tids_new (P : Placed x) (ht : ¬ x.magic t) {c : Nat} {v : Int}
    (hv : v % 16 = c) (hfresh : ∀ u, x.magic u → x.tid u ≠ v) :
    (∀ u, Function.update x.magic t true u → Function.update x.tid t v u % 16 =
        (Function.update x.runnableOnCpus t c u : Nat)) ∧
    ∀ u w, Function.update x.magic t true u → Function.update x.magic t true w →
      Function.update x.tid t v u = Function.update x.tid t v w → u = w := by
  have hne : ∀ u, x.magic u → u ≠ t := by
    rintro u hu rfl
    exact ht hu
  constructor
  · intro u hu
    rcases magic_new.mp hu with hu | rfl
    · rw [Function.update_of_ne (hne u hu), Function.update_of_ne (hne u hu)]
      exact P.cpu u hu
    · rw [Function.update_self, Function.update_self]
      exact hv
  · intro u w hu hw heq
    rcases magic_new.mp hu with hu' | rfl
    · rw [Function.update_of_ne (hne u hu')] at heq
      rcases magic_new.mp hw with hw' | rfl
      · rw [Function.update_of_ne (hne w hw')] at heq
        exact P.tids u w hu' hw' heq
      · rw [Function.update_self] at heq
        exact absurd heq (hfresh u hu')
    · rw [Function.update_self] at heq
      rcases magic_new.mp hw with hw' | rfl
      · rw [Function.update_of_ne (hne w hw')] at heq
        exact absurd heq.symm (hfresh w hw')
      · rfl

/-- **A task is created.** -/
theorem Placed.init (P : Placed x) {linux : Bool} {priority : Int}
    {cpuid : Nat} (hprio : priority ≤ RT_SCHED_LINUX_PRIORITY)
    (hguard : StaysPut m x (.init t linux priority cpuid))
    (h : rtTaskInitCpuid m x t linux priority cpuid = some x') :
    Placed x' := by
  obtain ⟨hbits, hfresh⟩ := hguard
  simp only [rtTaskInitCpuid] at h
  generalize (if m.online ≤ 1 then 0 else cpuid) = c at h hbits hfresh
  split at h
  · exact nomatch h
  · next hnot =>
      obtain ⟨hmagic, -, hpos⟩ : ¬ x.magic t ∧ ¬ c ≥ m.nrCpus ∧ ¬ priority < 0 :=
        ⟨fun h => hnot (.inl h), fun h => hnot (.inr (.inl h)), fun h => hnot (.inr (.inr h))⟩
      have hstate : (if linux then (∅ : TaskState)
          else {.suspended, .ready}) ≠ {.ready} := by
        cases linux <;> decide
      have hdelayed : Flag.delayed ∉ (if linux then (∅ : TaskState)
          else {.suspended, .ready}) := by
        cases linux <;> decide
      generalize (if linux then (∅ : TaskState) else {.suspended, .ready}) = s
        at h hstate hdelayed
      cases h
      have hcpu : ∀ u, u ≠ t → Function.update x.runnableOnCpus t c u = x.runnableOnCpus u :=
        fun u hu => Function.update_of_ne hu ..
      have hready : WellFormed x.ready (fun u => Function.update x.magic t true u ∧
            Function.update x.state t s u = {.ready})
          (Function.update x.runnableOnCpus t c) fun u w =>
            Function.update x.priority t priority u ≤
              Function.update x.priority t priority w := by
        refine wellFormed_new P.ready hmagic ?_ (fun u hu => ?_) hcpu ?_
        · rw [Function.update_self]
          exact hstate
        · rw [Function.update_of_ne hu]
        · intro u w hu hw hle
          rw [Function.update_of_ne hu, Function.update_of_ne hw]
          exact hle
      have htimed : WellFormed x.timed (fun u => Function.update x.magic t true u ∧
            .delayed ∈ Function.update x.state t s u)
          (Function.update x.runnableOnCpus t c) fun u w =>
            Function.update x.resumeTime t RTAI_TIME_LIMIT u ≤
              Function.update x.resumeTime t RTAI_TIME_LIMIT w := by
        refine wellFormed_new P.timed hmagic ?_ (fun u hu => ?_) hcpu ?_
        · rw [Function.update_self]
          exact hdelayed
        · rw [Function.update_of_ne hu]
        · intro u w hu hw hle
          rw [Function.update_of_ne hu, Function.update_of_ne hw]
          exact hle
      have hlimit : ∀ u, Function.update x.magic t true u ∧
          .delayed ∈ Function.update x.state t s u →
            Function.update x.resumeTime t RTAI_TIME_LIMIT u ≤
              RTAI_TIME_LIMIT := by
        rintro u ⟨hm, hd⟩
        by_cases hu : u = t
        · subst hu
          rw [Function.update_self]
        · rw [Function.update_of_ne hu] at hm hd ⊢
          exact P.limit u ⟨hm, hd⟩
      have hlegal : ∀ u, 0 ≤ Function.update x.priority t priority u ∧
          Function.update x.priority t priority u ≤ RT_SCHED_LINUX_PRIORITY := by
        intro u
        by_cases hu : u = t
        · subst hu
          rw [Function.update_self]
          exact ⟨not_lt.mp hpos, hprio⟩
        · rw [Function.update_of_ne hu]
          exact P.legal u
      -- the number of the task is new, and its low bits are the CPU
      have hpid : toInt (x.rtPid - 0x10) % 16 = 0 := by
        have := P.pid
        rw [toInt_emod]
        omega
      have hnew : toInt (toInt (x.rtPid - 0x10) + c) % 16 = c := by
        rw [toInt_emod]
        omega
      have hc : Function.update x.runnableOnCpus t c t = c :=
        Function.update_self ..
      have htasks := tasks_create (t := t) (y := { x with
          magic := Function.update x.magic t true
          runnableOnCpus := Function.update x.runnableOnCpus t c })
        hc P.tasks hmagic rfl rfl hcpu fun u => magic_new
      obtain ⟨hbits', htids⟩ := P.tids_new hmagic (c := c)
        (v := toInt (toInt (x.rtPid - 0x10) + (Function.update x.runnableOnCpus t c t : Nat)))
        (by rw [hc]; exact hnew) (by rw [hc]; exact hfresh)
      exact ⟨htasks, hready, htimed, hlimit, hlegal,
        counts_insert hmagic P.counts, hbits', htids, hpid⟩

omit finT in
/-- What `clr_rtext` changes. -/
theorem clrRtext_eq : clrRtext x t = { x with
    magic := Function.update x.magic t false
    state := Function.update x.state t ∅
    next := (unlinkTask x t).next
    prev := (unlinkTask x t).prev
    ready := (remReadyTask x t).ready
    timed := (remTimedTask x t).timed
    tasksPerCpu := Function.update x.tasksPerCpu (x.runnableOnCpus t)
      (x.tasksPerCpu (x.runnableOnCpus t) - 1) } := by
  simp only [clrRtext, remTimedTask, remReadyTask, unlinkTask]
  by_cases hd : .delayed ∈ x.state t
  · by_cases hr : x.state t = {.ready}
    · simp only [if_pos hd, if_pos hr]
    · simp only [if_pos hd, if_neg hr]
  · by_cases hr : x.state t = {.ready}
    · simp only [if_neg hd, if_pos hr]
    · simp only [if_neg hd, if_neg hr]

omit finT in
/-- The lists of a state in which a task that was in none is gone. -/
theorem wellFormed_gone {links : Links (Node T Nat)} {magic : T → Bool}
    {q : T → Prop} {cpu : T → Nat} {order : T → T → Prop}
    (W : WellFormed links (fun u => magic u ∧ q u) cpu order) (hq : ¬ q t) :
    WellFormed links (fun u => Function.update magic t false u ∧ q u) cpu
      order := by
  refine wellFormed_same W (fun u => ?_) (fun _ _ => rfl) fun _ _ _ _ h => h
  by_cases hu : u = t
  · subst hu
    exact ⟨fun h => absurd h.2 hq, fun h => absurd h.2 hq⟩
  · rw [Function.update_of_ne hu]

/-- **A task is deleted.** -/
theorem Placed.delete (P : Placed x) (ht : x.magic t) : Placed (clrRtext x t) := by
  have hready := P.remReady ht (v := ∅) (Finset.singleton_ne_empty _).symm
  have htimed := P.remTimed ht (v := ∅) (Finset.notMem_empty _)
  have htasks : WellFormed (taskLinks (unlinkTask x t))
      (fun u => Function.update x.magic t false u) x.runnableOnCpus
      fun _ _ => True := by
    rw [taskLinks_unlink P.tasks ht]
    exact wellFormed_unlink P.tasks ht (fun _ => magic_gone) (fun _ _ => rfl)
      fun _ _ _ _ _ => trivial
  have hlimit : ∀ u, Function.update x.magic t false u ∧
      .delayed ∈ Function.update x.state t ∅ u → x.resumeTime u ≤ RTAI_TIME_LIMIT := by
    rintro u ⟨hm, hd⟩
    obtain ⟨hm, hu⟩ := magic_gone.mp hm
    rw [Function.update_of_ne hu] at hd
    exact P.limit u ⟨hm, hd⟩
  have hstate : Function.update x.state t ∅ t = ∅ := Function.update_self ..
  have hready' := wellFormed_gone (t := t) hready
    fun h => Finset.singleton_ne_empty _ (h.symm.trans hstate)
  have htimed' := wellFormed_gone (t := t) htimed fun h => Finset.notMem_empty _ (hstate ▸ h)
  rw [clrRtext_eq]
  refine ⟨htasks, hready', htimed', hlimit, P.legal, counts_erase ht P.counts, ?_, ?_, P.pid⟩
  · intro u hu
    exact P.cpu u (magic_gone.mp hu).1
  · intro u w hu hw
    exact P.tids u w (magic_gone.mp hu).1 (magic_gone.mp hw).1

end Lives

/-! ## Moving -/

section Moves

variable {m : Machine} {x x' : Cpus T} {t : T} {cpuid : Nat}

/-- What a move leaves, and what it makes of the times. -/
theorem move_fields (hl : x.lnxtsk t = false)
    (h : rtSetRunnableOnCpuid m x t cpuid = some x') :
    x'.magic = x.magic ∧ x'.tasksPerCpu = x.tasksPerCpu ∧ x'.runnableOnCpus =
        Function.update x.runnableOnCpus t (target m x cpuid) ∧
      rtaiLlimd (x.period t) m.timerFreq m.clockFreq = some (x'.period t) ∧
      rtaiLlimd (x.resumeTime t) m.timerFreq m.clockFreq = some (x'.resumeTime t) ∧
      rtaiLlimd (x.periodicResumeTime t) m.timerFreq m.clockFreq =
        some (x'.periodicResumeTime t) := by
  simp only [rtSetRunnableOnCpuid, hl, Bool.false_eq_true, if_false] at h
  obtain ⟨period, hperiod, h⟩ := Option.bind_eq_some_iff.mp h
  obtain ⟨resume, hresume, h⟩ := Option.bind_eq_some_iff.mp h
  obtain ⟨periodic, hperiodic, h⟩ := Option.bind_eq_some_iff.mp h
  have hfields : x'.magic = x.magic ∧ x'.tasksPerCpu = x.tasksPerCpu ∧ x'.runnableOnCpus =
        Function.update x.runnableOnCpus t (target m x cpuid) ∧
      x'.period = Function.update x.period t period ∧
      x'.resumeTime = Function.update x.resumeTime t resume ∧
      x'.periodicResumeTime = Function.update x.periodicResumeTime t periodic := by
    split at h
    · obtain ⟨y, hy, h⟩ := Option.bind_eq_some_iff.mp h
      cases h
      obtain ⟨pos, -, hy⟩ := Option.bind_eq_some_iff.mp hy
      cases hy
      simp only [remTimedTask, appendTask]
      split
      · exact ⟨rfl, rfl, rfl, rfl, rfl, rfl⟩
      · exact ⟨rfl, rfl, rfl, rfl, rfl, rfl⟩
    · cases h
      exact ⟨rfl, rfl, rfl, rfl, rfl, rfl⟩
  obtain ⟨h1, h2, h3, h4, h5, h6⟩ := hfields
  refine ⟨h1, h2, h3, ?_, ?_, ?_⟩
  · rw [hperiod, h4, Function.update_self]
  · rw [hresume, h5, Function.update_self]
  · rw [hperiodic, h6, Function.update_self]

/-- **A move that keeps the counters right is a move to the same CPU.** -/
theorem target_of_counts (hl : x.lnxtsk t = false) (ht : x.magic t)
    (hx : ∀ c, x.tasksPerCpu c =
      (Finset.univ.filter fun u => x.magic u ∧ x.runnableOnCpus u = c).card)
    (hx' : ∀ c, x'.tasksPerCpu c =
      (Finset.univ.filter fun u => x'.magic u ∧ x'.runnableOnCpus u = c).card)
    (h : rtSetRunnableOnCpuid m x t cpuid = some x') :
    target m x cpuid = x.runnableOnCpus t := by
  obtain ⟨hmagic, hcounts, hcpu, -⟩ := move_fields hl h
  by_contra hne
  have hin : t ∈ (Finset.univ.filter fun u =>
      x.magic u ∧ x.runnableOnCpus u = x.runnableOnCpus t) :=
    Finset.mem_filter.mpr ⟨Finset.mem_univ t, ht, rfl⟩
  -- its old CPU has lost the task
  have hset : (Finset.univ.filter fun u =>
      x'.magic u ∧ x'.runnableOnCpus u = x.runnableOnCpus t) =
      (Finset.univ.filter fun u =>
        x.magic u ∧ x.runnableOnCpus u = x.runnableOnCpus t).erase t := by
    ext u
    rw [hmagic, hcpu]
    simp only [Finset.mem_filter, Finset.mem_univ, true_and, Finset.mem_erase]
    by_cases hu : u = t
    · subst hu
      rw [Function.update_self]
      exact ⟨fun h => absurd h.2 hne, fun h => absurd rfl h.1⟩
    · rw [Function.update_of_ne hu]
      exact ⟨fun h => ⟨hu, h⟩, fun h => h.2⟩
  have hold := hx (x.runnableOnCpus t)
  have hnew := hx' (x.runnableOnCpus t)
  rw [hset, Finset.card_erase_of_mem hin, hcounts, hold] at hnew
  have hpos := Finset.card_pos.mpr ⟨t, hin⟩
  omega

/-- A move to the same CPU. -/
theorem move_same (hl : x.lnxtsk t = false)
    (hcpu : target m x cpuid = x.runnableOnCpus t) (hscale : ScalesToSelf m x t) :
    rtSetRunnableOnCpuid m x t cpuid =
      if .delayed ∈ x.state t then
        (enqTimedTask { unlinkTask x t with
          timed := x.timed.unlink (.elem t) } t).bind
          fun y => some (appendTask y t (x.runnableOnCpus t))
      else some (appendTask (unlinkTask x t) t (x.runnableOnCpus t)) := by
  obtain ⟨h1, h2, h3⟩ := hscale
  have hc : (if cpuid ≥ m.nrCpus then getMinTasksCpuid m x 0xff else cpuid) =
      x.runnableOnCpus t := hcpu
  simp only [rtSetRunnableOnCpuid, hl, Bool.false_eq_true, if_false, h1, h2, h3,
    hc, Option.bind_eq_bind, Option.bind_some, Function.update_eq_self]
  by_cases hd : .delayed ∈ x.state t
  · have hd' : .delayed ∈ (unlinkTask x t).state t := hd
    have hsame : Function.update (unlinkTask x t).runnableOnCpus t
        (x.runnableOnCpus t) = (unlinkTask x t).runnableOnCpus :=
      Function.update_eq_self ..
    simp only [remTimedTask, if_pos hd, if_pos hd', hsame]
    rfl
  · have hd' : .delayed ∉ (unlinkTask x t).state t := hd
    have hsame : Function.update (unlinkTask x t).runnableOnCpus t
        (x.runnableOnCpus t) = (unlinkTask x t).runnableOnCpus :=
      Function.update_eq_self ..
    simp only [if_neg hd, if_neg hd', hsame]

/-- **A MOVE TO THE SAME CPU WITH THE SAME TIMES PRESERVES THE TASK**. -/
theorem Placed.move (P : Placed x) (ht : x.magic t) (hl : x.lnxtsk t = false)
    (hcpu : target m x cpuid = x.runnableOnCpus t) (hscale : ScalesToSelf m x t) :
    ∃ x', rtSetRunnableOnCpuid m x t cpuid = some x' ∧ Placed x' ∧
      SameTimes x x' t := by
  have hunlinked : WellFormed (taskLinks (unlinkTask x t))
      (fun u => x.magic u ∧ u ≠ t) x.runnableOnCpus fun _ _ => True := by
    rw [taskLinks_unlink P.tasks ht]
    exact wellFormed_unlink P.tasks ht (fun _ => Iff.rfl) (fun _ _ => rfl)
      fun _ _ _ _ _ => trivial
  have htasks : WellFormed (taskLinks (appendTask (unlinkTask x t) t (x.runnableOnCpus t)))
      (fun u => x.magic u) x.runnableOnCpus fun _ _ => True :=
    tasks_append hunlinked (fun h => h.2 rfl)
      (fun _ => and_ne_or (q := fun u => x.magic u = true) ht) fun _ _ => rfl
  rw [move_same hl hcpu hscale]
  by_cases hd : .delayed ∈ x.state t
  · rw [if_pos hd]
    have hon : x.magic t ∧ .delayed ∈ x.state t := ⟨ht, hd⟩
    have W : WellFormed (x.timed.unlink (.elem t))
        (fun u => (x.magic u ∧ .delayed ∈ x.state u) ∧ u ≠ t) x.runnableOnCpus
        fun u w => x.resumeTime u ≤ x.resumeTime w :=
      wellFormed_unlink P.timed hon (fun _ => Iff.rfl) (fun _ _ => rfl) fun _ _ _ _ h => h
    obtain ⟨y, hy⟩ := enqTimedTask_returns (x := { unlinkTask x t with
      timed := x.timed.unlink (.elem t) }) (by exact W) (P.limit t hon)
    rw [hy]
    have hlim : ∀ u, (x.magic u ∧ .delayed ∈ x.state u) ∧ u ≠ t →
        x.resumeTime u ≤ RTAI_TIME_LIMIT := fun u hu => P.limit u hu.1
    obtain ⟨timed, rfl, -, W'⟩ := enqTimedTask_wellFormed (by exact W)
      (by exact hlim) (fun h => h.2 rfl)
      (fun u => and_ne_or (q := fun u => x.magic u ∧ .delayed ∈ x.state u) hon)
      hy
    exact ⟨_, rfl, ⟨htasks, P.ready, W', P.limit, P.legal, P.counts, P.cpu,
      P.tids, P.pid⟩, rfl, rfl, rfl⟩
  · rw [if_neg hd]
    exact ⟨_, rfl, ⟨htasks, P.ready, P.timed, P.limit, P.legal, P.counts, P.cpu,
      P.tids, P.pid⟩, rfl, rfl, rfl⟩

/-- **A MOVE PRESERVES THE TASK IF AND ONLY IF** it is to the CPU that the task
    is on, and the scaling leaves the times. -/
theorem Placed.move_iff (P : Placed x) (ht : x.magic t) (hl : x.lnxtsk t = false) :
    (∃ x', rtSetRunnableOnCpuid m x t cpuid = some x' ∧ Sound x' ∧ SameTimes x x' t) ↔
    target m x cpuid = x.runnableOnCpus t ∧ ScalesToSelf m x t := by
  constructor
  · rintro ⟨x', h, hs, h1, h2, h3⟩
    refine ⟨target_of_counts hl ht P.counts hs.counts h, ?_⟩
    obtain ⟨-, -, -, hp, hr, hpr⟩ := move_fields hl h
    rw [h1] at hp
    rw [h2] at hr
    rw [h3] at hpr
    exact ⟨hp, hr, hpr⟩
  · rintro ⟨hcpu, hscale⟩
    obtain ⟨x', h, P', hsame⟩ := P.move ht hl hcpu hscale
    exact ⟨x', h, P'.sound, hsame⟩

/-- **ONE STEP**. -/
theorem Placed.step (P : Placed x) {a : CpuAction T} {o : Unit}
    (hguard : StaysPut m x a) (h : cpuStep m x a = some (x', o)) :
    Placed x' := by
  cases a with
  | init t linux priority cpuid =>
    simp only [cpuStep] at h
    split at h
    · next hprio =>
        obtain ⟨y, hy, h⟩ := Option.bind_eq_some_iff.mp h
        cases h
        exact P.init hprio hguard hy
    · exact nomatch h
  | delete t =>
    simp only [cpuStep] at h
    split at h
    · next ht =>
        cases h
        exact P.delete ht
    · exact nomatch h
  | hold t bits resumeTime =>
    simp only [cpuStep] at h
    split at h
    · next hc =>
        obtain ⟨ht, hne, hbits⟩ := hc
        obtain ⟨y, hy, h⟩ := Option.bind_eq_some_iff.mp h
        cases h
        exact P.hold ht hne hbits hy
    · exact nomatch h
  | free t bits =>
    simp only [cpuStep] at h
    split at h
    · next hc =>
        obtain ⟨y, hy, h⟩ := Option.bind_eq_some_iff.mp h
        cases h
        exact P.free hc.1 hy
    · exact nomatch h
  | setPriority t priority =>
    simp only [cpuStep] at h
    split at h
    · next hc =>
        obtain ⟨ht, h0, h1⟩ := hc
        obtain ⟨y, hy, h⟩ := Option.bind_eq_some_iff.mp h
        cases h
        exact P.renq ht h0 h1 hy
    · exact nomatch h
  | setTimes t period resumeTime periodicResumeTime =>
    simp only [cpuStep] at h
    split at h
    · next hc =>
        cases h
        exact P.setTimes hc.2
    · exact nomatch h
  | migrate t cpuid =>
    simp only [cpuStep] at h
    split at h
    · next ht =>
        obtain ⟨y, hy, h⟩ := Option.bind_eq_some_iff.mp h
        cases h
        cases hl : x.lnxtsk t with
        | true =>
          simp only [rtSetRunnableOnCpuid, hl, if_true] at hy
          cases hy
          exact P
        | false =>
          obtain ⟨hcpu, hscale⟩ := hguard hl
          obtain ⟨z, hz, Pz, -⟩ := P.move ht hl hcpu hscale
          rw [hz] at hy
          cases hy
          exact Pz
    · exact nomatch h

/-- Before the first task. -/
theorem placed_noTasks : Placed (noTasks : Cpus T) := by
  have hempty : ∀ {links : Links (Node T Nat)} {belongs : T → Prop}
      {cpu : T → Nat} {order : T → T → Prop},
      (∀ c, links.next (.head c) = .head c) →
      (∀ c, links.prev (.head c) = .head c) → (∀ t, ¬ belongs t) →
      WellFormed links belongs cpu order := by
    intro links belongs cpu order hnext hprev hno
    refine ⟨fun _ => [], ⟨fun c => ⟨hnext c, hprev c⟩, fun _ => List.nodup_nil,
      fun _ _ _ h => (nomatch h)⟩, fun c t => ?_, fun _ => List.Pairwise.nil⟩
    exact ⟨fun h => (nomatch h), fun h => absurd h.1 (hno t)⟩
  have hdead : ∀ t : T, ¬ (false = true) := fun _ => nofun
  refine ⟨hempty (fun _ => rfl) (fun _ => rfl) hdead,
    hempty (fun _ => rfl) (fun _ => rfl) fun t h => hdead t h.1,
    hempty (fun _ => rfl) (fun _ => rfl) fun t h => hdead t h.1,
    fun t h => absurd h.1 (hdead t),
    fun _ => ⟨le_refl _, (by decide : (0 : Int) ≤ RT_SCHED_LINUX_PRIORITY)⟩, ?_,
    fun t h => absurd h (hdead t), fun t _ h => absurd h (hdead t),
    (by decide : (0x7ffffff0 : Int) % 16 = 0)⟩
  intro c
  have hset : (Finset.univ.filter fun t : T =>
      (noTasks : Cpus T).magic t ∧ (noTasks : Cpus T).runnableOnCpus t = c) =
      ∅ :=
    Finset.filter_eq_empty_iff.mpr fun t _ h => hdead t h.1
  rw [hset]
  rfl

end Moves

/-! ## When a move preserves the task -/

/-- A scaling by 1 leaves an `RTIME`. -/
theorem rtaiLlimd_self {f : Nat} (hf : f ≠ 0) {ll : Int} (h : toRTIME ll = ll) :
    rtaiLlimd ll f f = some ll := by
  have hmod : 0 ≤ ll % 2 ^ 64 := Int.emod_nonneg _ (by decide)
  have hlt : ll % 2 ^ 64 < 2 ^ 64 := Int.emod_lt_of_pos _ (by decide)
  have hdiv : (ll % 2 ^ 64).toNat * f / f = (ll % 2 ^ 64).toNat :=
    Nat.mul_div_cancel _ (Nat.pos_of_ne_zero hf)
  have hfits : ¬ (f = 0 ∨ (ll % 2 ^ 64).toNat ≥ 2 ^ 64) := by
    rintro (h0 | hge)
    · exact hf h0
    · omega
  simp only [rtaiLlimd, hdiv, if_neg hfits, Int.toNat_of_nonneg hmod]
  rw [show toRTIME (ll % 2 ^ 64) = toRTIME ll from Int.emod_bmod .., h]

variable {m : Machine} {x : Cpus T} {t : T}

omit decT finT in
/-- A timer as fast as the clock. -/
theorem scalesToSelf_same (hf : m.timerFreq = m.clockFreq) (h0 : m.clockFreq ≠ 0)
    (h1 : toRTIME (x.period t) = x.period t)
    (h2 : toRTIME (x.resumeTime t) = x.resumeTime t)
    (h3 : toRTIME (x.periodicResumeTime t) = x.periodicResumeTime t) :
    ScalesToSelf m x t := by
  rw [ScalesToSelf, hf]
  exact ⟨rtaiLlimd_self h0 h1, rtaiLlimd_self h0 h2, rtaiLlimd_self h0 h3⟩

/-- **THE TASKS ARE SOUND** as long as every task stays on its CPU, and moving
    one preserves it if and only if the move is to the same CPU and the scaling
    leaves its times. -/
theorem move_preserves_iff (m : Machine)
    (h : Reach (cpuStep m) (StaysPut m) (noTasks : Cpus T) x) :
    Sound x ∧ ∀ t cpuid, x.magic t → x.lnxtsk t = false →
      ((∃ x', rtSetRunnableOnCpuid m x t cpuid = some x' ∧ Sound x' ∧ SameTimes x x' t) ↔
      target m x cpuid = x.runnableOnCpus t ∧ ScalesToSelf m x t) := by
  have P : Placed x :=
    h.invariant placed_noTasks fun _ _ _ _ P hguard hs => P.step hguard hs
  exact ⟨P.sound, fun t cpuid ht hl => P.move_iff ht hl⟩

instance (m : Machine) (x : Cpus T) : ∀ a, Decidable (StaysPut m x a)
  | .init _ _ _ cpuid =>
    inferInstanceAs (Decidable ((if m.online ≤ 1 then 0 else cpuid) < 16 ∧
      ∀ u, x.magic u → x.tid u ≠ toInt (toInt (x.rtPid - 0x10) +
        (if m.online ≤ 1 then 0 else cpuid : Nat))))
  | .migrate t cpuid =>
    inferInstanceAs (Decidable (x.lnxtsk t = false →
      target m x cpuid = x.runnableOnCpus t ∧ _ ∧ _ ∧ _))
  | .delete _ | .hold .. | .free .. | .setPriority .. | .setTimes .. =>
    inferInstanceAs (Decidable True)

/-- Two CPUs whose timers are as fast as the clock. -/
def twoCpus : Machine := ⟨8, 2, 1000000000, 1000000000⟩

/-- A ready task and a delayed one, which is moved to the CPU that it is on. -/
theorem move_preserves_two : ∃ x : Cpus Bool,
    Reach (cpuStep twoCpus) (StaysPut twoCpus) noTasks x ∧
      x.state true = {.ready, .delayed} ∧ Sound x ∧
      ∃ x', rtSetRunnableOnCpuid twoCpus x true 1 = some x' ∧ Sound x' ∧
        SameTimes x x' true := by
  obtain ⟨x, hplay, hmagic, hl, hstate, htarget, hp, hr, hpr⟩ : ∃ x : Cpus Bool,
      play (cpuStep twoCpus) (StaysPut twoCpus) noTasks
        [.init false false 3 0, .init true false 5 1, .free false {.suspended},
          .free true {.suspended}, .hold true {.delayed} 7000,
          .migrate true 1] = some x ∧
      x.magic true ∧ x.lnxtsk true = false ∧
      x.state true = {.ready, .delayed} ∧
      target twoCpus x 1 = x.runnableOnCpus true ∧
      x.period true = 0 ∧ x.resumeTime true = 7000 ∧
      x.periodicResumeTime true = RTAI_TIME_LIMIT := by
    refine ⟨_, rfl, rfl, rfl, ?_, rfl, ?_, ?_, ?_⟩
    · decide
    · decide
    · decide
    · decide
  have hscale : ScalesToSelf twoCpus x true := by
    refine scalesToSelf_same rfl (by decide) ?_ ?_ ?_
    · rw [hp]
      decide
    · rw [hr]
      decide
    · rw [hpr]
      decide
  have hreach := reach_of_play hplay
  obtain ⟨hs, hmove⟩ := move_preserves_iff twoCpus hreach
  exact ⟨x, hreach, hstate, hs, (hmove true 1 hmagic hl).mpr ⟨htarget, hscale⟩⟩

/-- **THE COUNTERS ARE WRONG AFTER A MOVE**: the task of CPU 0 is on CPU 1 and
    still counted on CPU 0. -/
theorem move_leaves_counters : ∃ x x' : Cpus Bool,
    Reach (cpuStep twoCpus) (fun _ _ => True) noTasks x ∧ x.magic true ∧
      x.lnxtsk true = false ∧
      rtSetRunnableOnCpuid twoCpus x true 1 = some x' ∧ ¬ Sound x' := by
  obtain ⟨x, hplay, hmagic, hl, x', hx', hold, hmoved⟩ : ∃ x : Cpus Bool,
      play (cpuStep twoCpus) (fun _ _ => True) noTasks [.init true false 5 0] = some x ∧
      x.magic true ∧ x.lnxtsk true = false ∧
      ∃ x', rtSetRunnableOnCpuid twoCpus x true 1 = some x' ∧ x'.tasksPerCpu 0 = 1 ∧
        (Finset.univ.filter fun t =>
          x'.magic t ∧ x'.runnableOnCpus t = 0).card = 0 :=
    ⟨_, rfl, rfl, rfl, _, rfl, rfl, rfl⟩
  refine ⟨x, x', reach_of_play hplay, hmagic, hl, hx', fun h => ?_⟩
  have hcount := h.counts 0
  rw [hold, hmoved] at hcount
  exact absurd hcount (by decide)

end RtaiMigration
