import Rtai.SemEffects

/-! # The timed list

    A task is linked in the timed list exactly when it is `RT_SCHED_DELAYED`.
    The services keep this by hand: each that clears the bit unlinks the task
    before, each that sets it links the task behind, and in between the bit
    and the list disagree.  So `Timed` names the LINKED tasks on their own,
    and a section of a service is followed primitive by primitive.

    With the list go the DEADLINES: a task that stands in a timed call keeps
    its resume time, its place and a property of its state bits, whatever the
    other tasks do. -/

namespace RtaiTimed

open RtaiRings RtaiKernel RtaiSchedCore RtaiPrioInher RtaiTaskApi RtaiSched RtaiFrames

variable {T S : Type} [decT : DecidableEq T] [decS : DecidableEq S] [finT : Fintype T]
  [finS : Fintype S]

/-! ## What a state waits for -/

/-- The bits of a state but those of a task that could run. -/
def pending (s : TaskState) : TaskState := s \ {.ready, .sftrdy}

theorem mem_pending {s : TaskState} {f : Flag} :
    f ∈ pending s ↔ f ∈ s ∧ f ≠ .ready ∧ f ≠ .sftrdy := by
  simp [pending]

/-- The bits that tell of a wait are the same in both states. -/
theorem mem_of_pending {s s' : TaskState} (h : pending s = pending s')
    {f : Flag} (h1 : f ≠ .ready) (h2 : f ≠ .sftrdy) : f ∈ s ↔ f ∈ s' := by
  have hf := Finset.ext_iff.mp h f
  simpa [mem_pending, h1, h2] using hf

/-- A state without a bit of a wait shares none with such bits. -/
theorem disjoint_of_pending {s w : TaskState}
    (hw : Disjoint w ({.ready, .sftrdy} : TaskState)) :
    Disjoint s w ↔ Disjoint (pending s) w := by
  constructor
  · exact fun h => Disjoint.mono_left Finset.sdiff_subset h
  · intro h
    refine Finset.disjoint_left.mpr fun f hs hf => ?_
    refine Finset.disjoint_left.mp h (mem_pending.mpr ⟨hs, ?_, ?_⟩) hf
    · rintro rfl
      exact Finset.disjoint_left.mp hw hf (by decide)
    · rintro rfl
      exact Finset.disjoint_left.mp hw hf (by decide)

/-! ## Sections that are about other lists -/

/-- The timed list, the times, the depths and what every task waits for stay
    the same, and a soft task is woken only when it waits for nothing. -/
structure Steady (k k' : Kernel T S) : Prop where
  timed : k'.timed = k.timed
  isHard : k'.isHard = k.isHard
  timeH : k'.timeH = k.timeH
  resumeTime : k'.resumeTime = k.resumeTime
  pc : k'.pc = k.pc
  running : k'.running = k.running
  suspdepth : k'.suspdepth = k.suspdepth
  state : ∀ u, pending (k'.state u) = pending (k.state u)
  awake : ∀ u, Awake k' u → Awake k u ∨ pending (k.state u) = ∅

omit decT decS finT finS in
theorem Steady.refl (k : Kernel T S) : Steady k k :=
  ⟨rfl, rfl, rfl, rfl, rfl, rfl, rfl, fun _ => rfl, fun _ => Or.inl⟩

omit decT decS finT finS in
theorem Steady.trans {k₁ k₂ k₃ : Kernel T S} (h : Steady k₁ k₂)
    (h' : Steady k₂ k₃) : Steady k₁ k₃ where
  timed := h'.timed.trans h.timed
  isHard := h'.isHard.trans h.isHard
  timeH := h'.timeH.trans h.timeH
  resumeTime := h'.resumeTime.trans h.resumeTime
  pc := h'.pc.trans h.pc
  running := h'.running.trans h.running
  suspdepth := h'.suspdepth.trans h.suspdepth
  state := fun u => (h'.state u).trans (h.state u)
  awake := by
    intro u hu
    rcases h'.awake u hu with hu | hu
    · exact h.awake u hu
    · exact Or.inr ((h.state u).symm.trans hu)

omit decT decS finT finS in
/-- The fields that no section of a wait queue or of the ready list leaves
    alone are all that differ. -/
theorem Steady.lists (k : Kernel T S) (rd : Links (Node T Unit))
    (qu : Links (Node T (Head T S))) (rq : Links (Node S T))
    (pr bp : T → Int) (bo : T → BlockedOn T S) (ms : T → Word)
    (mt rt : T → TaskPtr T) (ct ty : S → Int) (ow : S → Option T) :
    Steady k { k with
      ready := rd
      queue := qu
      resq := rq
      priority := pr
      basePriority := bp
      blockedOn := bo
      msg := ms
      msgTask := mt
      retTask := rt
      count := ct
      type := ty
      owndby := ow } :=
  ⟨rfl, rfl, rfl, rfl, rfl, rfl, rfl, fun _ => rfl, fun _ => Or.inl⟩

variable {k k' : Kernel T S} {c t u : T} {s : S}

theorem remReadyTask_steady (k : Kernel T S) (t : T) : Steady k (remReadyTask k t) := by
  unfold remReadyTask
  split
  · exact Steady.lists k ..
  · exact Steady.refl k

theorem remReadyCurrent_steady (k : Kernel T S) (t : T) : Steady k (remReadyCurrent k t) := by
  unfold remReadyCurrent
  split
  · exact Steady.lists k ..
  · refine ⟨rfl, rfl, rfl, rfl, rfl, rfl, rfl, fun _ => rfl, ?_⟩
    intro u hu
    by_cases hut : u = t
    · subst hut
      simp only [Awake, Function.update_self] at hu
      simp at hu
    · simp only [Awake, Function.update_of_ne hut] at hu
      exact Or.inl hu

theorem enqReadyTask_steady (h : enqReadyTask k t = some k')
    (hready : k.state t = {.ready}) : Steady k k' := by
  unfold enqReadyTask at h
  split at h
  · obtain ⟨pos, -, h⟩ := Option.bind_eq_some_iff.mp h
    cases h
    exact Steady.lists k ..
  · cases h
    refine ⟨rfl, rfl, rfl, rfl, rfl, rfl, rfl, ?_, ?_⟩
    · intro u
      by_cases hut : u = t
      · subst hut
        show pending (Function.update k.state u _ u) = _
        rw [Function.update_self, hready]
        decide
      · show pending (Function.update k.state t _ u) = _
        rw [Function.update_of_ne hut]
    · intro u hu
      by_cases hut : u = t
      · subst hut
        right
        rw [hready]
        decide
      · simp only [Awake, Function.update_of_ne hut] at hu
        exact Or.inl hu

theorem enqReadyEdfTask_steady (h : enqReadyEdfTask k t = some k') :
    Steady k k' := by
  obtain ⟨pos, -, h⟩ := Option.bind_eq_some_iff.mp h
  cases h
  exact Steady.lists k ..

theorem renqReadyTask_steady {p : Int} (h : renqReadyTask k t p = some k') :
    Steady k k' := by
  unfold renqReadyTask at h
  split at h
  · cases h
    exact Steady.refl k
  · simp only at h
    split at h
    · next hready =>
        exact (Steady.lists k ..).trans (enqReadyTask_steady h hready)
    · cases h
      exact Steady.lists k ..

theorem enqueueBlocked_steady {h₀ : Head T S} {q : Int}
    (h : enqueueBlocked k t h₀ q = some k') : Steady k k' := by
  unfold enqueueBlocked at h
  simp only at h
  split at h
  · obtain ⟨pos, -, h⟩ := Option.bind_eq_some_iff.mp h
    cases h
    exact Steady.lists k ..
  · cases h
    exact Steady.lists k ..

theorem dequeueBlocked_steady (k : Kernel T S) (t : T) : Steady k (dequeueBlocked k t) :=
  Steady.lists k ..

theorem reposition_steady {h₀ : Head T S} {p : Int}
    (h : reposition k t h₀ p = some k') : Steady k k' := by
  obtain ⟨pos, -, h⟩ := Option.bind_eq_some_iff.mp h
  cases h
  exact Steady.lists k ..

/-- One round of the inheritance walk. -/
theorem givePriority_steady {p : Int} {next : TaskPtr T}
    (h : givePriority k t p = some (k', next)) : Steady k k' := by
  unfold givePriority at h
  simp only at h
  split at h
  · next hready =>
      split at h
      · obtain ⟨k₁, he, h⟩ := Option.bind_eq_some_iff.mp h
        cases h
        exact (Steady.lists k ..).trans (enqReadyTask_steady he hready)
      · cases h
        exact Steady.lists k ..
  · obtain ⟨b, -, h⟩ := Option.bind_eq_some_iff.mp h
    split at h
    · split at h
      · split at h
        · obtain ⟨n, -, h⟩ := Option.bind_eq_some_iff.mp h
          cases h
          exact Steady.lists k ..
        · obtain ⟨k₁, hr, h⟩ := Option.bind_eq_some_iff.mp h
          have h1 := (Steady.lists k ..).trans (reposition_steady hr)
          split at h
          · obtain ⟨n, -, h⟩ := Option.bind_eq_some_iff.mp h
            cases h
            exact h1
          · cases h
            exact h1
      · exact nomatch h
    · cases h
      exact Steady.lists k ..

/-- **THE INHERITANCE WALK IS STEADY.** -/
theorem passLoop_steady {p : Int} {fuel : Nat} : ∀ {k k' : Kernel T S} {dest : TaskPtr T},
      passLoop fuel k dest p = some k' → Steady k k' := by
  induction fuel with
  | zero =>
    intro k k' dest h
    cases dest with
    | null => cases h; exact Steady.refl k
    | higerr => exact nomatch h
    | task t => exact nomatch h
  | succ fuel ih =>
    intro k k' dest h
    cases dest with
    | null => cases h; exact Steady.refl k
    | higerr => exact nomatch h
    | task t =>
      unfold passLoop at h
      split at h
      · obtain ⟨⟨k₁, next⟩, hg, h⟩ := Option.bind_eq_some_iff.mp h
        exact (givePriority_steady hg).trans (ih h)
      · cases h
        exact Steady.refl k

theorem passPrio_steady {dest : TaskPtr T} (h : passPrio k dest c = some k') :
    Steady k k' :=
  passLoop_steady h

theorem setTaskPrioFromResq_steady (h : setTaskPrioFromResq k t = some k') :
    Steady k k' := by
  obtain ⟨p, -, h⟩ := Option.bind_eq_some_iff.mp h
  exact renqReadyTask_steady h

theorem dequeueResqel_steady
    (h : dequeueResqelResetTaskPriority k s t = some k') : Steady k k' :=
  (Steady.lists k ..).trans (setTaskPrioFromResq_steady h)

/-! ## The list and the deadlines -/

/-- A kind of timed call: the bits that no running task has, what the state of
    a task that stands in such a call satisfies, and where it stands. -/
structure Regime (T S : Type) where
  calm : TaskState
  ok : TaskState → Prop
  inside : Pc T S → Prop
  /-- Where a task may stand at all. -/
  place : Pc T S → Prop
  delayed : .delayed ∈ calm
  apart : Disjoint calm ({.ready, .sftrdy} : TaskState)
  bits : ∀ s s', pending s = pending s' → ok s → ok s'
  woken : ∀ s, ok s → ok (s \ timedMask)
  idle : ¬ inside .idle
  start : ¬ inside .start
  places : place .idle ∧ place .start

/-- **THE TIMED LIST AND THE DEADLINES** between two primitives.  The tasks of
    `D` are linked in the timed list; no running soft task but `ex` waits for
    anything; a task with a deadline stands in its timed call. -/
structure Timed (R : Regime T S) (deadline : T → Option Int) (D : T → Prop)
    (ex : Option T) (k : Kernel T S) : Prop where
  linked : ∃ l, Rings k.timed (fun _ : Unit => l) ∧ ∀ t, t ∈ l ↔ D t
  calm : ∀ t, ex ≠ some t → k.isHard t = false → Awake k t → Disjoint (k.state t) R.calm
  kept : ∀ t d, deadline t = some d → k.resumeTime t = d ∧ R.inside (k.pc t) ∧ R.ok (k.state t)
  places : ∀ t, R.place (k.pc t)
  running : ∀ t, 0 ≤ k.running t
  deep : Deep k

/-- The tasks that are to be linked in the timed list. -/
def Delayed (k : Kernel T S) (t : T) : Prop := .delayed ∈ k.state t

section Rules

variable {R : Regime T S} {dl : T → Option Int} {D D' : T → Prop} {ex : Option T}

omit decT decS finT finS in
theorem Timed.relink (h : Timed R dl D ex k) (hD : ∀ t, D t ↔ D' t) :
    Timed R dl D' ex k :=
  { h with
    linked := by
      obtain ⟨l, hl, hm⟩ := h.linked
      exact ⟨l, hl, fun t => (hm t).trans (hD t)⟩ }

omit decT decS finT finS in
/-- **Steady sections.** -/
theorem Timed.steady (h : Timed R dl D ex k) (hk : Steady k k') :
    Timed R dl D ex k' where
  linked := by
    rw [hk.timed]
    exact h.linked
  calm := by
    intro t he hs ha
    rw [disjoint_of_pending R.apart, hk.state t, ← disjoint_of_pending R.apart]
    rcases hk.awake t ha with ha | ha
    · exact h.calm t he (hk.isHard ▸ hs) ha
    · rw [disjoint_of_pending R.apart, ha]
      exact Finset.disjoint_empty_left _
  kept := by
    intro t d hd
    obtain ⟨h1, h2, h3⟩ := h.kept t d hd
    rw [hk.resumeTime, hk.pc]
    exact ⟨h1, h2, R.bits _ _ (hk.state t).symm h3⟩
  places := by
    rw [hk.pc]
    exact h.places
  running := by
    rw [hk.running]
    exact h.running
  deep := by
    intro t
    rw [hk.suspdepth]
    exact h.deep t

omit decT decS finT finS in
theorem Steady.delayed (hk : Steady k k') (t : T) : Delayed k' t ↔ Delayed k t :=
  mem_of_pending (hk.state t) (by decide) (by decide)

/-- Between two services. -/
def Settled (R : Regime T S) (dl : T → Option Int) (k : Kernel T S) : Prop :=
  Timed R dl (Delayed k) none k

theorem Settled.steady (h : Settled R dl k) (hk : Steady k k') :
    Settled R dl k' :=
  (Timed.steady h hk).relink fun t => (hk.delayed t).symm

omit decT decS finT finS in
/-- A task that executes waits for nothing. -/
theorem Timed.executing (h : Timed R dl D ex k) (hex : ex ≠ some c)
    (hc : executes k c = true) : Disjoint (k.state c) R.calm := by
  unfold executes at hc
  split at hc
  · simp only [Bool.and_eq_true, decide_eq_true_eq] at hc
    rw [hc.1, disjoint_of_pending R.apart]
    exact Finset.disjoint_empty_left _
  · next hs =>
      refine h.calm c hex (by simpa using hs) (Or.inl ?_)
      simp only [decide_eq_true_eq] at hc
      rw [hc]
      decide

omit decS finT finS in
/-- The state of a task is set.  Nothing is known of the calm of the task that
    is excepted. -/
theorem Timed.setState (h : Timed R dl D ex k) (t : T) (st : TaskState)
    (hcalm : ex = some t ∨ (k.isHard t = false → Awake k t → Disjoint st R.calm))
    (hok : ∀ d, dl t = some d → R.ok (k.state t) → R.ok st) :
    Timed R dl D ex { k with state := Function.update k.state t st } where
  linked := h.linked
  calm := by
    intro u he hs ha
    by_cases hu : u = t
    · subst hu
      show Disjoint (Function.update k.state u st u) _
      rw [Function.update_self]
      exact hcalm.resolve_left he hs ha
    · show Disjoint (Function.update k.state t st u) _
      rw [Function.update_of_ne hu]
      exact h.calm u he hs ha
  kept := by
    intro u d hd
    obtain ⟨h1, h2, h3⟩ := h.kept u d hd
    refine ⟨h1, h2, ?_⟩
    by_cases hu : u = t
    · subst hu
      show R.ok (Function.update k.state u st u)
      rw [Function.update_self]
      exact hok d hd h3
    · show R.ok (Function.update k.state t st u)
      rw [Function.update_of_ne hu]
      exact h3
  places := h.places
  running := h.running
  deep := h.deep

/-- A task loses bits. -/
theorem Timed.clears (h : Timed R dl D ex k) (t : T) (m : TaskState)
    (hok : ∀ d, dl t = some d → R.ok (k.state t) → R.ok (k.state t \ m)) :
    Timed R dl D ex { k with
      state := Function.update k.state t (k.state t \ m) } := by
  by_cases he : ex = some t
  · exact h.setState t _ (Or.inl he) hok
  · exact h.setState t _ (Or.inr fun hs ha =>
      Disjoint.mono_left Finset.sdiff_subset (h.calm t he hs ha)) hok

/-- A caller takes bits, and is excepted from now on. -/
theorem Timed.takes (h : Timed R dl D none k) (c : T) (st : TaskState) (hc : dl c = none) :
    Timed R dl D (some c) { k with state := Function.update k.state c st } := by
  have hex : Timed R dl D (some c) k :=
    { h with calm := fun t _ => h.calm t nofun }
  refine hex.setState c st (Or.inl rfl) ?_
  intro d hd
  rw [hc] at hd
  exact nomatch hd

omit decS finT finS in
/-- The exception ends when the task is asleep. -/
theorem Timed.settles (h : Timed R dl D (some c) k)
    (hc : k.isHard c = false → ¬ Awake k c) : Timed R dl D none k :=
  { h with
    calm := by
      intro t _ hs ha
      by_cases ht : t = c
      · subst ht
        exact absurd ha (hc hs)
      · exact h.calm t (fun he => ht (Option.some.inj he).symm) hs ha }

omit decS finT finS in
/-- A task without a deadline moves on in its call. -/
theorem Timed.moves (h : Timed R dl D ex k) {p : Pc T S} (hc : dl c = none) (hp : R.place p) :
    Timed R dl D ex { k with pc := Function.update k.pc c p } :=
  { h with
    kept := by
      intro t d hd
      have ht : t ≠ c := by
        rintro rfl
        rw [hc] at hd
        exact nomatch hd
      show _ ∧ R.inside (Function.update k.pc c p t) ∧ _
      rw [Function.update_of_ne ht]
      exact h.kept t d hd
    places := by
      intro t
      show R.place (Function.update k.pc c p t)
      by_cases ht : t = c
      · subst ht
        rw [Function.update_self]
        exact hp
      · rw [Function.update_of_ne ht]
        exact h.places t }

/-- A call returns. -/
theorem Timed.returns (h : Timed R dl D ex k) (hc : dl c = none) :
    Timed R dl D ex (RtaiSemEffects.returned k c) :=
  h.moves hc R.places.1

omit decS finT finS in
/-- A deadline is forgotten. -/
theorem Timed.disarms (h : Timed R dl D ex k) (c : T) :
    Timed R (Function.update dl c none) D ex k :=
  { h with
    kept := by
      intro t d hd
      by_cases ht : t = c
      · subst ht
        rw [Function.update_self] at hd
        exact nomatch hd
      · rw [Function.update_of_ne ht] at hd
        exact h.kept t d hd }

omit decS finT finS in
/-- A deadline is set by a task that stands in its timed call. -/
theorem Timed.arms (h : Timed R dl D ex k) {d : Int}
    (ht : k.resumeTime c = d) (hp : R.inside (k.pc c))
    (hok : R.ok (k.state c)) :
    Timed R (Function.update dl c (some d)) D ex k :=
  { h with
    kept := by
      intro t d' hd
      by_cases htc : t = c
      · subst htc
        rw [Function.update_self] at hd
        cases hd
        exact ⟨ht, hp, hok⟩
      · rw [Function.update_of_ne htc] at hd
        exact h.kept t d' hd }

omit decS finT finS in
/-- A task without a deadline sets its resume time. -/
theorem Timed.setsTime (h : Timed R dl D ex k) (time : Int) (hc : dl c = none) :
    Timed R dl D ex { k with
      resumeTime := Function.update k.resumeTime c time } :=
  { h with
    kept := by
      intro t d hd
      have ht : t ≠ c := by
        rintro rfl
        rw [hc] at hd
        exact nomatch hd
      show Function.update k.resumeTime c time t = d ∧ _
      rw [Function.update_of_ne ht]
      exact h.kept t d hd }

omit decS finT finS in
theorem Timed.setsRunning (h : Timed R dl D ex k) (t : T) {n : Int} (hn : 0 ≤ n) :
    Timed R dl D ex { k with running := Function.update k.running t n } :=
  { h with
    running := by
      intro u
      show 0 ≤ Function.update k.running t n u
      by_cases hu : u = t
      · subst hu
        rw [Function.update_self]
        exact hn
      · rw [Function.update_of_ne hu]
        exact h.running u }

omit decS finT finS in
theorem Timed.setsDepth (h : Timed R dl D ex k) (t : T) {n : Int} (hn : 0 ≤ n) :
    Timed R dl D ex { k with suspdepth := Function.update k.suspdepth t n } :=
  { h with
    deep := by
      intro u
      show 0 ≤ Function.update k.suspdepth t n u
      by_cases hu : u = t
      · subst hu
        rw [Function.update_self]
        exact hn
      · rw [Function.update_of_ne hu]
        exact h.deep u }

/-! ## Linking and unlinking -/

/-- **`rem_timed_task`** -/
theorem Timed.unlinks (h : Timed R dl D ex k) (t : T) (hD : D t ↔ .delayed ∈ k.state t) :
    Timed R dl (fun u => u ≠ t ∧ D u) ex (remTimedTask k t) := by
  unfold remTimedTask
  split
  · next hdel =>
      refine { h with linked := ?_ }
      obtain ⟨l, hl, hm⟩ := h.linked
      have hr := hl.unlink_erase (h := ()) ((hm t).mpr (hD.mpr hdel))
      rw [update_unit] at hr
      refine ⟨l.erase t, hr, fun u => ?_⟩
      rw [(hl.nodup ()).mem_erase_iff, hm]
  · next hdel =>
      refine h.relink fun u => ⟨fun hu => ⟨?_, hu⟩, And.right⟩
      rintro rfl
      exact hdel (hD.mp hu)

omit decS finS in
/-- **`enq_timed_task`** links the task where its resume time says. -/
theorem Timed.links (h : Timed R dl D ex k) (hc : ¬ D c) (he : enqTimedTask k c = some k') :
    Timed R dl (fun u => u = c ∨ D u) ex k' := by
  obtain ⟨pos, hpos, he⟩ := Option.bind_eq_some_iff.mp he
  cases he
  refine { h with linked := ?_ }
  obtain ⟨l, hl, hm⟩ := h.linked
  rw [hl.next_head] at hpos
  have h0 : l = [] ++ l := rfl
  obtain ⟨l₁, l₂, hll, rfl⟩ := hl.walk_mem (h := ()) h0 hpos
  have hr := hl.insert (h := ()) (x := c) hll fun _ hx => hc ((hm c).mp hx)
  rw [update_unit] at hr
  refine ⟨_, hr, fun u => ?_⟩
  rw [← hm u, hll]
  simp only [List.mem_append, List.mem_cons]
  tauto

/-! ## The timer -/

/-- Waking a task up clears its bits; the ready list does not matter. -/
theorem wakeUpTask_steady (hw : wakeUpTask k t = some k') :
    ∃ depth, (depth = k.suspdepth ∨ depth = Function.update k.suspdepth t 0) ∧
      Steady { k with
        suspdepth := depth
        state := Function.update k.state t (k.state t \ timedMask) } k' := by
  unfold wakeUpTask at hw
  generalize hk₁ : (if .suspended ∈ k.state t ∧ k.suspdepth t > 0 then
      { k with suspdepth := Function.update k.suspdepth t 0 } else k) = k₁ at hw
  obtain ⟨depth, hdepth, rfl⟩ : ∃ depth,
      (depth = k.suspdepth ∨ depth = Function.update k.suspdepth t 0) ∧
        k₁ = { k with suspdepth := depth } := by
    rw [← hk₁]
    split
    · exact ⟨_, Or.inr rfl, rfl⟩
    · exact ⟨_, Or.inl rfl, rfl⟩
  refine ⟨depth, hdepth, ?_⟩
  simp only at hw
  split at hw
  · next hready =>
      split at hw
      · exact enqReadyEdfTask_steady hw
      · exact enqReadyTask_steady hw hready
  · cases hw
    exact Steady.refl _

/-- A task that has been woken up is not delayed any more. -/
theorem Steady.undelayed {depth : T → Int} (h : Steady { k with
      suspdepth := depth
      state := Function.update k.state t (k.state t \ timedMask) } k') (u : T) :
    Delayed k' u ↔ Delayed k u ∧ u ≠ t := by
  refine (h.delayed u).trans ?_
  show .delayed ∈ Function.update k.state t (k.state t \ timedMask) u ↔ _
  by_cases hu : u = t
  · subst hu
    rw [Function.update_self, Finset.mem_sdiff]
    exact ⟨fun hf => absurd (by decide) hf.2, fun hf => absurd rfl hf.2⟩
  · rw [Function.update_of_ne hu]
    exact ⟨fun hf => ⟨hf, hu⟩, And.left⟩

/-- **One task is woken up**: it loses the bits of its wait and stays linked. -/
theorem wakeUpTask_timed (h : Timed R dl D none k) (hw : wakeUpTask k t = some k') :
    Timed R dl D none k' ∧ k'.timed = k.timed ∧ ∀ u, Delayed k' u ↔ Delayed k u ∧ u ≠ t := by
  obtain ⟨depth, hdepth, hk⟩ := wakeUpTask_steady hw
  have h1 : Timed R dl D none { k with suspdepth := depth } := by
    rcases hdepth with rfl | rfl
    · exact h
    · exact h.setsDepth t (le_refl 0)
  have h2 := h1.clears t timedMask fun d _ => R.woken _
  exact ⟨h2.steady hk, hk.timed, hk.undelayed⟩

/-- The loop wakes up a stretch of the list. -/
theorem wakeUpLoop_timed {l : List T} {fuel : Nat} :
    ∀ {k k' : Kernel T S} {n : Node T Unit} {l₀ l₁ : List T},
      Timed R dl D none k → Rings k.timed (fun _ : Unit => l) →
      l = l₀ ++ l₁ →
      wakeUpLoop fuel k (firstOf l₁ (.head ())) = some (k', n) →
      ∃ m₁ m₂, l₁ = m₁ ++ m₂ ∧ n = firstOf m₂ (.head ()) ∧
        Timed R dl D none k' ∧ k'.timed = k.timed ∧
        ∀ u, Delayed k' u ↔ Delayed k u ∧ u ∉ m₁ := by
  induction fuel with
  | zero => intro k k' n l₀ l₁ _ _ _ hw; exact nomatch hw
  | succ fuel ih =>
    intro k k' n l₀ l₁ h hl hll hw
    cases l₁ with
    | nil => exact nomatch hw
    | cons t l₂ =>
      obtain ⟨k₁, hk₁, hw⟩ := Option.bind_eq_some_iff.mp hw
      obtain ⟨h1, htm, hdel⟩ := wakeUpTask_timed h hk₁
      have hnext : k₁.timed.next (.elem t) = firstOf l₂ (.head ()) := by
        rw [htm]
        exact (hl.elem_links (h := ()) hll).1
      simp only [hnext] at hw
      split at hw
      · -- the next task is due too
        have hl₁ : Rings k₁.timed (fun _ : Unit => l) := htm ▸ hl
        have hll₁ : l = (l₀ ++ [t]) ++ l₂ := by simp [hll]
        obtain ⟨m₁, m₂, hm, hn, h2, htm₂, hdel₂⟩ := ih h1 hl₁ hll₁ hw
        refine ⟨t :: m₁, m₂, by rw [hm]; rfl, hn, h2, htm₂.trans htm, ?_⟩
        intro u
        rw [hdel₂, hdel, List.mem_cons]
        tauto
      · cases hw
        refine ⟨[t], l₂, rfl, rfl, h1, htm, fun u => ?_⟩
        rw [hdel, List.mem_singleton]

/-- **THE TIMER KEEPS THE LIST**: the tasks that are woken up are dropped from
    it, and they alone. -/
theorem wakeUpTimedTasks_settled (h : Settled R dl k)
    (hw : wakeUpTimedTasks k = some k') : Settled R dl k' := by
  unfold wakeUpTimedTasks at hw
  dsimp only at hw
  split at hw
  · obtain ⟨⟨k₁, n⟩, hloop, hw⟩ := Option.bind_eq_some_iff.mp hw
    cases hw
    obtain ⟨l, hl, hm⟩ := h.linked
    rw [hl.next_head] at hloop
    have h0 : l = [] ++ l := rfl
    obtain ⟨m₁, m₂, hll, rfl, h1, htm, hdel⟩ := wakeUpLoop_timed h hl h0 hloop
    have hcut := hl.cut (h := ()) hll
    rw [update_unit, ← htm] at hcut
    refine { h1 with linked := ⟨m₂, hcut, fun u => ?_⟩ }
    show u ∈ m₂ ↔ Delayed k₁ u
    rw [hdel, ← hm u, hll, List.mem_append]
    have hnd : (m₁ ++ m₂).Nodup := hll ▸ hl.nodup ()
    have hapart := (List.nodup_append.mp hnd).2.2
    constructor
    · exact fun hu => ⟨Or.inr hu, fun hu' => hapart u hu' u hu rfl⟩
    · exact fun hu => hu.1.resolve_left hu.2
  · cases hw
    exact h

theorem timer_settled {now : Int} (h : Settled R dl k)
    (hw : RtaiSteps.timer k now = some k') : Settled R dl k' := by
  unfold RtaiSteps.timer at hw
  split at hw
  · exact wakeUpTimedTasks_settled (k := { k with timeH := now })
      ⟨h.linked, h.calm, h.kept, h.places, h.running, h.deep⟩ hw
  · exact nomatch hw

/-! ## Releasing a task, and going to sleep -/

/-- All delayed tasks but `t` are linked, and `t` is not. -/
def Unlinked (R : Regime T S) (dl : T → Option Int) (ex : Option T) (t : T)
    (k : Kernel T S) : Prop :=
  Timed R dl (fun u => u ≠ t ∧ Delayed k u) ex k

theorem Unlinked.steady (h : Unlinked R dl ex t k) (hk : Steady k k') :
    Unlinked R dl ex t k' :=
  (Timed.steady h hk).relink fun u => and_congr_right fun _ =>
    (hk.delayed u).symm

omit decS finT finS in
theorem remTimedTask_state (k : Kernel T S) (t : T) : (remTimedTask k t).state = k.state := by
  unfold remTimedTask
  split <;> rfl

theorem Settled.unlinks (h : Settled R dl k) (t : T) :
    Unlinked R dl none t (remTimedTask k t) := by
  refine (Timed.unlinks h t Iff.rfl).relink fun u => ?_
  show u ≠ t ∧ Delayed k u ↔ u ≠ t ∧ .delayed ∈ (remTimedTask k t).state u
  rw [remTimedTask_state]
  exact Iff.rfl

/-- A task that waits for nothing is not linked. -/
theorem Unlinked.settled (h : Unlinked R dl none t k)
    (ht : .delayed ∉ k.state t) : Settled R dl k := by
  refine Timed.relink h fun u => ⟨And.right, fun hu => ⟨?_, hu⟩⟩
  rintro rfl
  exact ht hu

theorem Unlinked.ready (h : Unlinked R dl none t k)
    (ht : k.state t = {.ready}) : Settled R dl k :=
  h.settled (by rw [ht]; decide)

/-- A linked task stays linked, an unlinked one unlinked. -/
theorem Settled.setState (h : Settled R dl k) (t : T) (st : TaskState)
    (hst : .delayed ∈ st ↔ .delayed ∈ k.state t)
    (hcalm : k.isHard t = false → Awake k t → Disjoint st R.calm)
    (hok : ∀ d, dl t = some d → R.ok (k.state t) → R.ok st) :
    Settled R dl { k with state := Function.update k.state t st } := by
  refine (Timed.setState h t st (Or.inr hcalm) hok).relink fun u => ?_
  show .delayed ∈ k.state u ↔ .delayed ∈ Function.update k.state t st u
  by_cases hu : u = t
  · subst hu
    rw [Function.update_self]
    exact hst.symm
  · rw [Function.update_of_ne hu]

/-- **The unlinked task gets a state that is not delayed.** -/
theorem Unlinked.setState (h : Unlinked R dl none t k) (st : TaskState) (hst : .delayed ∉ st)
    (hcalm : k.isHard t = false → Awake k t → Disjoint st R.calm)
    (hok : ∀ d, dl t = some d → R.ok (k.state t) → R.ok st) :
    Settled R dl { k with state := Function.update k.state t st } := by
  refine (Timed.setState h t st (Or.inr hcalm) hok).relink fun u => ?_
  show u ≠ t ∧ .delayed ∈ k.state u ↔ .delayed ∈ Function.update k.state t st u
  by_cases hu : u = t
  · subst hu
    rw [Function.update_self]
    exact ⟨fun hf => absurd rfl hf.1, fun hf => absurd hf hst⟩
  · rw [Function.update_of_ne hu]
    exact ⟨And.right, fun hf => ⟨hu, hf⟩⟩

/-- The unlinked task loses its bits. -/
theorem Unlinked.clears (h : Unlinked R dl none t k) {m : TaskState} (hm : .delayed ∈ m)
    (hok : ∀ d, dl t = some d → R.ok (k.state t) → R.ok (k.state t \ m)) :
    Settled R dl { k with
      state := Function.update k.state t (k.state t \ m) } :=
  h.setState _ (fun hf => (Finset.mem_sdiff.mp hf).2 hm)
    (fun hs ha => Disjoint.mono_left Finset.sdiff_subset (h.calm t nofun hs ha))
    hok

/-- **A task blocks**: it takes the bits of its wait. -/
theorem Settled.takes (h : Settled R dl k) (c : T) (F : TaskState)
    (hdl : dl c = none) (hc : .delayed ∉ k.state c) :
    Unlinked R dl (some c) c { k with
      state := Function.update k.state c (k.state c ∪ F) } := by
  refine (Timed.takes h c _ hdl).relink fun u => ?_
  show .delayed ∈ k.state u ↔ u ≠ c ∧ .delayed ∈ Function.update k.state c (k.state c ∪ F) u
  by_cases hu : u = c
  · subst hu
    exact ⟨fun hf => absurd hf hc, fun hf => absurd rfl hf.1⟩
  · rw [Function.update_of_ne hu]
    exact ⟨fun hf => ⟨hu, hf⟩, And.right⟩

/-- A soft task sleeps. -/
def Asleep (k : Kernel T S) (c : T) : Prop :=
  k.isHard c = false → ¬ Awake k c

theorem asleep_remReadyCurrent (k : Kernel T S) (c : T) : Asleep (remReadyCurrent k c) c := by
  intro hs
  refine remReadyCurrent_asleep k ?_
  rw [← hs, (remReadyCurrent_steady k c).isHard]

omit decT decS finT finS in
theorem Asleep.steady (h : Asleep k c) (hk : Steady k k')
    (hp : pending (k.state c) ≠ ∅) : Asleep k' c := by
  intro hs ha
  rcases hk.awake c ha with ha | ha
  · exact h (hk.isHard ▸ hs) ha
  · exact hp ha

/-- It sleeps without a timeout. -/
theorem Unlinked.sleeps (h : Unlinked R dl (some c) c k) (hc : Asleep k c)
    (hd : .delayed ∉ k.state c) : Settled R dl k :=
  Unlinked.settled (Timed.settles h hc) hd

/-- **It sleeps with a timeout.** -/
theorem Unlinked.sleepsTimed (h : Unlinked R dl (some c) c k)
    (hc : Asleep k c) (hd : .delayed ∈ k.state c)
    (he : enqTimedTask k c = some k') : Settled R dl k' := by
  have hl := Timed.links (Timed.settles h hc) (fun hD => hD.1 rfl) he
  obtain ⟨pos, -, he⟩ := Option.bind_eq_some_iff.mp he
  cases he
  refine hl.relink fun u => ?_
  show u = c ∨ u ≠ c ∧ .delayed ∈ k.state u ↔ .delayed ∈ k.state u
  by_cases hu : u = c
  · subst hu
    exact ⟨fun _ => hd, fun _ => Or.inl rfl⟩
  · exact ⟨fun hf => (hf.resolve_left hu).2, fun hf => Or.inr ⟨hu, hf⟩⟩

/-! ## Scheduling -/

omit decT decS finT finS in
/-- Linux wakes no thread that was not awake. -/
theorem Steady.soft (k : Kernel T S) (rd : Links (Node T Unit))
    (st : T → TaskState) (ln : T → LinuxSide) (wk : T → Bool)
    (hst : ∀ u, pending (st u) = pending (k.state u))
    (hln : ∀ u, (ln u ≠ .asleep ∨ wk u = true) → Awake k u) :
    Steady k { k with ready := rd, state := st, linux := ln, wakeup := wk } :=
  ⟨rfl, rfl, rfl, rfl, rfl, rfl, rfl, hst, fun u hu => Or.inl (hln u hu)⟩

omit finT in
theorem pending_update {st : TaskState} {f : T → TaskState}
    (h : pending st = pending (f t)) (u : T) :
    pending (Function.update f t st u) = pending (f u) := by
  by_cases hu : u = t
  · subst hu
    rw [Function.update_self, h]
  · rw [Function.update_of_ne hu]

omit decS finT finS in
theorem awake_update {w : LinuxSide} (ha : Awake k t) (u : T)
    (hu : Function.update k.linux t w u ≠ .asleep ∨ k.wakeup u = true) :
    Awake k u := by
  by_cases hut : u = t
  · subst hut
    exact ha
  · rw [Function.update_of_ne hut] at hu
    exact hu

theorem pending_union (s : TaskState) : pending (s ∪ {.ready}) = pending s := by
  ext f
  simp only [mem_pending, Finset.mem_union, Finset.mem_singleton]
  tauto

omit decS finT finS in
/-- The links of the soft tasks in the ready list. -/
theorem enqSoftReadyTask_eq (k : Kernel T S) (t : T) :
    ∃ rd, enqSoftReadyTask k t = { k with ready := rd } := by
  unfold enqSoftReadyTask
  split
  · exact ⟨k.ready, rfl⟩
  · exact ⟨_, rfl⟩

theorem dispatch_settled (h : Settled R dl k) (hd : dispatch k t = some k') :
    Settled R dl k' := by
  unfold dispatch at hd
  split at hd
  · cases hd
    exact Timed.setsRunning h t (by decide)
  · exact nomatch hd

omit decT decS finT finS in
/-- A task outside any call has no deadline. -/
theorem Timed.no_deadline (h : Timed R dl D ex k)
    (hp : ¬ R.inside (k.pc t)) : dl t = none := by
  cases hd : dl t with
  | none => rfl
  | some d => exact absurd (h.kept t d hd).2.1 hp

theorem rtScheduleSoft_settled (h : Settled R dl k)
    (hs : rtScheduleSoft k t = some k') : Settled R dl k' := by
  unfold rtScheduleSoft at hs
  split at hs
  · next hc =>
      have ha : Awake k t := Or.inl (by rw [hc.2.1]; decide)
      have hdl : dl t = none := h.no_deadline (by rw [hc.2.2]; exact R.idle)
      simp only at hs
      split at hs
      · obtain ⟨rd, hrd⟩ := enqSoftReadyTask_eq { k with
          state := Function.update k.state t (k.state t ∪ {.ready}) } t
        rw [hrd] at hs
        cases hs
        have hk := Steady.soft k rd (Function.update k.state t (k.state t ∪ {.ready}))
          (Function.update k.linux t .inside) k.wakeup
          (pending_update (pending_union _)) (awake_update ha)
        exact Timed.moves (h.steady hk) hdl R.places.2
      · cases hs
        exact h.steady (Steady.soft k k.ready _ _ k.wakeup
          (pending_update (pending_union _)) (awake_update ha))
  · exact nomatch hs

theorem rtScheduleSoftEntered_settled (h : Settled R dl k)
    (hs : rtScheduleSoftEntered k t = some k') : Settled R dl k' := by
  unfold rtScheduleSoftEntered at hs
  split at hs
  · next hc =>
      have ha : Awake k t := Or.inl (by rw [hc.2.1]; decide)
      have hdl : dl t = none := h.no_deadline (by rw [hc.2.2.1]; exact R.idle)
      obtain ⟨rd, hrd⟩ := enqSoftReadyTask_eq k t
      rw [hrd] at hs
      cases hs
      have hk := Steady.soft k rd k.state (Function.update k.linux t .inside)
        k.wakeup (fun _ => rfl) (awake_update ha)
      exact Timed.moves (h.steady hk) hdl R.places.2
  · exact nomatch hs

theorem softSchedule_settled (h : Settled R dl k)
    (hs : softSchedule k t = some k') : Settled R dl k' := by
  unfold softSchedule at hs
  split at hs
  · next hc =>
      cases hs
      have ha : Awake k t := Or.inl (by rw [hc.2.1]; decide)
      exact h.steady (Steady.soft k k.ready k.state _ k.wakeup (fun _ => rfl)
        (awake_update ha))
  · exact nomatch hs

theorem softWake_settled (h : Settled R dl k) (hs : softWake k t = some k') :
    Settled R dl k' := by
  unfold softWake at hs
  split at hs
  · next hc =>
      have ha : Awake k t := Or.inr hc.2.2
      simp only at hs
      obtain ⟨rd, hrd⟩ := enqSoftReadyTask_eq { k with
        state := Function.update k.state t ((k.state t \ {.sftrdy}) ∪ {.ready})
        wakeup := Function.update k.wakeup t false
        linux := Function.update k.linux t .inside } t
      rw [hrd] at hs
      cases hs
      refine h.steady (Steady.soft k rd _ _ _ (pending_update ?_) ?_)
      · rw [pending_union]
        ext f
        simp only [mem_pending, Finset.mem_sdiff, Finset.mem_singleton]
        tauto
      · intro u hu
        have hu' : Function.update k.linux t .inside u ≠ .asleep ∨
            Function.update k.wakeup t false u = true := hu
        by_cases hut : u = t
        · subst hut
          exact ha
        · rw [Function.update_of_ne hut, Function.update_of_ne hut] at hu'
          exact hu'
  · exact nomatch hs

theorem rtScheduleSoftTail_settled (h : Settled R dl k)
    (hs : rtScheduleSoftTail k t = some k') : Settled R dl k' := by
  unfold rtScheduleSoftTail at hs
  split at hs
  · next hc =>
      cases hs
      have ha : Awake k t := Or.inl (by rw [hc.2.1]; decide)
      refine h.steady (Steady.soft k _ _ _ k.wakeup (pending_update ?_) (awake_update ha))
      ext f
      simp only [mem_pending, Finset.mem_sdiff, Finset.mem_insert, Finset.mem_singleton]
      tauto
  · exact nomatch hs

/-- The timer, the scheduler and the Linux side of the soft tasks. -/
def schedules : RtaiSteps.Action T S → Bool
  | .wake _ => true
  | .dispatch _ => true
  | .softEnter _ => true
  | .softEntered _ => true
  | .softSchedule _ => true
  | .softWake _ => true
  | .softTail _ => true
  | _ => false

/-- **SCHEDULING KEEPS THE TIMED LIST AND THE DEADLINES.** -/
theorem schedules_settled {a : RtaiSteps.Action T S} {o : Option (Ret T)}
    (h : Settled R dl k) (ha : schedules a = true)
    (he : RtaiSteps.exec k a = some (k', o)) : Settled R dl k' := by
  have hmap : ∀ {x : Option (Kernel T S)},
      x.map (fun k : Kernel T S => (k, (none : Option (Ret T)))) =
        some (k', o) → x = some k' := by
    intro x hx
    obtain ⟨k₁, hk₁, hx⟩ := Option.map_eq_some_iff.mp hx
    cases hx
    exact hk₁
  cases a with
  | call c op => exact nomatch ha
  | cont c => exact nomatch ha
  | linux op => exact nomatch ha
  | wake now => exact timer_settled h (hmap he)
  | dispatch t => exact dispatch_settled h (hmap he)
  | softEnter t => exact rtScheduleSoft_settled h (hmap he)
  | softEntered t => exact rtScheduleSoftEntered_settled h (hmap he)
  | softSchedule t => exact softSchedule_settled h (hmap he)
  | softWake t => exact softWake_settled h (hmap he)
  | softTail t => exact rtScheduleSoftTail_settled h (hmap he)

/-- Starting a task that has been initialised suspended. -/
theorem rtTaskResume_settled {o : Option (Ret T)} (h : Settled R dl k)
    (hs : 0 < k.suspdepth t) (hp : k.pc t = .idle)
    (hr : rtTaskResume k t = some (k', o)) :
    Settled R dl k' ∧ ∃ v, o = some v := by
  have hdl : dl t = none := h.no_deadline (by rw [hp]; exact R.idle)
  have hno : ∀ {m : TaskState} (d : Int), dl t = some d → ∀ s, R.ok s → R.ok (s \ m) := by
    intro m d hd
    rw [hdl] at hd
    exact nomatch hd
  unfold rtTaskResume at hr
  split at hr
  · cases hr
    exact ⟨h, _, rfl⟩
  · have h1 : Settled R dl { k with
        suspdepth := Function.update k.suspdepth t (decr (k.suspdepth t)) } := by
      refine Timed.setsDepth h t ?_
      rw [decr_of_gt (by omega)]
      omega
    simp only at hr
    split at hr
    · have h2 := (h1.unlinks t).clears (m := {.suspended, .delayed})
        (by decide) (fun d hd => hno d hd _)
      split at hr
      · next hready =>
          obtain ⟨k₁, hk₁, hr⟩ := Option.bind_eq_some_iff.mp hr
          cases hr
          have h3 := enqReadyTask_steady hk₁ hready
          exact ⟨h2.steady ((Steady.lists _ ..).trans h3), _, rfl⟩
      · cases hr
        exact ⟨h2, _, rfl⟩
    · cases hr
      exact ⟨h1, _, rfl⟩

end Rules

/-! ## Runs with deadlines -/

/-- The kernel, with the deadline of the timed call each task stands in. -/
structure Deadlined (T S : Type) where
  kernel : Kernel T S
  deadline : T → Option Int

/-- `arms` is the time that is passed to a timed call.  The task has that
    deadline from the section in which the call blocks to the one in which it
    returns. -/
def deadlineAfter (arms : RtaiSteps.Op T S → Option Int)
    (dl : T → Option Int) (o : Option (Ret T)) :
    RtaiSteps.Action T S → T → Option Int
  | .call c op => Function.update dl c (if o = none then arms op else none)
  | .cont c => if o = none then dl else Function.update dl c none
  | _ => dl

/-- One atomic section, and what it does to the deadlines. -/
def keepTime (arms : RtaiSteps.Op T S → Option Int) (x : Deadlined T S)
    (a : RtaiSteps.Action T S) : Option (Deadlined T S × Option (Ret T)) :=
  match RtaiSteps.exec x.kernel a with
  | none => none
  | some (k, o) =>
    some ({ kernel := k, deadline := deadlineAfter arms x.deadline o a }, o)

/-- A system in which nothing has happened. -/
def untimed (cfg : Config T S) : Deadlined T S where
  kernel := boot cfg
  deadline := fun _ => none

theorem keepTime_exec {arms : RtaiSteps.Op T S → Option Int}
    {x x' : Deadlined T S} {a : RtaiSteps.Action T S} {o : Option (Ret T)}
    (h : keepTime arms x a = some (x', o)) :
    RtaiSteps.exec x.kernel a = some (x'.kernel, o) ∧
      x'.deadline = deadlineAfter arms x.deadline o a := by
  unfold keepTime at h
  cases he : RtaiSteps.exec x.kernel a with
  | none => rw [he] at h; exact nomatch h
  | some r =>
    obtain ⟨k, o'⟩ := r
    rw [he] at h
    cases h
    exact ⟨rfl, rfl⟩

/-- **A task that stands in its timed call and waits for one of the given
    bits** is delayed, and linked in the timed list with its deadline. -/
def DeadlinesKept (bits : TaskState) (x : Deadlined T S) : Prop :=
  ∀ t d, x.deadline t = some d → ¬ Disjoint (x.kernel.state t) bits →
    .delayed ∈ x.kernel.state t ∧ x.kernel.resumeTime t = d ∧
      ∃ l, Rings x.kernel.timed (fun _ : Unit => l) ∧ t ∈ l

omit decT decS finT finS in
theorem deadlinesKept_of_settled {R : Regime T S} {x : Deadlined T S}
    {bits : TaskState} (h : Settled R x.deadline x.kernel)
    (hok : ∀ s, R.ok s → ¬ Disjoint s bits → .delayed ∈ s) :
    DeadlinesKept bits x := by
  intro t d hd hb
  obtain ⟨ht, -, hs⟩ := h.kept t d hd
  have hdel := hok _ hs hb
  obtain ⟨l, hl, hm⟩ := h.linked
  exact ⟨hdel, ht, l, hl, (hm t).mpr hdel⟩

/-- A call that returned, or that stays at a place. -/
theorem finished {R : Regime T S} {dl : T → Option Int} {r : Outcome T S}
    {o : Option (Ret T)} (h : Settled R dl r.1) (hc : dl c = none)
    (hf : RtaiSteps.finish c r = (k', o)) :
    Settled R dl k' ∧ o = r.2 ∧ (o = none → k' = r.1) := by
  obtain ⟨k₁, v⟩ := r
  cases v with
  | none =>
    cases hf
    exact ⟨h, rfl, fun _ => rfl⟩
  | some v =>
    cases hf
    exact ⟨Timed.returns h hc, rfl, nofun⟩

/-- **A call**: a timed one that blocks has got its deadline. -/
theorem Settled.called {R : Regime T S} {dl : T → Option Int}
    {arms : RtaiSteps.Op T S → Option Int} {op : RtaiSteps.Op T S}
    {r : Outcome T S} {o : Option (Ret T)} (h : Settled R dl r.1)
    (hc : dl c = none) (hf : RtaiSteps.finish c r = (k', o))
    (harm : r.2 = none → ∀ d, arms op = some d →
      r.1.resumeTime c = d ∧ R.inside (r.1.pc c) ∧ R.ok (r.1.state c)) :
    Settled R (deadlineAfter arms dl o (.call c op)) k' := by
  obtain ⟨h', ho, hk⟩ := finished h hc hf
  show Settled R (Function.update dl c (if o = none then arms op else none)) k'
  split
  · next hnone =>
      cases ha : arms op with
      | none => exact Timed.disarms h' c
      | some d =>
        rw [hk hnone]
        obtain ⟨h1, h2, h3⟩ := harm (ho ▸ hnone) d ha
        exact Timed.arms h h1 h2 h3
  · exact Timed.disarms h' c

/-- **A call that goes on** returns, and its task has no deadline any more. -/
theorem Settled.continued {R : Regime T S} {dl : T → Option Int}
    {arms : RtaiSteps.Op T S → Option Int} {r : Outcome T S}
    {o : Option (Ret T)} (h : Settled R (Function.update dl c none) r.1)
    (hf : RtaiSteps.finish c r = (k', o))
    (hstay : r.2 = none → dl c = none) :
    Settled R (deadlineAfter arms dl o (.cont c)) k' := by
  obtain ⟨h', ho, -⟩ := finished h (Function.update_self ..) hf
  show Settled R (if o = none then dl else Function.update dl c none) k'
  split
  · next hnone =>
      have hc := hstay (ho ▸ hnone)
      rw [← hc, Function.update_eq_self] at h'
      exact h'
  · exact h'

/-- A task that may call a service executes and has no deadline. -/
theorem Settled.caller {R : Regime T S} {dl : T → Option Int}
    (h : Settled R dl k) (hc : RtaiSteps.mayCall k c = true) :
    executes k c = true ∧ dl c = none := by
  simp only [RtaiSteps.mayCall, Bool.and_eq_true, decide_eq_true_eq] at hc
  refine ⟨hc.1, h.no_deadline ?_⟩
  rw [hc.2]
  split
  · exact R.idle
  · exact R.start

/-- **ONE STEP KEEPS THE TIMED LIST AND THE DEADLINES** when the calls it may
    be do. -/
theorem Settled.step {R : Regime T S} {arms : RtaiSteps.Op T S → Option Int}
    {x x' : Deadlined T S} {a : RtaiSteps.Action T S} {o : Option (Ret T)}
    (h : Settled R x.deadline x.kernel)
    (hcall : ∀ c op r, a = .call c op → executes x.kernel c = true →
      x.deadline c = none → RtaiSteps.taskOp x.kernel c op = some r →
      Settled R x.deadline r.1 ∧ (r.2 = none → ∀ d, arms op = some d →
        r.1.resumeTime c = d ∧ R.inside (r.1.pc c) ∧ R.ok (r.1.state c)))
    (hcont : ∀ c dl r, a = .cont c → dl c = none → Settled R dl x.kernel →
      executes x.kernel c = true → RtaiSteps.contOp x.kernel c = some r →
      Settled R dl r.1 ∧ (r.2 = none → ¬ R.inside (x.kernel.pc c)))
    (hlinux : ∀ op r, a = .linux op →
      RtaiSteps.linuxOp x.kernel op = some r → Settled R x.deadline r.1)
    (hx : keepTime arms x a = some (x', o)) :
    Settled R x'.deadline x'.kernel := by
  obtain ⟨he, hd⟩ := keepTime_exec hx
  rw [hd]
  cases a with
  | call c op =>
    obtain ⟨hc, r, hr, hf⟩ := RtaiSteps.exec_call he
    obtain ⟨hex, hdl⟩ := h.caller hc
    obtain ⟨h', harm⟩ := hcall c op r rfl hex hdl hr
    exact h'.called hdl hf harm
  | cont c =>
    obtain ⟨hex, r, hr, hf⟩ := RtaiSteps.exec_cont he
    have h0 : Settled R (Function.update x.deadline c none) x.kernel :=
      Timed.disarms h c
    obtain ⟨h', hstay⟩ :=
      hcont c _ r rfl (Function.update_self ..) h0 hex hr
    exact h'.continued hf fun hnone => h.no_deadline (hstay hnone)
  | linux op => exact hlinux op _ rfl he
  | _ => exact schedules_settled h rfl he

omit decS finT finS in
/-- Nothing is delayed when the system starts. -/
theorem settled_boot (R : Regime T S) (cfg : Config T S) :
    Settled R (fun _ => none) (boot cfg) where
  linked := by
    refine ⟨[], Rings.empty, fun t => ?_⟩
    simp only [Delayed, boot]
    split <;> simp
  calm := by
    intro t _ hs _
    have hs' : cfg.hard t = false := hs
    simp only [boot, hs']
    rw [disjoint_of_pending R.apart]
    exact Finset.disjoint_empty_left _
  kept := nofun
  places := fun _ => R.places.1
  running := fun _ => le_refl 0
  deep := by
    intro t
    show 0 ≤ if cfg.hard t then (1 : Int) else 0
    split <;> decide

end RtaiTimed
