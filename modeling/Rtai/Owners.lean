import Rtai.SemDelete

/-! # Owners of resources

    A task that takes a resource links it in its `resq` ring and unlinks it
    when it gives it up, and that ring is what `rt_task_suspend` and
    `clr_rtext` look at.  Most of what the services do is no matter of owners
    and of the requests on them: it is `Plain`.  The rest is a few updates: a
    resource is taken or given up, and the task that gives it up is suspended,
    deleted or neither. -/

namespace RtaiOwners

open RtaiRings RtaiKernel RtaiSchedCore RtaiPrioInher RtaiTaskApi
  RtaiSched RtaiSem RtaiSemEffects RtaiSemDelete

variable {T S : Type} [decT : DecidableEq T] [decS : DecidableEq S] [finT : Fintype T]
  [finS : Fintype S]

/-! ## Owners -/

/-- The task is the owner of an existing resource. -/
def OwnsOne (k : Kernel T S) (t : T) (s : S) : Prop :=
  k.semMagic s = true ∧ 0 < k.type s ∧ k.owndby s = some t

/-- **The task owns at least one resource.** -/
def Owns (k : Kernel T S) (t : T) : Prop :=
  ∃ s, OwnsOne k t s

/-- The task owns no resource but this one. -/
def Last (k : Kernel T S) (t : T) (s : S) : Prop :=
  ∀ s', OwnsOne k t s' → s' = s

instance (k : Kernel T S) (t : T) (s : S) : Decidable (OwnsOne k t s) :=
  inferInstanceAs (Decidable (_ ∧ _ ∧ _))

instance (k : Kernel T S) (t : T) : Decidable (Owns k t) :=
  inferInstanceAs (Decidable (∃ _, _))

instance (k : Kernel T S) (t : T) (s : S) : Decidable (Last k t s) :=
  inferInstanceAs (Decidable (∀ _, _))

/-- No task has the priority of the Linux task, which nobody deletes. -/
def Mortal (k : Kernel T S) : Prop :=
  ∀ t, k.priority t ≠ RT_SCHED_LINUX_PRIORITY ∧ k.basePriority t ≠ RT_SCHED_LINUX_PRIORITY

/-! ## Sections that decide nothing -/

/-- Neither the owners, nor the registered requests, nor who is suspended
    differ. -/
structure Plain (k k' : Kernel T S) : Prop where
  magic : k'.magic = k.magic
  suspdepth : k'.suspdepth = k.suspdepth
  basePriority : k'.basePriority = k.basePriority
  resq : k'.resq = k.resq
  semMagic : k'.semMagic = k.semMagic
  owndby : k'.owndby = k.owndby
  isResource : ∀ s, 0 < k'.type s ↔ 0 < k.type s
  suspended : ∀ u, .suspended ∈ k'.state u ↔ .suspended ∈ k.state u
  mortal : Mortal k → Mortal k'

omit decT decS finT finS in
theorem Plain.refl (k : Kernel T S) : Plain k k :=
  ⟨rfl, rfl, rfl, rfl, rfl, rfl, fun _ => Iff.rfl, fun _ => Iff.rfl, id⟩

omit decT decS finT finS in
theorem Plain.trans {k₁ k₂ k₃ : Kernel T S} (h : Plain k₁ k₂)
    (h' : Plain k₂ k₃) : Plain k₁ k₃ where
  magic := h'.magic.trans h.magic
  suspdepth := h'.suspdepth.trans h.suspdepth
  basePriority := h'.basePriority.trans h.basePriority
  resq := h'.resq.trans h.resq
  semMagic := h'.semMagic.trans h.semMagic
  owndby := h'.owndby.trans h.owndby
  isResource := fun s => (h'.isResource s).trans (h.isResource s)
  suspended := fun u => (h'.suspended u).trans (h.suspended u)
  mortal := fun hm => h'.mortal (h.mortal hm)

omit decT decS finT finS in
/-- The fields that no request is about. -/
theorem Plain.lists (k : Kernel T S) (rd tm : Links (Node T Unit))
    (qu : Links (Node T (Head T S))) (bo : T → BlockedOn T S) (ct : S → Int)
    (rn : T → Int) (ln : T → LinuxSide) (wk : T → Bool) (pc : T → Pc T S) :
    Plain k { k with
      ready := rd
      timed := tm
      queue := qu
      blockedOn := bo
      count := ct
      running := rn
      linux := ln
      wakeup := wk
      pc := pc } :=
  ⟨rfl, rfl, rfl, rfl, rfl, rfl, fun _ => Iff.rfl, fun _ => Iff.rfl, id⟩

omit decS finT finS in
/-- A state that is neither suspended nor resumed. -/
theorem Plain.setState (k : Kernel T S) (t : T) (st : TaskState)
    (h : .suspended ∈ st ↔ .suspended ∈ k.state t) :
    Plain k { k with state := Function.update k.state t st } := by
  refine ⟨rfl, rfl, rfl, rfl, rfl, rfl, fun _ => Iff.rfl, fun u => ?_, id⟩
  by_cases hu : u = t
  · subst hu
    simpa using h
  · simp [hu]

theorem Plain.clear (k : Kernel T S) (t : T) {m : TaskState} (h : .suspended ∉ m) :
    Plain k { k with state := Function.update k.state t (k.state t \ m) } :=
  Plain.setState k t _ (by simp [h])

theorem Plain.set (k : Kernel T S) (t : T) {m : TaskState} (h : .suspended ∉ m) :
    Plain k { k with state := Function.update k.state t (k.state t ∪ m) } :=
  Plain.setState k t _ (by simp [h])

omit decS finT finS in
/-- A priority that a task may have. -/
theorem Plain.setPriority (k : Kernel T S) (t : T) {p : Int}
    (h : Mortal k → p ≠ RT_SCHED_LINUX_PRIORITY) :
    Plain k { k with priority := Function.update k.priority t p } := by
  refine ⟨rfl, rfl, rfl, rfl, rfl, rfl, fun _ => Iff.rfl, fun _ => Iff.rfl, ?_⟩
  intro hm u
  refine ⟨?_, (hm u).2⟩
  by_cases hu : u = t
  · subst hu
    simpa using h hm
  · simpa [hu] using (hm u).1

omit decT finT finS in
/-- A depth of nested waits that stays one of a resource. -/
theorem Plain.setType (k : Kernel T S) (s : S) {n : Int} (h : 0 < n ↔ 0 < k.type s) :
    Plain k { k with type := Function.update k.type s n } := by
  refine ⟨rfl, rfl, rfl, rfl, rfl, rfl, fun s' => ?_, fun _ => Iff.rfl, id⟩
  by_cases hs : s' = s
  · subst hs
    simpa using h
  · simp [hs]

section Sections

variable {k k' : Kernel T S} {c t u : T} {s : S}

theorem remReadyTask_plain (k : Kernel T S) (t : T) : Plain k (remReadyTask k t) := by
  unfold remReadyTask
  split
  · exact Plain.lists k ..
  · exact Plain.refl k

theorem remReadyCurrent_plain (k : Kernel T S) (t : T) : Plain k (remReadyCurrent k t) := by
  unfold remReadyCurrent
  split
  · exact Plain.lists k ..
  · exact Plain.lists k ..

theorem remTimedTask_plain (k : Kernel T S) (t : T) : Plain k (remTimedTask k t) := by
  obtain ⟨tm, h⟩ := remTimedTask_eq k t
  rw [h]
  exact Plain.lists k ..

theorem enqReadyTask_plain (h : enqReadyTask k t = some k') : Plain k k' := by
  unfold enqReadyTask at h
  split at h
  · obtain ⟨pos, -, h⟩ := Option.bind_eq_some_iff.mp h
    cases h
    exact Plain.lists k ..
  · cases h
    exact (Plain.set k t (by decide)).trans (Plain.lists _ ..)

theorem renqReadyTask_plain {p : Int} (h : renqReadyTask k t p = some k')
    (hp : Mortal k → p ≠ RT_SCHED_LINUX_PRIORITY) : Plain k k' := by
  unfold renqReadyTask at h
  split at h
  · cases h
    exact Plain.refl k
  · have hset := Plain.setPriority k t hp
    simp only at h
    split at h
    · exact hset.trans ((Plain.lists _ ..).trans (enqReadyTask_plain h))
    · cases h
      exact hset

theorem enqTimedTask_plain (h : enqTimedTask k t = some k') : Plain k k' := by
  obtain ⟨pos, -, h⟩ := Option.bind_eq_some_iff.mp h
  cases h
  exact Plain.lists k ..

theorem enqueueBlocked_plain {h₀ : Head T S} {q : Int}
    (h : enqueueBlocked k t h₀ q = some k') : Plain k k' := by
  unfold enqueueBlocked at h
  simp only at h
  split at h
  · obtain ⟨pos, -, h⟩ := Option.bind_eq_some_iff.mp h
    cases h
    exact Plain.lists k ..
  · cases h
    exact Plain.lists k ..

theorem reposition_plain {h₀ : Head T S} {p : Int}
    (h : reposition k t h₀ p = some k') : Plain k k' := by
  obtain ⟨pos, -, h⟩ := Option.bind_eq_some_iff.mp h
  cases h
  exact Plain.lists k ..

/-- One round of the inheritance walk. -/
theorem givePriority_plain {p : Int} {next : TaskPtr T}
    (h : givePriority k t p = some (k', next))
    (hp : Mortal k → p ≠ RT_SCHED_LINUX_PRIORITY) : Plain k k' := by
  have hset := Plain.setPriority k t hp
  unfold givePriority at h
  simp only at h
  split at h
  · split at h
    · obtain ⟨k₁, he, h⟩ := Option.bind_eq_some_iff.mp h
      cases h
      exact hset.trans ((Plain.lists _ ..).trans (enqReadyTask_plain he))
    · cases h
      exact hset
  · obtain ⟨b, -, h⟩ := Option.bind_eq_some_iff.mp h
    split at h
    · split at h
      · split at h
        · obtain ⟨n, -, h⟩ := Option.bind_eq_some_iff.mp h
          cases h
          exact hset
        · obtain ⟨k₁, hr, h⟩ := Option.bind_eq_some_iff.mp h
          have h1 := hset.trans (reposition_plain hr)
          split at h
          · obtain ⟨n, -, h⟩ := Option.bind_eq_some_iff.mp h
            cases h
            exact h1
          · cases h
            exact h1
      · exact nomatch h
    · cases h
      exact hset

theorem passLoop_plain {p : Int} {fuel : Nat} : ∀ {k k' : Kernel T S} {dest : TaskPtr T},
      passLoop fuel k dest p = some k' →
      p ≠ RT_SCHED_LINUX_PRIORITY → Plain k k' := by
  induction fuel with
  | zero =>
    intro k k' dest h _
    cases dest with
    | null => cases h; exact Plain.refl k
    | higerr => exact nomatch h
    | task t => exact nomatch h
  | succ fuel ih =>
    intro k k' dest h hp
    cases dest with
    | null => cases h; exact Plain.refl k
    | higerr => exact nomatch h
    | task t =>
      unfold passLoop at h
      split at h
      · obtain ⟨⟨k₁, next⟩, hg, h⟩ := Option.bind_eq_some_iff.mp h
        exact (givePriority_plain hg fun _ => hp).trans (ih h hp)
      · cases h
        exact Plain.refl k

theorem passToOwner_plain (hm : Mortal k) (h : passToOwner k c s = some k') :
    Plain k k' := by
  unfold passToOwner at h
  split at h
  · split at h
    · exact passLoop_plain h (hm c).1
    · exact passLoop_plain h (hm c).1
  · cases h
    exact Plain.refl k

omit decS finT finS in
/-- A recomputed priority is that of some task. -/
theorem resqScan_mortal (hm : Mortal k) {fuel : Nat} :
    ∀ {n : Node S T} {p q : Int}, resqScan k t fuel n p = some q →
      p ≠ RT_SCHED_LINUX_PRIORITY → q ≠ RT_SCHED_LINUX_PRIORITY := by
  induction fuel with
  | zero => intro n p q h; exact nomatch h
  | succ fuel ih =>
    intro n p q h hp
    cases n with
    | head t' =>
      simp only [resqScan] at h
      split at h
      · exact Option.some.inj h ▸ hp
      · exact nomatch h
    | elem s =>
      simp only [resqScan] at h
      split at h
      · exact Option.some.inj h ▸ hp
      · exact nomatch h
      · next u _ =>
          split at h
          · exact ih h (hm u).1
          · exact Option.some.inj h ▸ hp

theorem prioFromResq_mortal (hm : Mortal k) {p : Int}
    (h : prioFromResq k t = some p) : p ≠ RT_SCHED_LINUX_PRIORITY := by
  obtain ⟨q, hq, h⟩ := Option.bind_eq_some_iff.mp h
  have hq' := resqScan_mortal hm hq (hm t).2
  simp only at h
  split at h
  · cases h
    exact hq'
  · split at h
    · next u _ =>
        split at h
        · cases h
          exact (hm u).1
        · cases h
          exact hq'
    · exact nomatch h

theorem setTaskPrioFromResq_plain (h : setTaskPrioFromResq k t = some k') :
    Plain k k' := by
  obtain ⟨p, hp, h⟩ := Option.bind_eq_some_iff.mp h
  exact renqReadyTask_plain h fun hm => prioFromResq_mortal hm hp

theorem semWaitFailed_plain (h : semWaitFailed k c s = some k') :
    Plain k k' := by
  have hleave := Plain.lists k k.ready k.timed (k.queue.unlink (.elem c))
    (Function.update k.blockedOn c .null)
    (Function.update k.count s (moreCount k s)) k.running k.linux k.wakeup
    k.pc
  simp only [semWaitFailed] at h
  split at h
  · split at h
    · exact hleave.trans (setTaskPrioFromResq_plain h)
    · cases h
      exact hleave
  · cases h
    exact hleave

theorem wakeWaiter_plain {b : Bool} (h : wakeWaiter k u = some (k', b)) :
    Plain k k' := by
  have hleave := (Plain.lists k k.ready k.timed (k.queue.unlink (.elem u))
    (Function.update k.blockedOn u .null) k.count k.running k.linux k.wakeup
    k.pc).trans (remTimedTask_plain _ u)
  simp only [wakeWaiter] at h
  split at h
  · cases h
    exact hleave
  · have hclear := hleave.trans (Plain.clear (remTimedTask (dequeueBlocked k u) u) u
        (m := {.semaphore, .delayed}) (by decide))
    split at h
    · obtain ⟨k₁, he, h⟩ := Option.bind_eq_some_iff.mp h
      cases h
      exact hclear.trans (enqReadyTask_plain he)
    · cases h
      exact hclear

/-- The loop of `rt_sem_delete`. -/
theorem deleteWaiters_plain {fuel : Nat} : ∀ {k k' : Kernel T S} {n : Node T (Head T S)},
      deleteWaiters s fuel k n = some k' → Plain k k' := by
  induction fuel with
  | zero => intro k k' n h; cases h
  | succ fuel ih =>
    intro k k' n h
    simp only [deleteWaiters] at h
    split at h
    · cases h
      exact Plain.refl k
    · split at h
      · cases h
        exact Plain.refl k
      · cases h
      · next u _ =>
          have hrem := remTimedTask_plain k u
          have hclear := hrem.trans (Plain.clear (remTimedTask k u) u
            (m := {.semaphore, .delayed}) (by decide))
          split at h
          · obtain ⟨k₁, hk₁, h⟩ := Option.bind_eq_some_iff.mp h
            cases hk₁
            exact hrem.trans (ih h)
          · split at h
            · obtain ⟨k₁, hk₁, h⟩ := Option.bind_eq_some_iff.mp h
              exact hclear.trans ((Plain.lists _ ..).trans
                ((enqReadyTask_plain hk₁).trans (ih h)))
            · obtain ⟨k₁, hk₁, h⟩ := Option.bind_eq_some_iff.mp h
              cases hk₁
              exact hclear.trans (ih h)

/-- The loops of `clr_rtext`. -/
theorem removeWaiters_plain {h₀ : Head T S} {mask : TaskState}
    (hmask : .suspended ∉ mask) {fuel : Nat} :
    ∀ {k k' : Kernel T S} {n : Node T (Head T S)},
      removeWaiters h₀ mask fuel k n = some k' → Plain k k' := by
  induction fuel with
  | zero => intro k k' n h; cases h
  | succ fuel ih =>
    intro k k' n h
    simp only [removeWaiters] at h
    split at h
    · cases h
      exact Plain.refl k
    · split at h
      · next u _ =>
          have hrem := remTimedTask_plain k u
          have hclear := hrem.trans (Plain.clear (remTimedTask k u) u hmask)
          split at h
          · obtain ⟨k₁, hk₁, h⟩ := Option.bind_eq_some_iff.mp h
            cases hk₁
            exact hrem.trans ((Plain.lists _ ..).trans (ih h))
          · split at h
            · obtain ⟨k₁, hk₁, h⟩ := Option.bind_eq_some_iff.mp h
              exact hclear.trans ((enqReadyTask_plain hk₁).trans
                ((Plain.lists _ ..).trans (ih h)))
            · obtain ⟨k₁, hk₁, h⟩ := Option.bind_eq_some_iff.mp h
              cases hk₁
              exact hclear.trans ((Plain.lists _ ..).trans (ih h))
      · cases h

theorem leaveQueue_plain (h : leaveQueue k t = some k') : Plain k k' := by
  simp only [leaveQueue] at h
  split at h
  · cases h
    exact Plain.refl k
  · split at h
    · split at h
      · split at h
        · cases h
          exact Plain.lists k ..
        · exact nomatch h
      · cases h
        exact Plain.lists k ..
    · split at h
      · exact nomatch h
      · cases h
        exact Plain.refl k

end Sections

/-! ## Taking and giving up -/

/-- The task is the owner of the resource, which is linked in its ring. -/
def taken (k : Kernel T S) (c : T) (s : S) : Kernel T S :=
  { k with
    owndby := Function.update k.owndby s (some c)
    resq := k.resq.insertBefore (.elem s) (.head c) }

/-- `RT_SCHED_SUSPENDED` has been set. -/
def suspended (k : Kernel T S) (t : T) : Kernel T S :=
  { k with
    state := Function.update k.state t (k.state t ∪ {.suspended}) }

/-- The task does not exist any more. -/
def deleted (k : Kernel T S) (t : T) : Kernel T S :=
  { k with
    magic := Function.update k.magic t false
    state := Function.update k.state t ∅ }

section Services

variable {k k' k₁ k₁' : Kernel T S} {c o t : T} {s : S} {w : Option (Ret T)}

omit decT decS finT finS in
theorem Plain.ownsOne (h : Plain k k') (t : T) (s : S) : OwnsOne k' t s ↔ OwnsOne k t s := by
  simp only [OwnsOne, h.semMagic, h.owndby, h.isResource]

omit finT finS in
theorem Plain.taken (h : Plain k k') (c : T) (s : S) :
    Plain (taken k c s) (taken k' c s) where
  magic := h.magic
  suspdepth := h.suspdepth
  basePriority := h.basePriority
  resq := by simp only [RtaiOwners.taken, h.resq]
  semMagic := h.semMagic
  owndby := by simp only [RtaiOwners.taken, h.owndby]
  isResource := h.isResource
  suspended := h.suspended
  mortal := h.mortal

omit finT finS in
theorem Plain.released (h : Plain k k') (s : S) (u : Option T) :
    Plain (released k s u) (released k' s u) where
  magic := h.magic
  suspdepth := h.suspdepth
  basePriority := h.basePriority
  resq := by simp only [RtaiSemEffects.released, h.resq]
  semMagic := h.semMagic
  owndby := by simp only [RtaiSemEffects.released, h.owndby]
  isResource := h.isResource
  suspended := h.suspended
  mortal := h.mortal

omit decS finT finS in
theorem mem_suspended (k : Kernel T S) (t u : T) : .suspended ∈ (suspended k t).state u ↔
      u = t ∨ .suspended ∈ k.state u := by
  by_cases hu : u = t
  · subst hu
    simp [suspended]
  · simp [suspended, hu]

omit decS finT finS in
theorem mem_deleted (k : Kernel T S) (t u : T) : .suspended ∈ (deleted k t).state u ↔
      u ≠ t ∧ .suspended ∈ k.state u := by
  by_cases hu : u = t
  · subst hu
    simp [deleted]
  · simp [deleted, hu]

theorem Plain.suspend (h : Plain k k') (t : T) :
    Plain (RtaiOwners.suspended k t) (RtaiOwners.suspended k' t) where
  magic := h.magic
  suspdepth := h.suspdepth
  basePriority := h.basePriority
  resq := h.resq
  semMagic := h.semMagic
  owndby := h.owndby
  isResource := h.isResource
  suspended := fun u => by rw [mem_suspended, mem_suspended, h.suspended]
  mortal := h.mortal

theorem Plain.deleted (h : Plain k k') (t : T) :
    Plain (deleted k t) (deleted k' t) where
  magic := by simp only [RtaiOwners.deleted, h.magic]
  suspdepth := h.suspdepth
  basePriority := h.basePriority
  resq := h.resq
  semMagic := h.semMagic
  owndby := h.owndby
  isResource := h.isResource
  suspended := fun u => by rw [mem_deleted, mem_deleted, h.suspended]
  mortal := h.mortal

/-- **`clr_rtext`** deletes the task, or registers the deletion. -/
theorem rtTaskDelete_cases {c : Option T} (hm : Mortal k)
    (hlive : k.magic t = true) (h : rtTaskDelete k c t = some k') :
    ((taskOwnsSems k t = false ∨ c = some t ∨ c = none) ∧ Plain (deleted k t) k') ∨
    (taskOwnsSems k t = true ∧ c ≠ some t ∧ c ≠ none ∧ k' = { k with
      suspdepth := Function.update k.suspdepth t RT_RESEM_SUSPDEL }) := by
  simp only [rtTaskDelete, hlive] at h
  rw [if_neg (by simpa using (hm t).1)] at h
  split at h
  · next hwho =>
      refine Or.inl ⟨?_, ?_⟩
      · simpa [or_assoc] using hwho
      · obtain ⟨k₁, h₁, h⟩ := Option.bind_eq_some_iff.mp h
        obtain ⟨k₂, h₂, h⟩ := Option.bind_eq_some_iff.mp h
        obtain ⟨k₃, h₃, h⟩ := Option.bind_eq_some_iff.mp h
        have hP : Plain k k₃ :=
          (remTimedTask_plain k t).trans ((leaveQueue_plain h₁).trans
            ((removeWaiters_plain (by decide) h₂).trans (removeWaiters_plain (by decide) h₃)))
        refine (hP.deleted t).trans ?_
        cases h
        obtain ⟨rd, hrd⟩ := remReadyTask_eq { k₃ with
          magic := Function.update k₃.magic t false } t
        rw [hrd]
        exact Plain.lists (RtaiOwners.deleted k₃ t) ..
  · next hwho =>
      cases h
      obtain ⟨howns, hself, hlinux⟩ : taskOwnsSems k t = true ∧
          c ≠ some t ∧ c ≠ none := by simpa [and_assoc] using hwho
      exact Or.inr ⟨howns, hself, hlinux, rfl⟩

/-- What becomes of a task that has given up a resource: `told` is what the
    code asks about a negative `suspdepth`. -/
inductive GivesUp (told : Prop) (k₁ : Kernel T S) (o : T) (k' : Kernel T S) :
    Prop where
  | keeps (hk : Plain k₁ k') (hd : k₁.suspdepth o ≤ 0)
      (hwhy : k₁.magic o = true → k₁.suspdepth o < 0 → ¬ told)
  | suspends (hk : Plain (suspended k₁ o) k') (hd : 0 < k₁.suspdepth o)
  | deletes (hk : Plain (deleted k₁ o) k') (hd : k₁.suspdepth o < 0) (hwhy : told)

theorem GivesUp.of_plain {told : Prop} (h : Plain k₁ k₁')
    (G : GivesUp told k₁' o k') : GivesUp told k₁ o k' := by
  cases G with
  | keeps hk hd hwhy =>
    rw [h.suspdepth] at hd hwhy
    rw [h.magic] at hwhy
    exact .keeps (h.trans hk) hd hwhy
  | suspends hk hd =>
    rw [h.suspdepth] at hd
    exact .suspends ((h.suspend o).trans hk) hd
  | deletes hk hd hwhy =>
    rw [h.suspdepth] at hd
    exact .deletes ((h.deleted o).trans hk) hd hwhy

theorem GivesUp.plain {told : Prop} (G : GivesUp told k₁ o k₁')
    (h : Plain k₁' k') : GivesUp told k₁ o k' := by
  cases G with
  | keeps hk hd hwhy => exact .keeps (hk.trans h) hd hwhy
  | suspends hk hd => exact .suspends (hk.trans h) hd
  | deletes hk hd hwhy => exact .deletes (hk.trans h) hd hwhy

/-! ### Waits -/

/-- The resource that a wait of `c` takes at once: it is free, or its owner
    can be robbed. -/
def TakesNow (k : Kernel T S) (c : T) (s : S) : Prop :=
  k.semMagic s = true ∧ 0 < k.type s ∧ (0 < k.count s ∨ (ubiMaiorVictim k c s).isSome = true)

instance (k : Kernel T S) (c : T) (s : S) : Decidable (TakesNow k c s) :=
  inferInstanceAs (Decidable (_ ∧ _ ∧ _))

theorem ubiMaiorRob_takes (h : ubiMaiorRob k c s o = some (k', w)) :
    Plain (taken k c s) k' := by
  -- the robbed owner waits again
  have hwait : ∀ m : TaskState, .suspended ∉ m → Plain k
      { remReadyTask { k with
        count := Function.update k.count s (k.count s - 1) } o with
        state := Function.update (remReadyTask { k with
          count := Function.update k.count s (k.count s - 1) } o).state o
          ((remReadyTask { k with
            count := Function.update k.count s (k.count s - 1) } o).state o
            ∪ m) } := by
    intro m hm
    exact ((Plain.lists k ..).trans (remReadyTask_plain _ o)).trans (Plain.set _ o hm)
  have hend : ∀ {k₁ k₂ : Kernel T S}, Plain k k₁ → enqueueBlocked k₁ o (.sem s) 0 = some k₂ →
      Plain (taken k c s) (taken k₂ c s) := by
    intro k₁ k₂ hP hk₂
    exact (hP.trans (enqueueBlocked_plain hk₂)).taken c s
  unfold ubiMaiorRob at h
  split at h
  · obtain ⟨k₁, h₁, h⟩ := Option.bind_eq_some_iff.mp h
    cases h₁
    obtain ⟨k₂, h₂, h⟩ := Option.bind_eq_some_iff.mp h
    cases h
    exact hend (hwait _ (by decide)) h₂
  · split at h
    · obtain ⟨k₁, h₁, h⟩ := Option.bind_eq_some_iff.mp h
      obtain ⟨k₂, h₂, h⟩ := Option.bind_eq_some_iff.mp h
      cases h
      exact hend ((hwait _ (by decide)).trans (enqTimedTask_plain h₁)) h₂
    · obtain ⟨k₁, h₁, h⟩ := Option.bind_eq_some_iff.mp h
      cases h₁
      obtain ⟨k₂, h₂, h⟩ := Option.bind_eq_some_iff.mp h
      cases h
      exact hend (Plain.refl k) h₂

theorem nestedWait_plain (ht : 0 < k.type s) (hroom : k.type s < 2 ^ 31 - 1)
    (h : nestedWait k s = some (k', w)) : Plain k k' := by
  unfold nestedWait at h
  rw [incr_of_lt hroom] at h
  split at h
  · cases h
    exact Plain.setType k s (by omega)
  · cases h
    exact Plain.refl k

theorem takeToken_cases (h : takeToken k c s = some (k', w)) :
    if 0 < k.type s then Plain (taken k c s) k' else Plain k k' := by
  cases h
  unfold takeOwnership
  split
  · exact (Plain.lists k ..).taken c s
  · exact Plain.lists k ..

/-- **`rt_sem_wait`** takes a resource or decides nothing. -/
theorem rtSemWait_cases (hm : Mortal k) (hroom : k.owndby s = some c → k.type s < 2 ^ 31 - 1)
    (h : rtSemWait k c s = some (k', w)) :
    if TakesNow k c s then Plain (taken k c s) k' else Plain k k' := by
  unfold rtSemWait at h
  by_cases hlive : k.semMagic s = true
  · rw [if_neg (by simp [hlive])] at h
    split at h
    · next hc =>
        split at h
        · next o hv =>
            obtain ⟨ht, hv⟩ : k.type s > 0 ∧ ubiMaiorVictim k c s = some o := by
              simpa using hv
            rw [if_pos ⟨hlive, ht, Or.inr (by rw [hv]; rfl)⟩]
            exact ubiMaiorRob_takes h
        · next hv =>
            have hnot : ¬ TakesNow k c s := by
              rintro ⟨-, ht, hpos | hsome⟩
              · omega
              · rw [if_pos ht] at hv
                rw [hv] at hsome
                exact nomatch hsome
            rw [if_neg hnot]
            split at h
            · next hown => exact nestedWait_plain hown.1 (hroom hown.2.2) h
            · obtain ⟨k₁, h₁, h⟩ := Option.bind_eq_some_iff.mp h
              obtain ⟨k₂, h₂, h⟩ := Option.bind_eq_some_iff.mp h
              cases h
              have hwaits : Plain k₁ { k₁ with
                  count := Function.update k₁.count s (k₁.count s - 1)
                  state := Function.update k₁.state c (k₁.state c ∪ {.semaphore}) } :=
                (Plain.set k₁ c (by decide)).trans (Plain.lists _ ..)
              have hsleeps := (hwaits.trans (remReadyCurrent_plain _ c)).trans
                (enqueueBlocked_plain h₂)
              exact ((passToOwner_plain hm h₁).trans hsleeps).trans (Plain.lists k₂ ..)
    · next hc =>
        have htoken := takeToken_cases h
        have hiff : TakesNow k c s ↔ 0 < k.type s :=
          ⟨fun hn => hn.2.1, fun ht => ⟨hlive, ht, Or.inl (not_le.mp hc)⟩⟩
        simpa only [hiff] using htoken
  · rw [if_pos (by simp [hlive])] at h
    rw [if_neg fun hn => hlive hn.1]
    cases h
    exact Plain.refl k

/-- The end of a wait takes the resource that has been granted. -/
theorem rtSemWaitTail_cases (h : rtSemWaitTail k c s = some (k', w)) :
    (k.blockedOn c = .null ∧ 0 < k.type s ∧ Plain (taken k c s) k') ∨
    (¬ (k.blockedOn c = .null ∧ 0 < k.type s) ∧ Plain k k') := by
  simp only [rtSemWaitTail] at h
  split at h
  · next hb =>
      simp only [takeOwnership] at h
      split at h
      · next ht =>
          cases h
          exact Or.inl ⟨hb, ht, Plain.refl _⟩
      · next ht =>
          cases h
          exact Or.inr ⟨fun hn => ht hn.2, Plain.refl k⟩
  · next hb =>
      cases h
      refine Or.inr ⟨fun hn => ?_, Plain.refl k⟩
      cases hb.symm.trans hn.1
  · next hb _ =>
      obtain ⟨k₁, h₁, h⟩ := Option.bind_eq_some_iff.mp h
      cases h
      exact Or.inr ⟨fun hn => hb hn.1, semWaitFailed_plain h₁⟩

/-! ### Signals -/

/-- The task that is granted a semaphore by a signal. -/
def firstTask (k : Kernel T S) (s : S) : Option T :=
  match queueTask k (k.queue.next (.head (.sem s))) with
  | .task u => some u
  | _ => none

/-- A signal by `c` gives the resource up: it is the outermost one, and comes
    from the owner where the semaphore asks for it. -/
def ReleasesNow (k : Kernel T S) (c : T) (s : S) : Prop :=
  k.semMagic s = true ∧ k.type s = 1 ∧ (k.restype s = 0 ∨ k.owndby s = some c)

instance (k : Kernel T S) (c : T) (s : S) : Decidable (ReleasesNow k c s) :=
  inferInstanceAs (Decidable (_ ∧ _ ∧ _))

/-- What `rt_sem_signal` asks about a negative `suspdepth`: THE DEPTH OF THE
    TASK THAT IS GRANTED the semaphore. -/
def signalTold (k : Kernel T S) (u : Option T) : Prop :=
  ∃ v, u = some v ∧ k.suspdepth v = RT_RESEM_SUSPDEL

omit decT decS finT finS in
theorem signalTold_congr (h : Plain k k') (u : Option T) :
    signalTold k' u = signalTold k u := by
  simp only [signalTold, h.suspdepth]

/-- A task that does not exist cannot be deleted. -/
theorem rtTaskDelete_dead {c : Option T} (hdead : k.magic t = false)
    (h : rtTaskDelete k c t = some k') : k' = k := by
  unfold rtTaskDelete at h
  rw [if_pos (by simp [hdead])] at h
  exact (Option.some.inj h).symm

theorem releaseResource_cases {u : Option T} (hm : Mortal k)
    (h : releaseResource k c s u = some (k', w)) :
    GivesUp (signalTold k u) (released k s u) c k' := by
  unfold releaseResource at h
  obtain ⟨k₂, h₂, h⟩ := Option.bind_eq_some_iff.mp h
  have hP : Plain (released k s u) k₂ := setTaskPrioFromResq_plain h₂
  refine GivesUp.of_plain hP ?_
  have hdepth : k₂.suspdepth = k.suspdepth := hP.suspdepth
  split at h
  · next hpos =>
      cases h
      exact .suspends (remReadyCurrent_plain (suspended k₂ c) c) hpos
  · next hpos =>
      split at h
      · next hneg =>
          cases u with
          | none => exact nomatch h
          | some v =>
            simp only at h
            split at h
            · next htold =>
                obtain ⟨k₃, h₃, h⟩ := Option.bind_eq_some_iff.mp h
                cases h
                cases hlive : k₂.magic c with
                | true =>
                  rcases rtTaskDelete_cases (hP.mortal hm) hlive h₃ with
                    ⟨-, hdel⟩ | ⟨-, hself, -⟩
                  · exact .deletes hdel hneg ⟨v, rfl, hdepth ▸ htold⟩
                  · exact absurd rfl hself
                | false =>
                  rw [rtTaskDelete_dead hlive h₃]
                  exact .keeps (Plain.refl _) hneg.le (fun hl => nomatch hlive.symm.trans hl)
            · next htold =>
                cases h
                refine .keeps (Plain.refl _) hneg.le fun _ _ => ?_
                rintro ⟨v', hv', hd⟩
                cases hv'
                exact htold (hdepth ▸ hd)
      · next hneg =>
          cases h
          exact .keeps (Plain.refl _) (not_lt.mp hpos) (fun _ hn => absurd hn hneg)

/-- **`rt_sem_signal`** gives the resource up or decides nothing. -/
theorem rtSemSignal_cases (hm : Mortal k) (h : rtSemSignal k (some c) s = some (k', w)) :
    if ReleasesNow k c s then
      GivesUp (signalTold k (firstTask k s)) (released k s (firstTask k s)) c k'
    else Plain k k' := by
  unfold rtSemSignal at h
  by_cases hlive : k.semMagic s = true
  · rw [if_neg (by simp [hlive])] at h
    split at h
    · next hperm =>
        have hnot : ¬ ReleasesNow k c s := by
          rintro ⟨-, -, hr | ho⟩
          · exact hperm.2.1 hr
          · rcases hperm.2.2 with hn | hn
            · exact nomatch hn.symm.trans ho
            · exact hn ho
        rw [if_neg hnot]
        cases h
        exact Plain.refl k
    · next hperm =>
        split at h
        · next hnest =>
            rw [if_neg fun hn => by have := hn.2.1; omega]
            cases h
            exact Plain.setType k s (by omega)
        · next hnest =>
            have hiff : ReleasesNow k c s ↔ 0 < k.type s := by
              refine ⟨fun hn => by have := hn.2.1; omega, fun ht => ?_⟩
              refine ⟨hlive, by omega, ?_⟩
              by_contra hno
              rw [not_or] at hno
              exact hperm ⟨by omega, hno.1, Or.inr hno.2⟩
            simp only [hiff]
            have hcount := Plain.lists k k.ready k.timed k.queue k.blockedOn
              (Function.update k.count s (moreCount k s)) k.running k.linux
              k.wakeup k.pc
            simp only at h
            split at h
            · exact nomatch h
            · next hq =>
                have hfirst : firstTask k s = none := by
                  unfold firstTask
                  rw [show queueTask k (k.queue.next (.head (.sem s))) = .null from hq]
                rw [hfirst]
                split at h
                · next ht =>
                    rw [if_pos ht]
                    exact (releaseResource_cases (hcount.mortal hm) h).of_plain
                      (hcount.released s none)
                · next ht =>
                    rw [if_neg ht]
                    cases h
                    exact hcount
            · next u hq =>
                have hfirst : firstTask k s = some u := by
                  unfold firstTask
                  rw [show queueTask k (k.queue.next (.head (.sem s))) = .task u from hq]
                rw [hfirst]
                obtain ⟨⟨k₁, ready⟩, h₁, h⟩ := Option.bind_eq_some_iff.mp h
                have hP := hcount.trans (wakeWaiter_plain h₁)
                simp only at h
                split at h
                · next ht =>
                    rw [if_pos ((hP.isResource s).mp ht)]
                    have hP' : Plain k (if ready = true then { k₁ with
                        running := Function.update k₁.running u
                          (if .delayed ∈ k₁.state u then -4 else 0) }
                        else k₁) := by
                      split
                      · exact hP.trans (Plain.lists k₁ ..)
                      · exact hP
                    have hrel := releaseResource_cases (hP'.mortal hm) h
                    rw [signalTold_congr hP'] at hrel
                    exact hrel.of_plain (hP'.released s (some u))
                · next ht =>
                    rw [if_neg fun hn => ht ((hP.isResource s).mpr hn)]
                    cases h
                    exact hP
  · rw [if_pos (by simp [hlive])] at h
    rw [if_neg fun hn => hlive hn.1]
    cases h
    exact Plain.refl k

/-- The Linux task gives no resource up. -/
theorem rtSemSignal_linux (h : rtSemSignal k none s = some (k', w)) :
    Plain k k' := by
  unfold rtSemSignal at h
  split at h
  · cases h
    exact Plain.refl k
  · split at h
    · cases h
      exact Plain.refl k
    · next hperm =>
        split at h
        · next hnest =>
            cases h
            exact Plain.setType k s (by omega)
        · have hcount := Plain.lists k k.ready k.timed k.queue k.blockedOn
            (Function.update k.count s (moreCount k s)) k.running k.linux
            k.wakeup k.pc
          simp only at h
          split at h
          · exact nomatch h
          · split at h
            · exact nomatch h
            · cases h
              exact hcount
          · obtain ⟨⟨k₁, ready⟩, h₁, h⟩ := Option.bind_eq_some_iff.mp h
            simp only at h
            split at h
            · exact nomatch h
            · cases h
              exact hcount.trans (wakeWaiter_plain h₁)

/-! ### Deletions -/

/-- The semaphore does not exist any more. -/
def gone (k : Kernel T S) (s : S) : Kernel T S :=
  { k with semMagic := Function.update k.semMagic s false }

/-- A deleted resource is in nobody's ring. -/
def orphaned (k : Kernel T S) (s : S) : Kernel T S :=
  { gone k s with resq := k.resq.unlink (.elem s) }

/-- What `rt_sem_delete` asks about a negative `suspdepth` of the owner, and
    `clr_rtext` behind it. -/
def deleteTold (k : Kernel T S) (c : Option T) (s : S) (o : T) : Prop :=
  k.suspdepth o = RT_RESEM_SUSPDEL ∧
    (taskOwnsSems (orphaned k s) o = false ∨ c = some o ∨ c = none)

theorem deleteOwned_cases {c : Option T} (hm : Mortal k)
    (hP : Plain (gone k s) k₁) (h : deleteOwned k₁ c s o = some k') :
    GivesUp (deleteTold k c s o) (orphaned k s) o k' := by
  unfold deleteOwned at h
  obtain ⟨k₂, h₂, h⟩ := Option.bind_eq_some_iff.mp h
  have hP₂ : Plain (orphaned k s) k₂ := by
    refine Plain.trans ?_ (setTaskPrioFromResq_plain h₂)
    exact ⟨hP.magic, hP.suspdepth, hP.basePriority,
      congrArg (fun r => r.unlink (.elem s)) hP.resq, hP.semMagic, hP.owndby,
      hP.isResource, hP.suspended, hP.mortal⟩
  refine GivesUp.of_plain hP₂ ?_
  have hdepth : k₂.suspdepth = k.suspdepth := hP₂.suspdepth
  have howns : taskOwnsSems k₂ o = taskOwnsSems (orphaned k s) o := by
    simp only [taskOwnsSems, hP₂.resq]
  split at h
  · next hpos =>
      cases h
      exact .suspends (remReadyTask_plain (suspended k₂ o) o) hpos
  · next hpos =>
      split at h
      · next hdel =>
          have hneg : k₂.suspdepth o < 0 := by rw [hdel]; decide
          cases hlive : k₂.magic o with
          | true =>
            rcases rtTaskDelete_cases (hP₂.mortal hm) hlive h with
              ⟨hwho, hk'⟩ | ⟨hq, hself, hlinux, rfl⟩
            · exact .deletes hk' hneg ⟨hdepth ▸ hdel, howns ▸ hwho⟩
            · refine .keeps ?_ hneg.le fun _ _ htold => ?_
              · rw [← hdel, Function.update_eq_self]
                exact Plain.refl _
              · rcases htold.2 with hn | hn | hn
                · rw [howns] at hq
                  exact nomatch hq.symm.trans hn
                · exact hself hn
                · exact hlinux hn
          | false =>
            rw [rtTaskDelete_dead hlive h]
            exact .keeps (Plain.refl _) hneg.le (fun hl => nomatch hlive.symm.trans hl)
      · next hdel =>
          cases h
          exact .keeps (Plain.refl _) (not_lt.mp hpos)
            (fun _ _ htold => hdel (hdepth ▸ htold.1))

/-- **`rt_sem_delete`** takes the resource from its owner. -/
theorem rtSemDelete_cases {c : Option T} (hm : Mortal k)
    (h : rtSemDelete k c s = some (k', w)) :
    if k.semMagic s = true then
      match k.owndby s with
      | some o =>
        if 0 < k.type s then
          GivesUp (deleteTold k c s o) (orphaned k s) o k'
        else Plain (gone k s) k'
      | none => Plain (gone k s) k'
    else Plain k k' := by
  unfold rtSemDelete at h
  by_cases hlive : k.semMagic s = true
  · rw [if_neg (by simp [hlive])] at h
    rw [if_pos hlive]
    obtain ⟨k₁, h₁, h⟩ := Option.bind_eq_some_iff.mp h
    have hP : Plain (gone k s) k₁ := deleteWaiters_plain h₁
    have hres : 0 < k₁.type s ↔ 0 < k.type s := hP.isResource s
    have hown : k₁.owndby = k.owndby := hP.owndby
    cases ho : k.owndby s with
    | none =>
      rw [hown, ho] at h
      cases h
      exact hP
    | some o =>
      rw [hown, ho] at h
      simp only at h ⊢
      split at h
      · next ht =>
          obtain ⟨k₂, h₂, h⟩ := Option.bind_eq_some_iff.mp h
          cases h
          rw [if_pos (hres.mp ht)]
          exact deleteOwned_cases hm hP h₂
      · next ht =>
          cases h
          rw [if_neg fun hn => ht (hres.mpr hn)]
          exact hP
  · rw [if_pos (by simp [hlive])] at h
    rw [if_neg hlive]
    cases h
    exact Plain.refl k

/-! ### Requests -/

/-- **`rt_task_suspend`** suspends a task that owns nothing and has no request
    registered, and registers the request otherwise. -/
theorem rtTaskSuspend_cases {c : Option T} (h : rtTaskSuspend k c t = some (k', w)) :
    if k.magic t = true then
      Plain { k with
        suspdepth := Function.update k.suspdepth t (incr (k.suspdepth t))
        state := Function.update k.state t
          (if taskOwnsSems k t = false ∧ k.suspdepth t = 0 then
            k.state t ∪ {.suspended} else k.state t) } k'
    else Plain k k' := by
  unfold rtTaskSuspend at h
  cases hlive : k.magic t with
  | false =>
    rw [if_pos (by simp [hlive])] at h
    cases h
    exact Plain.refl k
  | true =>
    rw [if_neg (by simp [hlive])] at h
    rw [if_pos rfl]
    split at h
    · next hnow =>
        have hnow' : taskOwnsSems k t = false ∧ k.suspdepth t = 0 := by
          simpa using hnow
        rw [if_pos hnow', hnow'.2]
        -- the bit is set behind the lists have been left
        have hset : ∀ k₁ : Kernel T S, Plain { k with
            suspdepth := Function.update k.suspdepth t 1 } k₁ →
            Plain { k with
              suspdepth := Function.update k.suspdepth t (incr 0)
              state := Function.update k.state t
                (k.state t ∪ {.suspended}) } (suspended k₁ t) :=
          fun _ hP => hP.suspend t
        simp only at h
        split at h
        · cases h
          refine (hset (remReadyCurrent _ t) ?_).trans (Plain.lists _ ..)
          exact (Plain.lists _ ..).trans (remReadyCurrent_plain _ t)
        · cases h
          refine hset _ ?_
          exact (remReadyTask_plain _ t).trans (remTimedTask_plain _ t)
    · next hnow =>
        have hnow' : ¬ (taskOwnsSems k t = false ∧ k.suspdepth t = 0) := by
          simpa using hnow
        rw [if_neg hnow', Function.update_eq_self]
        cases h
        exact Plain.refl _

/-- **`rt_task_resume`** -/
theorem rtTaskResume_cases (h : rtTaskResume k t = some (k', w)) :
    if k.magic t = true then
      Plain { k with
        suspdepth := Function.update k.suspdepth t (decr (k.suspdepth t))
        state := Function.update k.state t (if k.suspdepth t = 1 then k.state t \ {.suspended}
            else k.state t) } k'
    else Plain k k' := by
  unfold rtTaskResume at h
  cases hlive : k.magic t with
  | false =>
    rw [if_pos (by simp [hlive])] at h
    cases h
    exact Plain.refl k
  | true =>
    rw [if_neg (by simp [hlive])] at h
    rw [if_pos rfl]
    simp only [Function.update_self] at h
    split at h
    · next hzero =>
        rw [if_pos (decr_eq_zero.mp hzero)]
        obtain ⟨tm, htm⟩ := remTimedTask_eq { k with
          suspdepth := Function.update k.suspdepth t (decr (k.suspdepth t)) } t
        have hclear : Plain { k with
            suspdepth := Function.update k.suspdepth t (decr (k.suspdepth t))
            state := Function.update k.state t (k.state t \ {.suspended}) }
            { k with
              suspdepth := Function.update k.suspdepth t (decr (k.suspdepth t))
              timed := tm
              state := Function.update k.state t (k.state t \ {.suspended, .delayed}) } := by
          refine ⟨rfl, rfl, rfl, rfl, rfl, rfl, fun _ => Iff.rfl, fun u => ?_, id⟩
          by_cases hu : u = t
          · subst hu
            simp
          · simp [hu]
        rw [htm] at h
        split at h
        · obtain ⟨k₁, h₁, h⟩ := Option.bind_eq_some_iff.mp h
          cases h
          exact hclear.trans ((Plain.lists _ ..).trans (enqReadyTask_plain h₁))
        · cases h
          exact hclear
    · next hzero =>
        rw [if_neg fun hn => hzero (decr_eq_zero.mpr hn), Function.update_eq_self]
        cases h
        exact Plain.refl _

end Services

end RtaiOwners
