import Rtai.SemSteps

/-! # Holders of resource semaphores

    A task holds a resource from the return of a successful wait to its
    outermost signal.  The owner that the semaphore records is not the same:
    a signal makes the first waiter the owner while it still sleeps in its
    wait, and a task of higher priority may rob it of the ownership as long
    as it has not run. -/

namespace RtaiHolders

open RtaiRings RtaiRuns RtaiKernel RtaiSched RtaiSem RtaiSteps RtaiFrames
  RtaiWaitQueues RtaiControl RtaiSemEffects RtaiSemControl RtaiServices
  RtaiSemSteps

variable {T S : Type} [decT : DecidableEq T] [decS : DecidableEq S] [finT : Fintype T]
  [finS : Fintype S]

/-! ## The runs -/

/-- The kernel, with how often each task has to signal each semaphore. -/
structure Holding (T S : Type) where
  kernel : Kernel T S
  depth : T → S → Nat

/-- A system in which nothing has happened. -/
def unheld (cfg : Config T S) : Holding T S where
  kernel := boot cfg
  depth := fun _ _ => 0

/-- The task that acts. -/
def actor {T S : Type} : Action T S → Option T
  | .call c _ => some c
  | .cont c => some c
  | _ => none

/-- A signal executes. -/
def signalExecutes (a : Action T S) (o : Option (Ret T)) (s : S) : Bool :=
  match o with
  | some (.val _) => decide (signalled a = some s)
  | _ => false

/-- One atomic section: a task that returns from a wait with success holds the
    semaphore once more, one whose signal executes once less. -/
def holding (x : Holding T S) (a : Action T S) : Option (Holding T S × Option (Ret T)) :=
  match exec x.kernel a with
  | none => none
  | some (k, o) => some
      ({ kernel := k
         depth := fun t s =>
          if actor a = some t then
            x.depth t s + (if waitSucceeds x.kernel a o s then 1 else 0) -
              (if signalExecutes a o s then 1 else 0)
          else x.depth t s }, o)

/-- The services on semaphores and `rt_task_masked_unblock`; tasks are started
    with `rt_task_resume`. -/
def HolderOp (k : Kernel T S) : Op T S → Prop
  | .semWait _ => True
  | .semWaitIf _ => True
  | .semWaitUntil _ _ => True
  | .semSignal _ => True
  | .unblock _ _ => True
  | .resume t => 0 < k.suspdepth t ∧ k.pc t = .idle
  | _ => False

/-- The steps of the holders. -/
def HolderAction (x : Holding T S) : Action T S → Prop
  | .call _ op => HolderOp x.kernel op
  | .linux op => HolderOp x.kernel op
  | _ => True

/-- **Mutual exclusion** -/
def MutualExclusion (x : Holding T S) : Prop :=
  ∀ s, 0 < x.kernel.type s → x.kernel.restype s ≠ 0 →
    ∀ t u, 0 < x.depth t s → 0 < x.depth u s → t = u

/-! ## What the owner of a resource is doing -/

/-- **THE OWNER HOLDS THE RESOURCE OR HAS BEEN GRANTED IT**, and nobody else
    does. -/
structure Owned (x : Holding T S) (L : Head T S → List T) (s : S) : Prop where
  free : x.kernel.owndby s = none →
    x.kernel.count s = 1 ∧ (L (.sem s)).length = 0 ∧ x.kernel.type s = 1
  busy : ∀ o, x.kernel.owndby s = some o → x.kernel.count s = - (L (.sem s)).length
  holders : ∀ t, 0 < x.depth t s → x.kernel.owndby s = some t ∧
    ¬ Granted x.kernel s t ∧ x.depth t s = x.kernel.type s
  granted : ∀ t, Granted x.kernel s t → x.kernel.owndby s = some t ∧ x.kernel.type s = 1
  owner : ∀ o, x.kernel.owndby s = some o → Granted x.kernel s o ∨ 0 < x.depth o s

/-- What a step does to one resource. -/
inductive OwnerStep (k : Kernel T S) (L : Head T S → List T) (a : Action T S)
    (o : Option (Ret T)) (k' : Kernel T S) (L' : Head T S → List T) (s : S) :
    Prop where
  | same (how : k'.owndby s = k.owndby s) (hc : k'.count s = k.count s)
      (ht : k'.type s = k.type s)
      (hL : (L' (.sem s)).length = (L (.sem s)).length)
      (hg : ∀ t, Granted k' s t ↔ Granted k s t)
      (hw : waitSucceeds k a o s = false) (hr : signalExecutes a o s = false)
  | take (c : T) (ha : actor a = some c) (hpos : 0 < k.count s)
      (how : k'.owndby s = some c) (hc : k'.count s = k.count s - 1)
      (ht : k'.type s = k.type s)
      (hL : (L' (.sem s)).length = (L (.sem s)).length)
      (hg : ∀ t, Granted k' s t ↔ Granted k s t) (hng : ¬ Granted k s c)
      (hw : waitSucceeds k a o s = true) (hr : signalExecutes a o s = false)
  | nest (c : T) (ha : actor a = some c) (hown : k.owndby s = some c)
      (how : k'.owndby s = k.owndby s) (hc : k'.count s = k.count s)
      (ht : k'.type s = k.type s + 1)
      (hL : (L' (.sem s)).length = (L (.sem s)).length)
      (hg : ∀ t, Granted k' s t ↔ Granted k s t) (hng : ¬ Granted k s c)
      (hw : waitSucceeds k a o s = true) (hr : signalExecutes a o s = false)
  | rob (c u : T) (ha : actor a = some c) (hne : u ≠ c)
      (hown : k.owndby s = some u) (hgu : Granted k s u)
      (how : k'.owndby s = some c) (hc : k'.count s = k.count s - 1)
      (ht : k'.type s = k.type s)
      (hL : (L' (.sem s)).length = (L (.sem s)).length + 1)
      (hg : ∀ t, Granted k' s t ↔ Granted k s t ∧ t ≠ u)
      (hw : waitSucceeds k a o s = true) (hr : signalExecutes a o s = false)
  | block (hle : k.count s ≤ 0) (how : k'.owndby s = k.owndby s)
      (hc : k'.count s = k.count s - 1) (ht : k'.type s = k.type s)
      (hL : (L' (.sem s)).length = (L (.sem s)).length + 1)
      (hg : ∀ t, Granted k' s t ↔ Granted k s t)
      (hw : waitSucceeds k a o s = false) (hr : signalExecutes a o s = false)
  | collect (c : T) (ha : actor a = some c) (hgc : Granted k s c)
      (how : k'.owndby s = some c) (hc : k'.count s = k.count s)
      (ht : k'.type s = k.type s)
      (hL : (L' (.sem s)).length = (L (.sem s)).length)
      (hg : ∀ t, Granted k' s t ↔ Granted k s t ∧ t ≠ c)
      (hw : waitSucceeds k a o s = true) (hr : signalExecutes a o s = false)
  | leave (how : k'.owndby s = k.owndby s) (hc : k'.count s = moreCount k s)
      (ht : k'.type s = k.type s)
      (hL : (L' (.sem s)).length + 1 = (L (.sem s)).length)
      (hg : ∀ t, Granted k' s t ↔ Granted k s t)
      (hw : waitSucceeds k a o s = false) (hr : signalExecutes a o s = false)
  | unnest (c : T) (ha : actor a = some c) (hown : k.owndby s = some c)
      (h1 : 1 < k.type s) (how : k'.owndby s = k.owndby s)
      (hc : k'.count s = k.count s) (ht : k'.type s = k.type s - 1)
      (hL : (L' (.sem s)).length = (L (.sem s)).length)
      (hg : ∀ t, Granted k' s t ↔ Granted k s t) (hng : ¬ Granted k s c)
      (hw : waitSucceeds k a o s = false) (hr : signalExecutes a o s = true)
  | release (c : T) (ha : actor a = some c) (hown : k.owndby s = some c)
      (h1 : k.type s = 1) (hl : (L (.sem s)).length = 0)
      (how : k'.owndby s = none) (hc : k'.count s = moreCount k s)
      (ht : k'.type s = k.type s) (hL : (L' (.sem s)).length = 0)
      (hg : ∀ t, Granted k' s t ↔ Granted k s t) (hng : ¬ Granted k s c)
      (hw : waitSucceeds k a o s = false) (hr : signalExecutes a o s = true)
  | handOver (c u : T) (ha : actor a = some c) (hown : k.owndby s = some c)
      (h1 : k.type s = 1) (how : k'.owndby s = some u)
      (hc : k'.count s = moreCount k s) (ht : k'.type s = k.type s)
      (hL : (L' (.sem s)).length + 1 = (L (.sem s)).length)
      (hg : ∀ t, Granted k' s t ↔ Granted k s t ∨ t = u)
      (hng : ¬ Granted k s c)
      (hw : waitSucceeds k a o s = false) (hr : signalExecutes a o s = true)

section Depths

variable {x x' : Holding T S} {a : Action T S} {o : Option (Ret T)}
  {k' : Kernel T S} {s : S} {c : T}

theorem holding_kernel (hx : holding x a = some (x', o)) :
    exec x.kernel a = some (x'.kernel, o) := by
  unfold holding at hx
  cases he : exec x.kernel a with
  | none => rw [he] at hx; exact nomatch hx
  | some r =>
    obtain ⟨k', o'⟩ := r
    rw [he] at hx
    cases hx
    rfl

/-- How often the tasks hold a semaphore after an action. -/
def Deepens (x x' : Holding T S) (a : Action T S) (o : Option (Ret T)) (s : S) : Prop :=
  ∀ t, x'.depth t s = if actor a = some t then
    x.depth t s + (if waitSucceeds x.kernel a o s then 1 else 0) -
      (if signalExecutes a o s then 1 else 0)
    else x.depth t s

theorem holding_deepens (hx : holding x a = some (x', o)) (s : S) :
    Deepens x x' a o s := by
  intro t
  unfold holding at hx
  cases he : exec x.kernel a with
  | none => rw [he] at hx; exact nomatch hx
  | some r =>
    obtain ⟨k', o'⟩ := r
    rw [he] at hx
    cases hx
    rfl

omit finT finS in
/-- A step that is about no wait and no signal. -/
theorem depth_same (hx : Deepens x x' a o s) (hw : waitSucceeds x.kernel a o s = false)
    (hr : signalExecutes a o s = false) (t : T) :
    x'.depth t s = x.depth t s := by
  rw [hx, hw, hr]
  split <;> rfl

omit finT finS in
theorem depth_gains (hx : Deepens x x' a o s) (ha : actor a = some c)
    (hw : waitSucceeds x.kernel a o s = true)
    (hr : signalExecutes a o s = false) :
    x'.depth c s = x.depth c s + 1 ∧ ∀ t, t ≠ c → x'.depth t s = x.depth t s := by
  refine ⟨?_, fun t ht => ?_⟩
  · rw [hx, if_pos ha, hw, hr]
    rfl
  · rw [hx, if_neg]
    rw [ha]
    exact fun h => ht (Option.some.inj h).symm

omit finT finS in
theorem depth_loses (hx : Deepens x x' a o s) (ha : actor a = some c)
    (hw : waitSucceeds x.kernel a o s = false)
    (hr : signalExecutes a o s = true) :
    x'.depth c s = x.depth c s - 1 ∧ ∀ t, t ≠ c → x'.depth t s = x.depth t s := by
  refine ⟨?_, fun t ht => ?_⟩
  · rw [hx, if_pos ha, hw, hr]
    rfl
  · rw [hx, if_neg]
    rw [ha]
    exact fun h => ht (Option.some.inj h).symm

end Depths

section Kept

variable {x : Holding T S} {L : Head T S → List T} {s : S} {c u : T}

omit decT decS finT finS in
/-- A resource with a positive count has no owner. -/
theorem Owned.free_of_pos (O : Owned x L s) (h : 0 < x.kernel.count s) :
    x.kernel.owndby s = none := by
  cases ho : x.kernel.owndby s with
  | none => rfl
  | some o =>
    have := O.busy o ho
    omega

omit decT decS finS in
/-- A resource that somebody waits for has an owner. -/
theorem Owned.owned_of_waiter (O : Owned x L s)
    (h : 0 < (L (.sem s)).length ∨ x.kernel.count s ≤ 0) :
    ∃ o, x.kernel.owndby s = some o := by
  cases ho : x.kernel.owndby s with
  | some o => exact ⟨o, rfl⟩
  | none =>
    obtain ⟨h1, h2, -⟩ := O.free ho
    omega

omit decT decS finT finS in
/-- The owner that is not in a wait holds the resource. -/
theorem Owned.depth_of_owner (O : Owned x L s)
    (ho : x.kernel.owndby s = some c) (hng : ¬ Granted x.kernel s c) :
    (x.depth c s : Int) = x.kernel.type s ∧ 0 < x.depth c s := by
  have hpos := (O.owner c ho).resolve_left hng
  exact ⟨(O.holders c hpos).2.2, hpos⟩

omit decT decS finT finS in
/-- Nobody but the owner holds the resource. -/
theorem Owned.depth_of_other (O : Owned x L s)
    (ho : ∀ t, x.kernel.owndby s = some t → t = u) {t : T} (ht : t ≠ u) :
    x.depth t s = 0 := by
  by_contra h
  exact ht (ho t (O.holders t (Nat.pos_of_ne_zero h)).1)

omit decT decS finT finS in
/-- There is one owner. -/
theorem only_owner {k : Kernel T S} (hown : k.owndby s = some c) (t : T)
    (h : k.owndby s = some t) : t = c := by
  rw [hown] at h
  exact (Option.some.inj h).symm

/-- While its owner is in no wait, a resource is on its way to nobody. -/
theorem Owned.not_granted (O : Owned x L s) (hown : x.kernel.owndby s = some c)
    (hng : ¬ Granted x.kernel s c) (t : T) : ¬ Granted x.kernel s t := by
  intro hgt
  rw [only_owner hown t (O.granted t hgt).1] at hgt
  exact hng hgt

/-- A resource that one task holds, and that is on its way to nobody. -/
theorem owned_of_held (how : x.kernel.owndby s = some c)
    (hc : x.kernel.count s = - (L (.sem s)).length)
    (hng : ∀ t, ¬ Granted x.kernel s t) (hDc : (x.depth c s : Int) = x.kernel.type s)
    (hpos : 0 < x.depth c s) (hD : ∀ t, t ≠ c → x.depth t s = 0) : Owned x L s := by
  refine ⟨?_, fun _ _ => hc, ?_, fun t hgt => absurd hgt (hng t), ?_⟩
  · rw [how]; exact nofun
  · intro t hpt
    by_cases htc : t = c
    · subst htc
      exact ⟨how, hng t, hDc⟩
    · rw [hD t htc] at hpt
      exact absurd hpt (lt_irrefl 0)
  · intro o ho
    rw [only_owner how o ho]
    exact Or.inr hpos

/-- **EVERY STEP KEEPS THE OWNER RIGHT.** -/
theorem OwnerStep.kept {x' : Holding T S} {L' : Head T S → List T}
    {a : Action T S} {o : Option (Ret T)}
    (h : OwnerStep x.kernel L a o x'.kernel L' s)
    (hx : Deepens x x' a o s) (O : Owned x L s) : Owned x' L' s := by
  cases h with
  | same how hc ht hL hg hw hr =>
    have hD := depth_same hx hw hr
    refine ⟨?_, ?_, ?_, ?_, ?_⟩ <;>
      simp only [hD, how, hc, ht, hL, hg]
    · exact O.free
    · exact O.busy
    · exact O.holders
    · exact O.granted
    · exact O.owner
  | take c ha hpos how hc ht hL hg hng hw hr =>
    obtain ⟨hDc, hD⟩ := depth_gains hx ha hw hr
    have hfree := O.free_of_pos hpos
    obtain ⟨hc1, hl0, ht1⟩ := O.free hfree
    have hnone : ∀ t, x.depth t s = 0 := by
      intro t
      by_contra h
      have := (O.holders t (Nat.pos_of_ne_zero h)).1
      rw [hfree] at this
      exact nomatch this
    have hDc0 := hnone c
    refine owned_of_held how (by omega) ?_ (by omega) (by omega) ?_
    · intro t hgt
      have := (O.granted t ((hg t).mp hgt)).1
      rw [hfree] at this
      exact nomatch this
    · intro t htc
      rw [hD t htc, hnone t]
  | nest c ha hown how hc ht hL hg hng hw hr =>
    obtain ⟨hDc, hD⟩ := depth_gains hx ha hw hr
    obtain ⟨hdepth, hpos⟩ := O.depth_of_owner hown hng
    have hbusy := O.busy c hown
    refine owned_of_held (how.trans hown) (by omega) ?_ (by omega) (by omega) ?_
    · exact fun t => (hg t).not.mpr (O.not_granted hown hng t)
    · intro t htc
      rw [hD t htc, O.depth_of_other (only_owner hown) htc]
  | rob c u ha hne hown hgu how hc ht hL hg hw hr =>
    obtain ⟨hDc, hD⟩ := depth_gains hx ha hw hr
    have hbusy := O.busy u hown
    have ht1 := (O.granted u hgu).2
    have hnone : ∀ t, x.depth t s = 0 := by
      intro t
      by_cases htu : t = u
      · by_contra h
        exact (O.holders t (Nat.pos_of_ne_zero h)).2.1 (htu ▸ hgu)
      · exact O.depth_of_other (only_owner hown) htu
    have hDc0 := hnone c
    refine owned_of_held how (by omega) ?_ (by omega) (by omega) ?_
    · intro t hgt
      obtain ⟨hgt', htu⟩ := (hg t).mp hgt
      exact htu (only_owner hown t (O.granted t hgt').1)
    · intro t htc
      rw [hD t htc, hnone t]
  | block hle how hc ht hL hg hw hr =>
    have hD := depth_same hx hw hr
    obtain ⟨o, hown⟩ := O.owned_of_waiter (Or.inr hle)
    have hbusy := O.busy o hown
    refine ⟨?_, ?_, ?_, ?_, ?_⟩
    · rw [how, hown]; exact nofun
    · intro o' _
      omega
    · intro t hpt
      rw [hD] at hpt ⊢
      rw [how, ht, hg]
      exact O.holders t hpt
    · intro t hgt
      rw [how, ht]
      exact O.granted t ((hg t).mp hgt)
    · intro o' ho
      rw [how] at ho
      rw [hg, hD]
      exact O.owner o' ho
  | collect c ha hgc how hc ht hL hg hw hr =>
    obtain ⟨hDc, hD⟩ := depth_gains hx ha hw hr
    obtain ⟨hown, ht1⟩ := O.granted c hgc
    have hbusy := O.busy c hown
    have hDc0 : x.depth c s = 0 := by
      by_contra h
      exact (O.holders c (Nat.pos_of_ne_zero h)).2.1 hgc
    refine owned_of_held how (by omega) ?_ (by omega) (by omega) ?_
    · intro t hgt
      obtain ⟨hgt', htc⟩ := (hg t).mp hgt
      exact htc (only_owner hown t (O.granted t hgt').1)
    · intro t htc
      rw [hD t htc, O.depth_of_other (only_owner hown) htc]
  | leave how hc ht hL hg hw hr =>
    have hD := depth_same hx hw hr
    obtain ⟨o, hown⟩ := O.owned_of_waiter (Or.inl (by omega))
    have hbusy := O.busy o hown
    have hmore := moreCount_of_nonpos (k := x.kernel) (s := s) (by omega)
    refine ⟨?_, ?_, ?_, ?_, ?_⟩
    · rw [how, hown]; exact nofun
    · intro o' _
      omega
    · intro t hpt
      rw [hD] at hpt ⊢
      rw [how, ht, hg]
      exact O.holders t hpt
    · intro t hgt
      rw [how, ht]
      exact O.granted t ((hg t).mp hgt)
    · intro o' ho
      rw [how] at ho
      rw [hg, hD]
      exact O.owner o' ho
  | unnest c ha hown h1 how hc ht hL hg hng hw hr =>
    obtain ⟨hDc, hD⟩ := depth_loses hx ha hw hr
    obtain ⟨hdepth, hpos⟩ := O.depth_of_owner hown hng
    have hbusy := O.busy c hown
    refine owned_of_held (how.trans hown) (by omega) ?_ (by omega) (by omega) ?_
    · exact fun t => (hg t).not.mpr (O.not_granted hown hng t)
    · intro t htc
      rw [hD t htc, O.depth_of_other (only_owner hown) htc]
  | release c ha hown h1 hl how hc ht hL hg hng hw hr =>
    obtain ⟨hDc, hD⟩ := depth_loses hx ha hw hr
    obtain ⟨hdepth, hpos⟩ := O.depth_of_owner hown hng
    have hbusy := O.busy c hown
    have hmore := moreCount_of_nonpos (k := x.kernel) (s := s) (by omega)
    refine ⟨?_, ?_, ?_, ?_, ?_⟩
    · exact fun _ => ⟨by omega, hL, by omega⟩
    · rw [how]; exact nofun
    · intro t hpt
      by_cases htc : t = c
      · subst htc
        omega
      · rw [hD t htc, O.depth_of_other (only_owner hown) htc] at hpt
        exact absurd hpt (lt_irrefl 0)
    · intro t hgt
      exact absurd ((hg t).mp hgt) (O.not_granted hown hng t)
    · rw [how]; exact nofun
  | handOver c u ha hown h1 how hc ht hL hg hng hw hr =>
    obtain ⟨hDc, hD⟩ := depth_loses hx ha hw hr
    obtain ⟨hdepth, hpos⟩ := O.depth_of_owner hown hng
    have hbusy := O.busy c hown
    have hmore := moreCount_of_nonpos (k := x.kernel) (s := s) (by omega)
    refine ⟨?_, ?_, ?_, ?_, ?_⟩
    · rw [how]; exact nofun
    · intro o _
      omega
    · intro t hpt
      by_cases htc : t = c
      · subst htc
        omega
      · rw [hD t htc, O.depth_of_other (only_owner hown) htc] at hpt
        exact absurd hpt (lt_irrefl 0)
    · intro t hgt
      rcases (hg t).mp hgt with hgt' | rfl
      · exact absurd hgt' (O.not_granted hown hng t)
      · exact ⟨how, by omega⟩
    · intro o ho
      rw [how] at ho
      cases ho
      exact Or.inl ((hg u).mpr (Or.inr rfl))

end Kept

/-! ## The services take these steps -/

section Steps

variable {k k' : Kernel T S} {L L' : Head T S → List T} {a : Action T S}
  {o : Option (Ret T)} {s s₀ : S} {c : T}

omit decS finT finS in
/-- The fields of the semaphores, which the preparation leaves alone. -/
theorem Prepared.sems {k₀ : Kernel T S} (h : Prepared k c s₀ k₀) :
    k₀.owndby = k.owndby ∧ k₀.count = k.count ∧ k₀.type = k.type ∧
      k₀.pc = k.pc ∧ ∀ t, t ≠ c → k₀.blockedOn t = k.blockedOn t := by
  rcases h with h | h <;>
    obtain ⟨_, _, _, _, _, _, _, _, _, _, _, rfl, -, -⟩ := h
  · exact ⟨rfl, rfl, rfl, rfl, fun _ _ => rfl⟩
  · exact ⟨rfl, rfl, rfl, rfl, fun t ht => Function.update_of_ne ht ..⟩

omit finT finS in
/-- So does the inheritance walk. -/
theorem Passes.sems {p : Int} {d : TaskPtr T} {k₁ : Kernel T S}
    {L₁ : Head T S → List T} (P : Passes p k L d k₁ L₁) :
    k₁.owndby = k.owndby ∧ k₁.count = k.count ∧ k₁.type = k.type ∧
      k₁.pc = k.pc ∧ k₁.blockedOn = k.blockedOn ∧
      ∀ h, (L₁ h).length = (L h).length := by
  induction P with
  | null _ _ => exact ⟨rfl, rfl, rfl, rfl, rfl, fun _ => rfl⟩
  | stop _ _ _ _ => exact ⟨rfl, rfl, rfl, rfl, rfl, fun _ => rfl⟩
  | step _ G R _ ih =>
    obtain ⟨h1, h2, h3, h4, h5, h6⟩ := ih
    have hperm := G.perm
    obtain ⟨_, _, -, -, _, _, _, _, _, _, _, _, _, _, _, rfl, -, -⟩ :=
      G.shuffles R
    exact ⟨h1, h2, h3, h4, h5, fun h => (h6 h).trans (hperm h).length_eq⟩

/-- And the recomputation of a priority. -/
theorem Recomputes.sems (h : Recomputes k s₀ k') :
    k'.owndby = k.owndby ∧ k'.count = k.count ∧ k'.type = k.type ∧
      k'.pc = k.pc ∧ k'.blockedOn = k.blockedOn := by
  cases h with
  | none _ h =>
    obtain ⟨_, _, _, _, _, _, _, _, _, _, _, rfl, -, -⟩ := h
    exact ⟨rfl, rfl, rfl, rfl, rfl⟩
  | owner _ _ _ _ _ h =>
    obtain ⟨_, _, _, _, _, _, _, _, _, _, _, rfl, -, -⟩ := h
    exact ⟨rfl, rfl, rfl, rfl, rfl⟩

omit decS finT finS in
/-- A caller that returns or blocks is granted nothing. -/
theorem granted_caller {p : Pc T S} (hw : waitsOn (k.pc c) = none)
    (hpc : k'.pc = Function.update k.pc c p)
    (hp : waitsOn p = none ∨ k'.blockedOn c ≠ .null)
    (hb : ∀ t, t ≠ c → k'.blockedOn t = k.blockedOn t) (t : T) :
    Granted k' s t ↔ Granted k s t := by
  refine granted_others (not_granted_of_quiet hw) ?_ (fun t ht => ?_) hb t
  · rintro ⟨h1, h2⟩
    rcases hp with hp | hp
    · rw [hpc, Function.update_self, hp] at h1
      exact nomatch h1
    · exact hp h2
  · rw [hpc]
    exact Function.update_of_ne ht ..

omit finT finS in
theorem takeOwnership_other (k : Kernel T S) (c : T) (h : s₀ ≠ s) :
    (takeOwnership k c s₀).owndby s = k.owndby s := by
  unfold takeOwnership
  split
  · exact Function.update_of_ne h.symm ..
  · rfl

omit finT finS in
theorem takeOwnership_self (k : Kernel T S) (c : T) (h : 0 < k.type s) :
    (takeOwnership k c s).owndby s = some c := by
  unfold takeOwnership
  rw [if_pos h]
  exact Function.update_self ..

omit decT decS finT finS in
theorem sem_ne (h : s₀ ≠ s) : Head.sem s ≠ (Head.sem s₀ : Head T S) :=
  fun he => h (Head.sem.inj he).symm

/-- One task more in one queue. -/
theorem length_inserted {l₁ l₂ : List T} {u : T} (hl : L (.sem s₀) = l₁ ++ l₂)
    (hL : L' = Function.update L (.sem s₀) (l₁ ++ u :: l₂)) (s : S) :
    (L' (.sem s)).length = (L (.sem s)).length + if s₀ = s then 1 else 0 := by
  rw [hL]
  by_cases he : s₀ = s
  · subst he
    rw [if_pos rfl, Function.update_self, hl, List.length_append,
      List.length_append, List.length_cons]
    omega
  · rw [if_neg he, Function.update_of_ne (sem_ne he)]
    rfl

/-- One task less. -/
theorem length_removed {l m : List T} {u : T} (hl : L (.sem s₀) = l ++ u :: m)
    (hL : L' = Function.update L (.sem s₀) (l ++ m)) (s : S) :
    (L' (.sem s)).length + (if s₀ = s then 1 else 0) = (L (.sem s)).length := by
  rw [hL]
  by_cases he : s₀ = s
  · subst he
    rw [if_pos rfl, Function.update_self, hl, List.length_append,
      List.length_append, List.length_cons]
    omega
  · rw [if_neg he, Function.update_of_ne (sem_ne he)]
    rfl

omit decT finT finS in
theorem signalExecutes_enter {op : Op T S} {tries : Bool}
    (hop : entersWait op = some (s₀, tries)) :
    signalExecutes (.call c op) o s = false := by
  have hno : signalled (.call c op) ≠ some s := by
    cases op <;> first | (cases hop; done) | exact nofun
  unfold signalExecutes
  split
  · exact decide_eq_false hno
  · rfl

/-- **A wait.** -/
theorem Waits.ownerStep {op : Op T S} {tries : Bool} (W : Waits tries k L c s₀ k' L' o)
    (hop : entersWait op = some (s₀, tries)) (hcall : Caller k c)
    (hrob : RobsGranted k c s₀)
    (hfits : k.owndby s₀ = some c → k.type s₀ < 2 ^ 31 - 1)
    (ht : 0 < k.type s) : OwnerStep k L (.call c op) o k' L' s := by
  have hr : signalExecutes (.call c op) o s = false := signalExecutes_enter hop
  have hng : ¬ Granted k s c := not_granted_of_quiet hcall.waits
  have hother : ∀ n, s₀ ≠ s → waitSucceeds k (.call c op) (some (.val n)) s = false := by
    intro n hne
    rw [waitSucceeds_enter hop, decide_eq_false hne, Bool.false_and]
  have hself : ∀ n, 0 < n → s₀ = s → waitSucceeds k (.call c op) (some (.val n)) s = true := by
    intro n hn he
    rw [waitSucceeds_enter hop, decide_eq_true he, decide_eq_true hn, Bool.or_true]
    rfl
  cases W with
  | refuse k₀ r hP hc hk hL ho hre =>
    obtain ⟨h1, h2, h3, h4, h5⟩ := Prepared.sems hP
    have hw : waitSucceeds k (.call c op) o s = false := by
      rw [ho]
      rcases hre with ⟨-, rfl⟩ | ⟨rfl, rfl⟩
      · exact waitSucceeds_error nofun
      · rw [waitSucceeds_enter hop, decide_eq_false (not_lt.mpr hc)]
        simp
    have hg : ∀ t, Granted k' s t ↔ Granted k s t := by
      rw [hk]
      refine granted_caller (p := .idle) hcall.waits ?_ (Or.inl rfl) h5
      unfold returned
      rw [h4]
    refine .same ?_ ?_ ?_ (by rw [hL]) hg hw hr <;> rw [hk]
    · exact congrFun h1 s
    · exact congrFun h2 s
    · exact congrFun h3 s
  | take hc hk hL ho =>
    obtain ⟨ow, rq, he⟩ := takeOwnership_eq { k with
      count := Function.update k.count s₀ (k.count s₀ - 1) } c s₀
    have hg : ∀ t, Granted k' s t ↔ Granted k s t := by
      rw [hk, he]
      exact granted_caller (p := .idle) hcall.waits rfl (Or.inl rfl) (fun _ _ => rfl)
    by_cases hs : s₀ = s
    · subst hs
      have how : k'.owndby s₀ = some c := by
        rw [hk]
        exact takeOwnership_self _ c ht
      refine .take c rfl hc how ?_ ?_ (by rw [hL]) hg hng
        (by rw [ho]; exact hself _ hc rfl) hr <;> rw [hk, he]
      · exact Function.update_self ..
      · rfl
    · have how : k'.owndby s = k.owndby s := by
        rw [hk]
        exact takeOwnership_other _ c hs
      refine .same how ?_ ?_ (by rw [hL]) hg (by rw [ho]; exact hother _ hs) hr <;> rw [hk, he]
      · exact Function.update_of_ne (Ne.symm hs) ..
      · rfl
  | nested k₀ hP hc hown hpos hk hL ho =>
    obtain ⟨h1, h2, h3, h4, h5⟩ := Prepared.sems hP
    have hg : ∀ t, Granted k' s t ↔ Granted k s t := by
      rw [hk]
      refine granted_caller (p := .idle) hcall.waits ?_ (Or.inl rfl) h5
      unfold returned
      dsimp only
      rw [h4]
    have how : k'.owndby = k.owndby := by rw [hk]; exact h1
    have hct : k'.count = k.count := by rw [hk]; exact h2
    by_cases hs : s₀ = s
    · subst hs
      have hincr : incr (k.type s₀) = k.type s₀ + 1 := incr_of_lt (hfits hown)
      refine .nest c rfl hown (congrFun how s₀) (congrFun hct s₀) ?_ (by rw [hL]) hg hng
        (by rw [ho, hincr]; exact hself _ (by omega) rfl) hr
      rw [hk]
      exact (Function.update_self ..).trans (by rw [h3, hincr])
    · refine .same (congrFun how s) (congrFun hct s) ?_ (by rw [hL]) hg
        (by rw [ho]; exact hother _ hs) hr
      rw [hk]
      exact (Function.update_of_ne (Ne.symm hs) ..).trans (congrFun h3 s)
  | rob k₀ u l₁ l₂ q hP hc hpos hown hprio hrun hl hL _ _ _ hk ho =>
    obtain ⟨h1, h2, h3, h4, h5⟩ := Prepared.sems hP
    have hgu : Granted k s₀ u := hrob u hpos hown hprio (le_of_eq hrun)
    have hne : u ≠ c := by
      rintro rfl
      exact lt_irrefl _ hprio
    have hlen := length_inserted hl hL s
    obtain ⟨_, _, _, _, _, _, _, _, _, _, _, rfl, -, -⟩ := hk
    -- the robbed owner is granted nothing any more
    have hg : ∀ (k₁ : Kernel T S) (t : T), k₁.pc = Function.update k₀.pc c .idle →
        k₁.blockedOn = Function.update k₀.blockedOn u (.queue (.sem s₀)) →
        (Granted k₁ s t ↔ Granted k s t ∧ ¬ (s₀ = s ∧ t = u)) := by
      intro k₁ t hpc hb
      unfold Granted
      rw [hpc, hb, h4]
      by_cases htu : t = u
      · subst htu
        rw [Function.update_self, Function.update_of_ne hne, hgu.1]
        constructor
        · exact fun h => nomatch h.2
        · rintro ⟨⟨h, -⟩, hn⟩
          exact absurd ⟨Option.some.inj h, rfl⟩ hn
      · rw [Function.update_of_ne htu]
        by_cases htc : t = c
        · subst htc
          rw [Function.update_self]
          exact ⟨fun h => (nomatch h.1), fun h => absurd h.1 hng⟩
        · rw [Function.update_of_ne htc, h5 t htc]
          exact ⟨fun h => ⟨h, fun hn => htu hn.2⟩, fun h => h.1⟩
    by_cases hs : s₀ = s
    · subst hs
      rw [if_pos rfl] at hlen
      refine .rob c u rfl hne hown hgu (Function.update_self ..) ?_
        (congrFun h3 s₀) hlen ?_ (by rw [ho]; exact hself 1 (by decide) rfl)
        hr
      · exact (Function.update_self ..).trans (by rw [h2])
      · intro t
        rw [hg _ t rfl rfl]
        simp
    · rw [if_neg hs] at hlen
      refine .same ?_ ?_ (congrFun h3 s) hlen ?_ (by rw [ho]; exact hother 1 hs) hr
      · exact (Function.update_of_ne (Ne.symm hs) ..).trans (congrFun h1 s)
      · exact (Function.update_of_ne (Ne.symm hs) ..).trans (congrFun h2 s)
      · intro t
        rw [hg _ t rfl rfl]
        simp [hs]
  | expire k₁ k₂ q hc hk₁ _ hre hk hL ho =>
    obtain ⟨h1, h2, h3, h4, h5⟩ := Recomputes.sems hre
    obtain ⟨_, _, _, _, _, _, _, _, _, _, _, rfl, -, -⟩ := hk₁
    have hw : waitSucceeds k (.call c op) o s = false := by
      rw [ho]
      exact waitSucceeds_error nofun
    have hg : ∀ t, Granted k' s t ↔ Granted k s t := by
      rw [hk]
      refine granted_caller (p := .idle) hcall.waits ?_ (Or.inl rfl) ?_
      · unfold returned
        rw [h4]
      · intro t htc
        refine (congrFun h5 t).trans ?_
        exact Function.update_of_ne htc ..
    refine .same ?_ ?_ ?_ (by rw [hL]) hg hw hr <;> rw [hk]
    · exact congrFun h1 s
    · exact congrFun h2 s
    · exact congrFun h3 s
  | block k₀ k₁ L₁ l₁ l₂ q p hP hc _ hpass _ hl hL _ _ hp hk ho =>
    obtain ⟨h1, h2, h3, h4, h5⟩ := Prepared.sems hP
    obtain ⟨g1, g2, g3, g4, g5, g6⟩ := Passes.sems hpass
    have hlen := length_inserted hl hL s
    rw [g6] at hlen
    have hw : waitSucceeds k (.call c op) o s = false := by
      rw [ho]
      exact waitSucceeds_error nofun
    obtain ⟨_, _, _, _, _, _, _, _, _, _, _, rfl, -, -⟩ := hk
    have hg : ∀ k₂ : Kernel T S, k₂.pc = Function.update k₁.pc c p →
        k₂.blockedOn = Function.update k₁.blockedOn c (.queue (.sem s₀)) →
        ∀ t, Granted k₂ s t ↔ Granted k s t := by
      intro k₂ hpc hb
      refine granted_caller (p := p) hcall.waits ?_ (Or.inr ?_) ?_
      · rw [hpc, g4, h4]
      · rw [hb, Function.update_self]
        exact nofun
      · intro t htc
        rw [hb, Function.update_of_ne htc, g5, h5 t htc]
    by_cases hs : s₀ = s
    · subst hs
      rw [if_pos rfl] at hlen
      refine .block hc ((congrFun g1 s₀).trans (congrFun h1 s₀)) ?_
        ((congrFun g3 s₀).trans (congrFun h3 s₀)) hlen (hg _ rfl rfl) hw hr
      exact (Function.update_self ..).trans (by rw [g2, h2])
    · rw [if_neg hs] at hlen
      refine .same ((congrFun g1 s).trans (congrFun h1 s)) ?_
        ((congrFun g3 s).trans (congrFun h3 s)) hlen (hg _ rfl rfl) hw hr
      refine (Function.update_of_ne (Ne.symm hs) ..).trans ?_
      rw [g2, h2]

/-- **The end of a wait.** -/
theorem WaitEnds.ownerStep (W : WaitEnds k L c s₀ k' L' o)
    (hpc : waitsOn (k.pc c) = some s₀) (ht : 0 < k.type s) :
    OwnerStep k L (.cont c) o k' L' s := by
  have hr : signalExecutes (.cont c) o s = false := by
    unfold signalExecutes
    split <;> rfl
  have hidle : k'.pc c = .idle := by
    rw [WaitEnds.pc W]
    exact Function.update_self ..
  have hoth : ∀ t, t ≠ c → k'.pc t = k.pc t := by
    intro t htc
    rw [WaitEnds.pc W]
    exact Function.update_of_ne htc ..
  have hquiet : ¬ Granted k' s c :=
    not_granted_of_quiet (by rw [hidle]; rfl)
  cases W with
  | granted hb hk hL ho =>
    obtain ⟨ow, rq, he⟩ := takeOwnership_eq k c s₀
    have hbo : ∀ t, t ≠ c → k'.blockedOn t = k.blockedOn t := by
      rw [hk, he]
      exact fun _ _ => rfl
    have hw : waitSucceeds k (.cont c) o s = decide (s₀ = s) := by
      rw [ho]
      show decide (waitsOn (k.pc c) = some s) = _
      rw [hpc]
      simp
    by_cases hs : s₀ = s
    · subst hs
      have how : k'.owndby s₀ = some c := by
        rw [hk]
        exact takeOwnership_self _ c ht
      refine .collect c rfl ⟨hpc, hb⟩ how ?_ ?_ (by rw [hL])
        (granted_leaves (by rw [hidle]; rfl) hoth hbo)
        (hw.trans (decide_eq_true rfl)) hr <;> rw [hk, he] <;> rfl
    · have how : k'.owndby s = k.owndby s := by
        rw [hk]
        exact takeOwnership_other _ c hs
      refine .same how ?_ ?_ (by rw [hL]) ?_ (hw.trans (decide_eq_false hs)) hr
      · rw [hk, he]; rfl
      · rw [hk, he]; rfl
      · refine granted_others ?_ hquiet hoth hbo
        exact fun h => hs (Option.some.inj (hpc.symm.trans h.1))
  | failed k₂ l₁ l₂ q hb hl hL _ hre hk ho =>
    obtain ⟨h1, h2, h3, h4, h5⟩ := Recomputes.sems hre
    have hw : waitSucceeds k (.cont c) o s = false := by
      rcases ho with rfl | rfl <;> rfl
    have hlen := length_removed hl hL s
    have hg : ∀ t, Granted k' s t ↔ Granted k s t := by
      refine granted_others (fun h => hb h.2) hquiet hoth ?_
      intro t htc
      rw [hk]
      refine (congrFun h5 t).trans ?_
      exact Function.update_of_ne htc ..
    have how : k'.owndby = k.owndby := by rw [hk]; exact h1
    have htype : k'.type = k.type := by rw [hk]; exact h3
    have hct : k'.count = Function.update k.count s₀ (moreCount k s₀) := by
      rw [hk]
      exact h2
    by_cases hs : s₀ = s
    · subst hs
      rw [if_pos rfl] at hlen
      refine .leave (congrFun how s₀) ?_ (congrFun htype s₀) hlen hg hw hr
      rw [hct]
      exact Function.update_self ..
    · rw [if_neg hs] at hlen
      refine .same (congrFun how s) ?_ (congrFun htype s) hlen hg hw hr
      rw [hct]
      exact Function.update_of_ne (Ne.symm hs) ..

omit decT finT finS in
/-- A signal is no wait. -/
theorem waitSucceeds_signal {op : Op T S} (hop : signalsOp op = some s₀) :
    waitSucceeds k (.call c op) o s = false := by
  have hno : entersWait op = none := by
    cases op <;> first | rfl | cases hop
  unfold waitSucceeds successValue
  dsimp only
  rw [hno]
  split <;> rfl

/-- **A signal by a task.** -/
theorem Signals.ownerStep {k₁ : Kernel T S}
    (G : Signals k L (some c) s₀ k₁ L' o) (hk : k' = returned k₁ c)
    (C : Control k L) (hq : Quiet (k.pc c)) (ht : 0 < k.type s)
    (hrt : s₀ = s → k.restype s ≠ 0 ∨ k.owndby s = some c) :
    OwnerStep k L (.call c (.semSignal s₀)) o k' L' s := by
  have hw : waitSucceeds k (.call c (.semSignal s₀)) o s = false :=
    waitSucceeds_signal (show signalsOp (.semSignal s₀) = some s₀ from rfl)
  have hng : ¬ Granted k s c := not_granted_of_quiet hq.1
  have hpc : k'.pc = Function.update k.pc c .idle := by
    rw [hk]
    unfold returned
    rw [Signals.pc G]
  have hval : ∀ n, signalExecutes (.call c (.semSignal s₀)) (some (.val n)) s =
      decide (s₀ = s) := by
    intro n
    show decide (some s₀ = some s) = _
    simp
  -- nothing is granted when no `blocked_on` changes
  have hsame : (∀ t, t ≠ c → k'.blockedOn t = k.blockedOn t) →
      ∀ t, Granted k' s t ↔ Granted k s t :=
    fun hb => granted_caller (p := .idle) hq.1 hpc (Or.inl rfl) hb
  -- the first waiter of the queue is granted the semaphore
  have hjoin : ∀ (u : T), u ∈ L (.sem s₀) →
      k'.blockedOn = Function.update k.blockedOn u .null →
      u ≠ c ∧ ∀ t, Granted k' s t ↔ Granted k s t ∨ (s₀ = s ∧ t = u) := by
    intro u hu hb
    have hat := (C.stands u).home (.sem s₀) hu
    have huc : u ≠ c := fun h => C.unlinked hq.1 hq.2.1 _ (h ▸ hu)
    refine ⟨huc, fun t => ?_⟩
    unfold Granted
    rw [hpc, hb]
    by_cases htu : t = u
    · subst htu
      rw [Function.update_of_ne huc, Function.update_self, hat.1]
      constructor
      · exact fun h => Or.inr ⟨Option.some.inj h.1, rfl⟩
      · rintro (h | ⟨h, -⟩)
        · exact absurd h.2 hat.2
        · exact ⟨congrArg some h, rfl⟩
    · rw [Function.update_of_ne htu]
      by_cases htc : t = c
      · subst htc
        rw [Function.update_self]
        constructor
        · exact fun h => nomatch h.1
        · rintro (h | ⟨-, h⟩)
          · exact absurd h hng
          · exact absurd h htu
      · rw [Function.update_of_ne htc]
        exact ⟨Or.inl, fun h => h.resolve_right fun hn => htu hn.2⟩
  cases G with
  | refuse _ _ _ hk₁ hL ho =>
    rw [hk₁] at hk
    have hr : signalExecutes (.call c (.semSignal s₀)) o s = false := by
      rw [ho]
      rfl
    exact .same (by rw [hk]; rfl) (by rw [hk]; rfl) (by rw [hk]; rfl)
      (by rw [hL]) (hsame (by rw [hk]; exact fun _ _ => rfl)) hw hr
  | unnest hown h1 hk₁ hL ho =>
    rw [hk₁] at hk
    have hg := hsame (by rw [hk]; exact fun _ _ => rfl)
    by_cases hs : s₀ = s
    · subst hs
      refine .unnest c rfl ((hrt rfl).elim hown id) h1 (by rw [hk]; rfl) (by rw [hk]; rfl)
        ?_ (by rw [hL]) hg hng hw
        (by rw [ho, hval]; exact decide_eq_true rfl)
      rw [hk]
      exact Function.update_self ..
    · refine .same (by rw [hk]; rfl) (by rw [hk]; rfl) ?_ (by rw [hL]) hg hw
        (by rw [ho, hval]; exact decide_eq_false hs)
      rw [hk]
      exact Function.update_of_ne (Ne.symm hs) ..
  | give hle hl hk₁ hL ho =>
    rw [hk₁] at hk
    have hs : s₀ ≠ s := by
      rintro rfl
      omega
    refine .same (by rw [hk]; rfl) ?_ (by rw [hk]; rfl) (by rw [hL])
      (hsame (by rw [hk]; exact fun _ _ => rfl)) hw
      (by rw [ho, hval]; exact decide_eq_false hs)
    rw [hk]
    exact Function.update_of_ne (Ne.symm hs) ..
  | grant u l q hle hl hL _ hk₁ ho =>
    have hs : s₀ ≠ s := by
      rintro rfl
      omega
    obtain ⟨_, _, _, _, _, _, _, _, _, _, _, rfl, -, -⟩ := hk₁
    obtain ⟨-, hg⟩ := hjoin u (by rw [hl]; exact List.mem_cons_self) (by rw [hk]; rfl)
    have hlen := length_removed (l := []) hl hL s
    rw [if_neg hs] at hlen
    refine .same (by rw [hk]; rfl) ?_ (by rw [hk]; rfl) hlen ?_ hw
      (by rw [ho, hval]; exact decide_eq_false hs)
    · rw [hk]
      exact Function.update_of_ne (Ne.symm hs) ..
    · intro t
      rw [hg]
      exact or_iff_left fun h => hs h.1
  | release c' hc' p h1 hown hl k₂ hk₂ _ hk₁ hL ho =>
    cases hc'
    subst hk₂
    obtain ⟨_, _, _, _, _, _, _, _, _, _, _, rfl, -, -⟩ := hk₁
    have hg := hsame (by rw [hk]; exact fun _ _ => rfl)
    by_cases hs : s₀ = s
    · subst hs
      refine .release c rfl ((hrt rfl).elim hown id) h1 (by rw [hl]; rfl) ?_ ?_
        (by rw [hk]; rfl) (by rw [hL, hl]; rfl) hg hng hw
        (by rw [ho, hval]; exact decide_eq_true rfl) <;> rw [hk] <;>
        exact Function.update_self ..
    · refine .same ?_ ?_ (by rw [hk]; rfl) (by rw [hL]) hg hw
        (by rw [ho, hval]; exact decide_eq_false hs) <;> rw [hk] <;>
        exact Function.update_of_ne (Ne.symm hs) ..
  | handOver c' hc' p u l q h1 hown hl hL _ rn _ k₂ hk₂ _ hk₁ ho =>
    cases hc'
    subst hk₂
    obtain ⟨_, _, _, _, _, _, _, _, _, _, _, rfl, -, -⟩ := hk₁
    obtain ⟨hne, hg⟩ := hjoin u (by rw [hl]; exact List.mem_cons_self) (by rw [hk]; rfl)
    have hlen := length_removed (l := []) hl hL s
    by_cases hs : s₀ = s
    · subst hs
      rw [if_pos rfl] at hlen
      refine .handOver c u rfl ((hrt rfl).elim hown id) h1 ?_ ?_ (by rw [hk]; rfl) hlen
        (fun t => by rw [hg]; simp) hng hw
        (by rw [ho, hval]; exact decide_eq_true rfl) <;> rw [hk] <;>
        exact Function.update_self ..
    · rw [if_neg hs] at hlen
      refine .same ?_ ?_ (by rw [hk]; rfl) hlen
        (fun t => by rw [hg]; exact or_iff_left fun h => hs h.1) hw
        (by rw [ho, hval]; exact decide_eq_false hs) <;> rw [hk] <;>
        exact Function.update_of_ne (Ne.symm hs) ..

/-- **A signal that is sent from Linux**, which owns no resource. -/
theorem Signals.linuxStep (G : Signals k L none s₀ k' L' o)
    (C : Control k L) (ht : 0 < k.type s) (hrt : k.restype s ≠ 0)
    (hfree : k.owndby s = none → k.type s = 1) :
    OwnerStep k L (.linux (.semSignal s₀)) o k' L' s := by
  have hw : waitSucceeds k (.linux (.semSignal s₀)) o s = false := by
    unfold waitSucceeds
    split <;> rfl
  have hval : ∀ n, s₀ ≠ s →
      signalExecutes (.linux (.semSignal s₀) : Action T S) (some (.val n)) s =
        false := by
    intro n hne
    show decide (some s₀ = some s) = false
    exact decide_eq_false fun h => hne (Option.some.inj h)
  cases G with
  | refuse _ _ _ hk hL ho =>
    rw [hk, hL, ho]
    exact .same rfl rfl rfl rfl (fun _ => Iff.rfl) rfl rfl
  | unnest hown h1 hk hL ho =>
    have hs : s₀ ≠ s := by
      rintro rfl
      have := hfree (hown hrt)
      omega
    rw [hL]
    refine .same (by rw [hk]) (by rw [hk]) ?_ rfl
      (fun _ => by rw [hk]; exact Iff.rfl) hw (by rw [ho]; exact hval 0 hs)
    rw [hk]
    exact Function.update_of_ne (Ne.symm hs) ..
  | give hle _ hk hL ho =>
    have hs : s₀ ≠ s := by
      rintro rfl
      omega
    rw [hL]
    refine .same (by rw [hk]) ?_ (by rw [hk]) rfl
      (fun _ => by rw [hk]; exact Iff.rfl) hw (by rw [ho]; exact hval 0 hs)
    rw [hk]
    exact Function.update_of_ne (Ne.symm hs) ..
  | grant u l q hle hl hL _ hk ho =>
    have hs : s₀ ≠ s := by
      rintro rfl
      omega
    have hat := (C.stands u).home (.sem s₀) (by rw [hl]; exact List.mem_cons_self)
    have hlen := length_removed (l := []) hl hL s
    rw [if_neg hs] at hlen
    obtain ⟨_, _, _, _, _, _, _, _, _, _, _, rfl, -, -⟩ := hk
    refine .same rfl (Function.update_of_ne (Ne.symm hs) ..) rfl hlen ?_ hw
      (by rw [ho]; exact hval 0 hs)
    intro t
    unfold Granted
    by_cases htu : t = u
    · subst htu
      have hne : waitsOn (k.pc t) ≠ some s := by
        rw [hat.1]
        exact fun h => hs (Option.some.inj h)
      exact ⟨fun h => absurd h.1 hne, fun h => absurd h.1 hne⟩
    · show _ ∧ Function.update k.blockedOn u .null t = .null ↔ _
      rw [Function.update_of_ne htu]
      exact Iff.rfl
  | release _ hc _ _ _ _ _ _ _ _ _ _ => exact nomatch hc
  | handOver _ hc _ _ _ _ _ _ _ _ _ _ _ _ _ _ _ _ => exact nomatch hc

/-- **Every other action.** -/
theorem Delays.ownerStep (h : Delays k a k') (hd : delays k a = true)
    (hkeep : ActionKeepsGrants k a) : OwnerStep k L a o k' L s := by
  obtain ⟨hsig, -, hw⟩ := delays_silent (o := o) (s := s) hd
  obtain ⟨hc, ht, -, how⟩ := Delays.sems h
  refine .same (congrFun how s) (congrFun hc s) (congrFun ht s) rfl
    (Delays.granted h hkeep) hw ?_
  unfold signalExecutes
  split
  · rw [hsig]
    rfl
  · rfl

/-- **EVERY ACTION ABOUT SEMAPHORES.** -/
theorem SemStep.ownerStep (h : SemStep k L a k' L' o) (C : Control k L)
    (hrob : ActionRobsGranted k a) (hfits : ActionNestsInRange k a)
    (ht : 0 < k.type s) (hrt : k.restype s ≠ 0)
    (hfree : k.owndby s = none → k.type s = 1) :
    OwnerStep k L a o k' L' s := by
  cases h with
  | waits c op s₀ tries ha hop hc W =>
    subst ha
    unfold ActionRobsGranted at hrob
    unfold ActionNestsInRange at hfits
    dsimp only at hrob hfits
    rw [hop] at hrob hfits
    exact Waits.ownerStep W hop (C.caller hc) hrob hfits ht
  | ends c s₀ ha hpc _ W =>
    subst ha
    exact WaitEnds.ownerStep W hpc ht
  | signals c s₀ k₁ ha hc G hk =>
    subst ha
    exact Signals.ownerStep G hk C (quiet_of_mayCall hc) ht fun _ => Or.inl hrt
  | linux s₀ ha G =>
    subst ha
    exact Signals.linuxStep G C ht hrt hfree

omit decT finT finS in
/-- The depth of a resource stays positive. -/
theorem OwnerStep.type_pos (h : OwnerStep k L a o k' L' s)
    (ht : 0 < k.type s) : 0 < k'.type s := by
  cases h <;> omega

end Steps

/-! ## The invariant -/

/-- What holds between the steps. -/
structure HolderInv (x : Holding T S) (L : Head T S → List T) : Prop where
  control : Control x.kernel L
  deep : Deep x.kernel
  places : ∀ t, SemPc (x.kernel.pc t)
  resources : ∀ s, x.kernel.restype s ≠ 0 → 0 < x.kernel.type s ∧ Owned x L s

omit finT finS in
theorem holderInv_unheld (cfg : Config T S) :
    HolderInv (unheld cfg) (fun _ => []) where
  control := control_boot cfg
  deep := by
    intro t
    show 0 ≤ (boot cfg).suspdepth t
    unfold boot
    dsimp only
    split <;> decide
  places := fun _ => Or.inl rfl
  resources := by
    intro s hs
    have hs' : (boot cfg).restype s ≠ 0 := hs
    have hboot : (boot cfg).type s = 1 ∧ (boot cfg).count s = 1 := by
      unfold boot at hs' ⊢
      dsimp only at hs' ⊢
      cases hk : (cfg.sems s).kind with
      | binSem => rw [hk] at hs'; exact absurd rfl hs'
      | cntSem => rw [hk] at hs'; exact absurd rfl hs'
      | resSem r => exact ⟨rfl, rfl⟩
    refine ⟨hboot.1 ▸ Int.one_pos, ⟨?_, nofun, ?_, ?_, nofun⟩⟩
    · exact fun _ => ⟨hboot.2, rfl, hboot.1⟩
    · exact fun t h => absurd h (lt_irrefl 0)
    · exact fun t h => nomatch h.1

/-- An action of these runs is about a semaphore or about none. -/
theorem holderAction_cases {x : Holding T S} {L : Head T S → List T}
    (I : HolderInv x L) {a : Action T S} {r : Kernel T S × Option (Ret T)}
    (ha : HolderAction x a) (he : exec x.kernel a = some r) :
    delays x.kernel a = true ∨ aboutSem x.kernel a = true := by
  cases a with
  | call c op =>
    have ha' : HolderOp x.kernel op := ha
    cases op <;> first
      | exact Or.inl rfl | exact Or.inr rfl | exact ha'.elim
  | linux op =>
    have ha' : HolderOp x.kernel op := ha
    cases op <;> first
      | exact Or.inl rfl | exact Or.inr rfl | exact ha'.elim
      | exact nomatch he
  | cont c => exact cont_cases (I.places c) he
  | _ => exact Or.inl rfl

omit decT decS finT finS in
/-- Only a task that has not been started is resumed. -/
theorem HolderOp.deep {k : Kernel T S} {op : Op T S} (h : HolderOp k op) :
    DeepOp k op := by
  cases op with
  | resume t => exact ⟨fun _ ht => by cases ht; exact h.1, nofun⟩
  | _ => first | exact h.elim | exact ⟨nofun, nofun⟩

theorem holderAction_deep {x : Holding T S} {a : Action T S}
    (ha : HolderAction x a) : StaysDeep x.kernel a := by
  cases a with
  | call c op => exact HolderOp.deep ha
  | linux op => exact HolderOp.deep ha
  | _ => trivial

/-- **One step keeps the invariant.** -/
theorem HolderInv.step {x x' : Holding T S} {L : Head T S → List T}
    (I : HolderInv x L) {a : Action T S} {o : Option (Ret T)}
    (ha : HolderAction x a) (hrob : ActionRobsGranted x.kernel a)
    (hfits : ActionNestsInRange x.kernel a)
    (hkeep : ActionKeepsGrants x.kernel a)
    (hx : holding x a = some (x', o)) : ∃ L', HolderInv x' L' := by
  have he := holding_kernel hx
  rcases holderAction_cases I ha he with hd | hd
  · have D := exec_delays hd he
    obtain ⟨-, -, hrt, -⟩ := Delays.sems D
    refine ⟨L, ⟨Delays.control D I.control hkeep, Delays.deep D (holderAction_deep ha) I.deep,
      Delays.semPc D I.places, fun s hs => ?_⟩⟩
    rw [hrt] at hs
    obtain ⟨ht, O⟩ := I.resources s hs
    have hstep := Delays.ownerStep (L := L) (o := o) (s := s) D hd hkeep
    exact ⟨hstep.type_pos ht, hstep.kept (holding_deepens hx s) O⟩
  · have hsd : SignalsUndeleted x.kernel a := by
      cases a with
      | call c op =>
        cases op with
        | semSignal s => exact fun _ => I.deep c
        | _ => trivial
      | _ => trivial
    obtain ⟨L', D⟩ := exec_sem hd he I.control hrob hsd
    refine ⟨L', ⟨SemStep.control D I.control hrob, SemStep.deep D I.deep,
      SemStep.semPc D I.places, fun s hs => ?_⟩⟩
    rw [SemStep.restype D] at hs
    obtain ⟨ht, O⟩ := I.resources s hs
    have hstep := SemStep.ownerStep D I.control hrob hfits ht hs fun h => (O.free h).2.2
    exact ⟨hstep.type_pos ht, hstep.kept (holding_deepens hx s) O⟩

/-! ## Every run -/

/-- The steps that leave alone what is granted, and keep the depth of the nested
    waits an `int`. -/
def Excludes (x : Holding T S) (a : Action T S) : Prop :=
  HolderAction x a ∧ ActionRobsGranted x.kernel a ∧
    ActionNestsInRange x.kernel a ∧ ActionKeepsGrants x.kernel a

/-- **RESOURCES ARE HELD BY ONE TASK AT A TIME** in every run in which a wait
    robs an owner only of what it has been granted in a wait it has not come
    back from, no nested wait overflows the depth, a resume makes no waiter ready
    that is still linked, and an unblock none that has been granted what it waits
    for. -/
theorem mutual_exclusion (cfg : Config T S) (x : Holding T S) (h : Reach holding Excludes
      (unheld cfg) x) : MutualExclusion x := by
  have hinv : ∃ L, HolderInv x L := by
    refine h.invariant (I := fun x => ∃ L, HolderInv x L) ⟨_, holderInv_unheld cfg⟩ ?_
    rintro x a x' o ⟨L, I⟩ ⟨ha, hrob, hfits, hkeep⟩ hx
    exact I.step ha hrob hfits hkeep hx
  obtain ⟨L, I⟩ := hinv
  -- who holds is the owner, and there is one
  intro s _ hs t u ht hu
  obtain ⟨-, O⟩ := I.resources s hs
  have hot := (O.holders t ht).1
  rw [(O.holders u hu).1] at hot
  exact (Option.some.inj hot).symm

instance (k : Kernel T S) (op : Op T S) : Decidable (HolderOp k op) := by
  induction op using Op.casesOn <;> unfold HolderOp <;> infer_instance

instance (x : Holding T S) (a : Action T S) : Decidable (HolderAction x a) := by
  induction a using RtaiSteps.Action.casesOn <;> unfold HolderAction <;>
    infer_instance

instance (k : Kernel T S) (c : T) (s : S) : Decidable (RobsGranted k c s) :=
  inferInstanceAs (Decidable (∀ _, _))

instance (k : Kernel T S) (a : Action T S) : Decidable (ActionRobsGranted k a) := by
  induction a using RtaiSteps.Action.casesOn with
  | call c op =>
    unfold ActionRobsGranted
    dsimp only
    cases entersWait op <;> infer_instance
  | _ => exact isTrue trivial

instance (k : Kernel T S) (a : Action T S) : Decidable (ActionNestsInRange k a) := by
  induction a using RtaiSteps.Action.casesOn with
  | call c op =>
    unfold ActionNestsInRange
    dsimp only
    cases entersWait op <;> infer_instance
  | _ => exact isTrue trivial

instance (x : Holding T S) (a : Action T S) : Decidable (Excludes x a) :=
  inferInstanceAs (Decidable (_ ∧ _))

/-- A soft task, a hard task, and a resource. -/
def softAndHard : Config (Fin 2) (Fin 1) where
  hard := fun t => t = 1
  priority := fun _ => 0
  receiver := fun _ => none
  schedlat := fun _ => 0
  linuxSchedlat := 0
  sems := fun _ => { kind := .resSem 1, value := 1, fifo := false }
  time := 0

/-- Two hard tasks, the second of higher priority, and a resource. -/
def hardPair : Config (Fin 2) (Fin 1) where
  hard := fun _ => true
  priority := fun t => if t = 1 then 0 else 1
  receiver := fun _ => none
  schedlat := fun _ => 0
  linuxSchedlat := 0
  sems := fun _ => { kind := .resSem 1, value := 1, fifo := false }
  time := 0

/-- The first task takes the resource twice; the second preempts it, waits and is
    handed the resource at the outermost signal. -/
theorem mutual_exclusion_handed :
    ∃ x : Holding (Fin 2) (Fin 1), x.depth 1 0 = 1 ∧ x.depth 0 0 = 0 ∧
      MutualExclusion x := by
  obtain ⟨x, hplay, h1, h0⟩ : ∃ x, play holding Excludes (unheld hardPair)
      [.linux (.resume 0), .dispatch 0, .call 0 (.semWait 0),
        .call 0 (.semWait 0), .linux (.resume 1), .dispatch 1,
        .call 1 (.semWait 0), .call 0 (.semSignal 0), .call 0 (.semSignal 0),
        .dispatch 1, .cont 1] = some x ∧
      x.depth 1 0 = 1 ∧ x.depth 0 0 = 0 := ⟨_, rfl, rfl, rfl⟩
  exact ⟨x, h1, h0, mutual_exclusion hardPair x (reach_of_play hplay)⟩

/-- Services about semaphores and about no message and no priority, that leave
    alone what is granted. -/
def Tends (k : Kernel T S) (a : Action T S) : Prop :=
  (delays k a = true ∨ aboutSem k a = true) ∧ ActionRobsGranted k a ∧
    ActionKeepsGrants k a ∧ SignalsUndeleted k a

instance (k : Kernel T S) (a : Action T S) : Decidable (SignalsUndeleted k a) := by
  unfold SignalsUndeleted
  split <;> infer_instance

instance (k : Kernel T S) (a : Action T S) : Decidable (Tends k a) :=
  inferInstanceAs (Decidable (_ ∧ _))

/-- The soft task takes the resource and goes back to Linux user mode; then
    the hard task waits for it. -/
def robbingRun : List (RtaiSteps.Action (Fin 2) (Fin 1)) :=
  [.softEnter 0, .call 0 (.semWait 0), .softTail 0,
    .linux (.resume 1), .dispatch 1, .call 1 (.semWait 0)]

/-- **A SOFT TASK IS ROBBED OF A RESOURCE IT HOLDS.** -/
theorem soft_holder_robbed : ∃ x : Holding (Fin 2) (Fin 1),
      Reach holding HolderAction (unheld softAndHard) x ∧
      ¬ MutualExclusion x := by
  obtain ⟨x, hplay, ht, hrt, h0, h1⟩ :
      ∃ x, play holding HolderAction (unheld softAndHard) robbingRun = some x ∧
        x.kernel.type 0 = 1 ∧ x.kernel.restype 0 = 1 ∧ x.depth 0 0 = 1 ∧
        x.depth 1 0 = 1 := ⟨_, rfl, rfl, rfl, rfl, rfl⟩
  refine ⟨x, reach_of_play hplay, fun h => ?_⟩
  have := h 0 (by rw [ht]; decide) (by rw [hrt]; decide) 0 1
    (by rw [h0]; decide) (by rw [h1]; decide)
  exact absurd this (by decide)

end RtaiHolders
