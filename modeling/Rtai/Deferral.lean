import Rtai.Owners

/-! # Requests on the owners of resources

    A task that owns a resource semaphore is not suspended: the request is
    registered in `suspdepth` and is to take effect when the task gives up the
    last resource.  A deletion by another task is registered in the same
    counter, as `RT_RESEM_SUSPDEL`.  `rt_sem_signal` looks at no ring, and
    asks the task that is granted the semaphore where it means the one that
    gives it up. -/

namespace RtaiDeferral

open RtaiRings RtaiRuns RtaiKernel RtaiPrioInher RtaiTaskApi RtaiSched
  RtaiSem RtaiSteps RtaiSemDelete RtaiOwners

variable {T S : Type} [decT : DecidableEq T] [decS : DecidableEq S] [finT : Fintype T]
  [finS : Fintype S]

/-! ## The system -/

/-- One atomic section, with the deletions of semaphores and of tasks by other
    tasks.  `none` stands for the Linux task. -/
inductive Move (T S : Type) where
  | act (a : Action T S)
  | deleteSem (c : Option T) (s : S)
  | deleteTask (c t : T)
  deriving DecidableEq

/-- A step, or the deletion of a semaphore. -/
def perform (k : Kernel T S) : Move T S → Option (Outcome T S)
  | .act a => exec k a
  | .deleteSem none s => rtSemDelete k none s
  | .deleteSem (some c) s =>
    if mayCall k c then (rtSemDelete k (some c) s).map (finish c) else none
  | .deleteTask c t =>
    if mayCall k c then
      (rtTaskDelete k (some c) t).map fun k' => finish c (k', some (.val 0))
    else none

/-- The kernel, with the requests on every task and the resources it has taken
    and not given up. -/
structure Requests (T S : Type) where
  kernel : Kernel T S
  /-- The suspends less the resumes. -/
  balance : T → Int
  /-- A deletion has been asked for while the task owned a resource. -/
  doomed : T → Bool
  holder : S → Option T

/-- The resource that a move makes somebody take. -/
def takesOf (k : Kernel T S) : Move T S → Option (T × S)
  | .act (.call c (.semWait s)) => if TakesNow k c s then some (c, s) else none
  | .act (.cont c) =>
    match k.pc c with
    | .semWait s =>
      if k.blockedOn c = .null ∧ 0 < k.type s then some (c, s) else none
    | _ => none
  | _ => none

/-- The resource that a move makes its owner give up. -/
def givesOf (k : Kernel T S) : Move T S → Option (T × S)
  | .act (.call c (.semSignal s)) =>
    if ReleasesNow k c s then (k.owndby s).map (·, s) else none
  | .deleteSem _ s =>
    if k.semMagic s = true ∧ 0 < k.type s then (k.owndby s).map (·, s)
    else none
  | _ => none

/-- The task that a move suspends or resumes once. -/
def asksOf (k : Kernel T S) : Move T S → Option (T × Int)
  | .act (.call _ op) => asks op
  | .act (.linux op) => asks op
  | _ => none
where
  asks : Op T S → Option (T × Int)
    | .suspend t => if k.magic t = true then some (t, 1) else none
    | .resume t => if k.magic t = true then some (t, -1) else none
    | _ => none

/-- The owner whose deletion a move asks for. -/
def doomsOf (k : Kernel T S) : Move T S → Option T
  | .deleteTask _ t => if k.magic t = true ∧ Owns k t then some t else none
  | _ => none

/-- One move, with what it asks for. -/
def request (x : Requests T S) (m : Move T S) : Option (Requests T S × Option (Ret T)) :=
  match perform x.kernel m with
  | none => none
  | some (k, w) => some
      ({ kernel := k
         balance :=
          match asksOf x.kernel m with
          | some (t, d) => Function.update x.balance t (x.balance t + d)
          | none => x.balance
         doomed :=
          match doomsOf x.kernel m with
          | some t => Function.update x.doomed t true
          | none => x.doomed
         holder :=
          match takesOf x.kernel m, givesOf x.kernel m with
          | some (c, s), _ => Function.update x.holder s (some c)
          | none, some (_, s) => Function.update x.holder s none
          | none, none => x.holder }, w)

/-- A system in which nothing has been asked for. -/
def unasked (cfg : Config T S) : Requests T S where
  kernel := boot cfg
  balance := (boot cfg).suspdepth
  doomed := fun _ => false
  holder := fun _ => none

/-- The services of an owner. -/
def OwnerOp : Op T S → Prop
  | .suspend _ => True
  | .resume _ => True
  | .semWait _ => True
  | .semSignal _ => True
  | _ => False

/-- Where an owner may stand. -/
def OwnerPc : Pc T S → Prop
  | .suspend => True
  | .semWait _ => True
  | _ => False

/-- `rt_sem_wait`, `rt_sem_signal`, `rt_sem_delete`, `rt_task_suspend`,
    `rt_task_resume`, `rt_task_delete` of another task, and the scheduler. -/
def OwnerMove (k : Kernel T S) : Move T S → Prop
  | .act (.call _ op) => OwnerOp op
  | .act (.linux op) => OwnerOp op
  | .act (.cont c) => OwnerPc (k.pc c)
  | .act (.wake _) => False
  | .act _ => True
  | .deleteSem _ _ => True
  | .deleteTask c t => c ≠ t

/-- **REQUESTS ON OWNERS ARE HONOURED** by a move that makes `g.1` give up
    `g.2`: an owner is neither suspended nor deleted, and when it has given up
    its last resource it is suspended exactly when it has been suspended more
    often than resumed, and deleted exactly when that was asked for. -/
structure Honoured (x : Requests T S) (g : Option (T × S))
    (x' : Requests T S) : Prop where
  spared : ∀ t, x.kernel.magic t = true → Owns x.kernel t →
    (∀ s, g = some (t, s) → Owns x'.kernel t) →
    x'.kernel.magic t = true ∧ (.suspended ∈ x'.kernel.state t → .suspended ∈ x.kernel.state t)
  settled : ∀ t s, g = some (t, s) → x.kernel.magic t = true → ¬ Owns x'.kernel t →
    (.suspended ∈ x'.kernel.state t ↔ 0 < x.balance t ∧ x.doomed t = false) ∧
    (x'.kernel.magic t = false ↔ x.doomed t = true)

omit decT decS finT finS in
/-- A turn that gives no resource up has the owners to spare. -/
theorem Honoured.spares {x x' : Requests T S}
    (h : ∀ t, x.kernel.magic t = true → Owns x.kernel t → x'.kernel.magic t = true ∧
        (.suspended ∈ x'.kernel.state t → .suspended ∈ x.kernel.state t)) :
    Honoured x none x' where
  spared := fun t hl ho _ => h t hl ho
  settled := by
    intro t s hg
    cases hg

/-! ### When they are -/

/-- A signal that gives up a resource comes from the task that has taken it,
    grants it to another task, suspends only at the last resource, and a
    negative depth goes with a waiter that has `RT_RESEM_SUSPDEL` exactly when
    the caller is to be deleted now. -/
def SignalProper (x : Requests T S) (c : T) (s : S) : Prop :=
  x.kernel.owndby s = some c ∧ x.holder s = some c ∧
  firstTask x.kernel s ≠ some c ∧
  (0 < x.kernel.suspdepth c → Last x.kernel c s) ∧
  (x.kernel.suspdepth c < 0 → ∃ u, firstTask x.kernel s = some u ∧
    (x.kernel.suspdepth u = RT_RESEM_SUSPDEL ↔ Last x.kernel c s ∧ x.doomed c = true))

/-- A deleted resource had been taken by its owner, which is suspended only at
    its last resource, and spared only if another task deletes it. -/
def DeleteProper (x : Requests T S) (c : Option T) (s : S) (o : T) : Prop :=
  x.holder s = some o ∧
  (0 < x.kernel.suspdepth o → Last x.kernel o s) ∧
  (x.kernel.suspdepth o = RT_RESEM_SUSPDEL → Last x.kernel o s ∨
    (c ≠ some o ∧ c ≠ none) ∧ ∃ s', s' ≠ s ∧ x.holder s' = some o)

/-- What is signalled or deleted is the owner's. -/
def GivesProper (x : Requests T S) : Move T S → Prop
  | .act (.call c (.semSignal s)) =>
    ReleasesNow x.kernel c s → SignalProper x c s
  | .deleteSem c s => x.kernel.semMagic s = true → 0 < x.kernel.type s →
      ∀ o, x.kernel.owndby s = some o → DeleteProper x c s o
  | .deleteTask _ t => x.kernel.magic t = true → Owns x.kernel t →
      taskOwnsSems x.kernel t = true
  | _ => True

/-- A request finds no registered deletion, makes none, keeps the depth an
    `int`, and a suspend does not hit a task that has been granted a resource and
    has not run. -/
def AskProper (x : Requests T S) (t : T) (d : Int) : Prop :=
  x.kernel.suspdepth t ≠ RT_RESEM_SUSPDEL ∧
  x.kernel.suspdepth t + d ≠ RT_RESEM_SUSPDEL ∧
  x.kernel.suspdepth t + d < 2 ^ 31 ∧
  (0 < d → Owns x.kernel t → taskOwnsSems x.kernel t = true ∨ x.kernel.suspdepth t ≠ 0)

/-- A wait of the owner finds `type` below the end of an `int`. -/
def NestsProper (k : Kernel T S) : Move T S → Prop
  | .act (.call c (.semWait s)) => k.owndby s = some c → k.type s < 2 ^ 31 - 1
  | _ => True

/-- **The condition of a move.** -/
structure Proper (x : Requests T S) (m : Move T S) : Prop where
  /-- Nobody holds a resource that is taken, and it exists. -/
  takes : ∀ p ∈ takesOf x.kernel m, x.kernel.semMagic p.2 = true ∧ x.holder p.2 = none
  gives : GivesProper x m
  asks : ∀ p ∈ asksOf x.kernel m, AskProper x p.1 p.2
  nests : NestsProper x.kernel m

/-! ## Every move is of one kind -/

/-- The rings are the holders', the holders are owners, and the depth is the
    balance unless the task is to be deleted. -/
structure Kept (x : Requests T S) (Q : T → List S) : Prop where
  rings : Rings x.kernel.resq Q
  held : ∀ s t, s ∈ Q t ↔ x.holder s = some t
  owner : ∀ s t, x.holder s = some t → OwnsOne x.kernel t s
  depth : ∀ t, x.kernel.suspdepth t =
    if x.doomed t = true then RT_RESEM_SUSPDEL else x.balance t
  above : ∀ t, RT_RESEM_SUSPDEL < x.balance t
  suspended : ∀ t, .suspended ∈ x.kernel.state t → 0 < x.kernel.suspdepth t ∨ x.doomed t = true
  mortal : Mortal x.kernel

/-- What a move does. -/
inductive Turn (x x' : Requests T S) : Option (T × S) → Prop
  | plain (hk : Plain x.kernel x'.kernel) (hb : x'.balance = x.balance)
      (hd : x'.doomed = x.doomed) (hh : x'.holder = x.holder) : Turn x x' none
  | asks (t : T) (d : Int) (st : TaskState)
      (hk : Plain { x.kernel with
        suspdepth := Function.update x.kernel.suspdepth t (x.kernel.suspdepth t + d)
        state := Function.update x.kernel.state t st } x'.kernel)
      (hspare : Owns x.kernel t → .suspended ∈ st → .suspended ∈ x.kernel.state t)
      (hdeep : (.suspended ∈ x.kernel.state t → 0 < x.kernel.suspdepth t) →
        .suspended ∈ st → 0 < x.kernel.suspdepth t + d)
      (hnot : x.doomed t = false) (habove : RT_RESEM_SUSPDEL < x.balance t + d)
      (hb : x'.balance = Function.update x.balance t (x.balance t + d))
      (hd : x'.doomed = x.doomed) (hh : x'.holder = x.holder) : Turn x x' none
  | takes (c : T) (s : S) (hm : x.kernel.semMagic s = true)
      (ht : 0 < x.kernel.type s) (hn : x.holder s = none)
      (hk : Plain (taken x.kernel c s) x'.kernel)
      (hb : x'.balance = x.balance) (hd : x'.doomed = x.doomed)
      (hh : x'.holder = Function.update x.holder s (some c)) : Turn x x' none
  | dooms (t : T) (hk : Plain { x.kernel with
        suspdepth := Function.update x.kernel.suspdepth t RT_RESEM_SUSPDEL }
        x'.kernel)
      (hb : x'.balance = x.balance)
      (hd : x'.doomed = Function.update x.doomed t true)
      (hh : x'.holder = x.holder) : Turn x x' none
  | goes (s : S) (hfree : ∀ t, ¬ OwnsOne x.kernel t s)
      (hk : Plain (gone x.kernel s) x'.kernel) (hb : x'.balance = x.balance)
      (hd : x'.doomed = x.doomed) (hh : x'.holder = x.holder) : Turn x x' none
  | retires (t : T) (hnot : ¬ Owns x.kernel t) (hk : Plain (deleted x.kernel t) x'.kernel)
      (hb : x'.balance = x.balance) (hd : x'.doomed = x.doomed)
      (hh : x'.holder = x.holder) : Turn x x' none
  | gives (o : T) (s : S) (sm : S → Bool) (ow : S → Option T) (told : Prop)
      (hheld : x.holder s = some o)
      (hother : ∀ s', s' ≠ s → sm s' = x.kernel.semMagic s' ∧ ow s' = x.kernel.owndby s')
      (hlost : sm s = true → ow s ≠ some o)
      (hG : GivesUp told { x.kernel with
        semMagic := sm
        owndby := ow
        resq := x.kernel.resq.unlink (.elem s) } o x'.kernel)
      (hlast : 0 < x.kernel.suspdepth o → Last x.kernel o s)
      (htold : x.kernel.suspdepth o < 0 → (told ↔ Last x.kernel o s ∧ x.doomed o = true))
      (hb : x'.balance = x.balance) (hd : x'.doomed = x.doomed)
      (hh : x'.holder = Function.update x.holder s none) :
      Turn x x' (some (o, s))

section Turns

variable {x x' : Requests T S} {g : Option (T × S)} {Q : T → List S}
  {k k' : Kernel T S} {t : T} {s : S}

omit decT decS finT finS in
/-- Nobody whose depth is not the registered deletion is to be deleted. -/
theorem Kept.doomed_iff (h : Kept x Q) (t : T) :
    x.doomed t = true ↔ x.kernel.suspdepth t = RT_RESEM_SUSPDEL := by
  have hd := h.depth t
  have ha := h.above t
  constructor
  · intro ht
    rw [hd, if_pos ht]
  · intro hs
    by_contra hn
    rw [if_neg hn] at hd
    omega

theorem Kept.doomed_neg (h : Kept x Q) (hd : x.doomed t = true) :
    x.kernel.suspdepth t < 0 := by
  rw [(h.doomed_iff t).mp hd]
  decide

omit finT finS in
/-- The code's test of an owner is right about what has been taken. -/
theorem Kept.taskOwnsSems_iff (h : Kept x Q) (t : T) :
    taskOwnsSems x.kernel t = true ↔ ∃ s, x.holder s = some t := by
  have hiff : taskOwnsSems x.kernel t = true ↔ Q t ≠ [] := by
    simp only [taskOwnsSems, h.rings.next_head]
    cases Q t with
    | nil => simp
    | cons s l => simp
  rw [hiff, List.ne_nil_iff_exists_cons]
  constructor
  · rintro ⟨s, l, hl⟩
    exact ⟨s, (h.held s t).mp (hl ▸ List.mem_cons_self ..)⟩
  · rintro ⟨s, hs⟩
    have hmem := (h.held s t).mpr hs
    cases hq : Q t with
    | nil => rw [hq] at hmem; exact absurd hmem List.not_mem_nil
    | cons s' l => exact ⟨s', l, rfl⟩

omit decT decS finT finS in
/-- Nothing but the sections before differ. -/
theorem Kept.plain (h : Kept x Q) (hk : Plain x.kernel k') :
    Kept { x with kernel := k' } Q where
  rings := hk.resq ▸ h.rings
  held := h.held
  owner := fun s t hs => (hk.ownsOne t s).mpr (h.owner s t hs)
  depth := fun t => (congrFun hk.suspdepth t).trans (h.depth t)
  above := h.above
  suspended := by
    intro t ht
    rw [show k'.suspdepth = _ from hk.suspdepth]
    exact h.suspended t ((hk.suspended t).mp ht)
  mortal := hk.mortal h.mortal

omit decS finT finS in
theorem Kept.asks {d : Int} {st : TaskState} (h : Kept x Q)
    (hdeep : (.suspended ∈ x.kernel.state t → 0 < x.kernel.suspdepth t) →
      .suspended ∈ st → 0 < x.kernel.suspdepth t + d)
    (hnot : x.doomed t = false) (habove : RT_RESEM_SUSPDEL < x.balance t + d) :
    Kept { x with
      kernel := { x.kernel with
        suspdepth := Function.update x.kernel.suspdepth t (x.kernel.suspdepth t + d)
        state := Function.update x.kernel.state t st }
      balance := Function.update x.balance t (x.balance t + d) } Q where
  rings := h.rings
  held := h.held
  owner := h.owner
  depth := by
    intro u
    by_cases hu : u = t
    · subst hu
      have := h.depth u
      simpa [hnot] using this
    · simpa [hu] using h.depth u
  above := by
    intro u
    by_cases hu : u = t
    · subst hu
      simpa using habove
    · simpa [hu] using h.above u
  suspended := by
    intro u hs
    by_cases hu : u = t
    · subst hu
      have hs' : .suspended ∈ st := by simpa using hs
      have hin : .suspended ∈ x.kernel.state u → 0 < x.kernel.suspdepth u := by
        intro hsu
        exact (h.suspended u hsu).resolve_right (by simp [hnot])
      simpa using Or.inl (hdeep hin hs')
    · have hs' : .suspended ∈ x.kernel.state u := by simpa [hu] using hs
      simpa [hu] using h.suspended u hs'
  mortal := h.mortal

omit finT finS in
theorem Kept.takes {c : T} (h : Kept x Q) (hm : x.kernel.semMagic s = true)
    (ht : 0 < x.kernel.type s) (hn : x.holder s = none) :
    Kept { x with
      kernel := taken x.kernel c s
      holder := Function.update x.holder s (some c) }
      (Function.update Q c (Q c ++ [s])) where
  rings := by
    have hfree : ∀ u, s ∉ Q u := by
      intro u hu
      have := (h.held s u).mp hu
      rw [hn] at this
      exact nomatch this
    exact h.rings.insert (List.append_nil (Q c)).symm hfree
  held := by
    intro s' u
    have hheld := h.held s' u
    show s' ∈ Function.update Q c (Q c ++ [s]) u ↔
      Function.update x.holder s (some c) s' = some u
    by_cases hs : s' = s
    · subst hs
      rw [Function.update_self]
      by_cases hu : u = c
      · subst hu
        simp
      · rw [Function.update_of_ne hu, hheld, hn]
        exact ⟨nofun, fun hc => absurd (Option.some.inj hc).symm hu⟩
    · rw [Function.update_of_ne hs]
      by_cases hu : u = c
      · subst hu
        simpa [hs] using hheld
      · rw [Function.update_of_ne hu]
        exact hheld
  owner := by
    intro s' u hs'
    by_cases hs : s' = s
    · subst hs
      simp only [Function.update_self] at hs'
      cases hs'
      exact ⟨hm, ht, Function.update_self ..⟩
    · simp only [Function.update_of_ne hs] at hs'
      obtain ⟨h1, h2, h3⟩ := h.owner s' u hs'
      exact ⟨h1, h2, (Function.update_of_ne hs ..).trans h3⟩
  depth := h.depth
  above := h.above
  suspended := h.suspended
  mortal := h.mortal

omit decS finT finS in
theorem Kept.dooms (h : Kept x Q) :
    Kept { x with
      kernel := { x.kernel with
        suspdepth :=
          Function.update x.kernel.suspdepth t RT_RESEM_SUSPDEL }
      doomed := Function.update x.doomed t true } Q where
  rings := h.rings
  held := h.held
  owner := h.owner
  depth := by
    intro u
    by_cases hu : u = t
    · subst hu
      simp
    · simpa [hu] using h.depth u
  above := h.above
  suspended := by
    intro u hs
    by_cases hu : u = t
    · subst hu
      simp
    · simpa [hu] using h.suspended u hs
  mortal := h.mortal

omit decT finT finS in
theorem Kept.goes (h : Kept x Q) (hfree : ∀ t, ¬ OwnsOne x.kernel t s) :
    Kept { x with kernel := gone x.kernel s } Q where
  rings := h.rings
  held := h.held
  owner := by
    intro s' t hs'
    obtain ⟨h1, h2, h3⟩ := h.owner s' t hs'
    have hs : s' ≠ s := by
      rintro rfl
      exact hfree t ⟨h1, h2, h3⟩
    exact ⟨(Function.update_of_ne hs ..).trans h1, h2, h3⟩
  depth := h.depth
  above := h.above
  suspended := h.suspended
  mortal := h.mortal

omit decS finT finS in
theorem Kept.retires (h : Kept x Q) :
    Kept { x with kernel := deleted x.kernel t } Q where
  rings := h.rings
  held := h.held
  owner := h.owner
  depth := h.depth
  above := h.above
  suspended := fun u hs =>
    h.suspended u ((mem_deleted x.kernel t u).mp hs).2
  mortal := h.mortal

omit finT finS in
/-- The first part of giving up a resource. -/
theorem Kept.gives {o : T} {sm : S → Bool} {ow : S → Option T} (h : Kept x Q)
    (hheld : x.holder s = some o)
    (hother : ∀ s', s' ≠ s → sm s' = x.kernel.semMagic s' ∧ ow s' = x.kernel.owndby s') :
    ∃ Q', Kept { x with
      kernel := { x.kernel with
        semMagic := sm
        owndby := ow
        resq := x.kernel.resq.unlink (.elem s) }
      holder := Function.update x.holder s none } Q' := by
  have hmem : s ∈ Q o := (h.held s o).mpr hheld
  obtain ⟨l₁, l₂, hl⟩ := List.append_of_mem hmem
  have hnd : (l₁ ++ s :: l₂).Nodup := hl ▸ h.rings.nodup o
  have hsl : s ∉ l₁ ++ l₂ := (List.nodup_middle.mp hnd).notMem
  refine ⟨Function.update Q o (l₁ ++ l₂), h.rings.unlink hl, ?_, ?_, h.depth,
    h.above, h.suspended, h.mortal⟩
  · intro s' u
    have hiff := h.held s' u
    by_cases hs : s' = s
    · subst hs
      simp only [Function.update_self]
      refine iff_of_false ?_ nofun
      by_cases hu : u = o
      · subst hu
        rwa [Function.update_self]
      · rw [Function.update_of_ne hu, hiff, hheld]
        exact fun hc => hu (Option.some.inj hc).symm
    · simp only [Function.update_of_ne hs]
      by_cases hu : u = o
      · subst hu
        rw [Function.update_self, ← hiff, hl]
        simp [hs]
      · rw [Function.update_of_ne hu]
        exact hiff
  · intro s' u hs'
    have hs : s' ≠ s := by
      rintro rfl
      simp only [Function.update_self] at hs'
      exact nomatch hs'
    simp only [Function.update_of_ne hs] at hs'
    obtain ⟨h1, h2, h3⟩ := h.owner s' u hs'
    exact ⟨(hother s' hs).1.trans h1, h2, (hother s' hs).2.trans h3⟩

theorem Kept.givesUp {o : T} {told : Prop} (h : Kept x Q)
    (hG : GivesUp told x.kernel o k') : Kept { x with kernel := k' } Q := by
  cases hG with
  | keeps hk _ _ => exact h.plain hk
  | suspends hk hd =>
    have hsus : Kept { x with
        kernel := RtaiOwners.suspended x.kernel o } Q :=
      { h with
        suspended := by
          intro u hs
          rcases (mem_suspended x.kernel o u).mp hs with rfl | hs
          · exact Or.inl hd
          · exact h.suspended u hs }
    exact hsus.plain hk
  | deletes hk _ _ => exact (h.retires (t := o)).plain hk

/-- **EVERY MOVE KEEPS THE RINGS AND THE DEPTHS RIGHT.** -/
theorem Turn.kept (h : Kept x Q) (ht : Turn x x' g) : ∃ Q', Kept x' Q' := by
  obtain ⟨k', b', d', h'⟩ := x'
  cases ht with
  | plain hk hb hd hh =>
    cases hb; cases hd; cases hh
    exact ⟨Q, h.plain hk⟩
  | asks t d st hk _ hdeep hnot habove hb hd hh =>
    cases hb; cases hd; cases hh
    exact ⟨Q, (h.asks hdeep hnot habove).plain hk⟩
  | takes c s hm ht hn hk hb hd hh =>
    cases hb; cases hd; cases hh
    exact ⟨_, (h.takes hm ht hn).plain hk⟩
  | dooms t hk hb hd hh =>
    cases hb; cases hd; cases hh
    exact ⟨Q, h.dooms.plain hk⟩
  | goes s hfree hk hb hd hh =>
    cases hb; cases hd; cases hh
    exact ⟨Q, (h.goes hfree).plain hk⟩
  | retires t _ hk hb hd hh =>
    cases hb; cases hd; cases hh
    exact ⟨Q, h.retires.plain hk⟩
  | gives o s sm ow told hheld hother _ hG _ _ hb hd hh =>
    cases hb; cases hd; cases hh
    obtain ⟨Q', hQ'⟩ := h.gives hheld hother
    exact ⟨Q', hQ'.givesUp hG⟩

/-- **Every move honours the requests.** -/
theorem Turn.honoured (h : Kept x Q) (ht : Turn x x' g) : Honoured x g x' := by
  cases ht with
  | plain hk _ _ _ =>
    refine .spares fun t hl _ => ⟨?_, (hk.suspended t).mp⟩
    rw [hk.magic]
    exact hl
  | asks t d st hk hspare _ _ _ _ _ _ =>
    refine .spares fun u hl ho => ⟨?_, fun hs => ?_⟩
    · rw [hk.magic]
      exact hl
    · have hs := (hk.suspended u).mp hs
      by_cases hu : u = t
      · subst hu
        exact hspare ho (by simpa using hs)
      · simpa [hu] using hs
  | takes c s _ _ _ hk _ _ _ =>
    refine .spares fun t hl _ => ⟨?_, (hk.suspended t).mp⟩
    rw [hk.magic]
    exact hl
  | dooms t hk _ _ _ =>
    refine .spares fun u hl _ => ⟨?_, (hk.suspended u).mp⟩
    rw [hk.magic]
    exact hl
  | goes s _ hk _ _ _ =>
    refine .spares fun t hl _ => ⟨?_, (hk.suspended t).mp⟩
    rw [hk.magic]
    exact hl
  | retires t hnot hk _ _ _ =>
    refine .spares fun u hl ho => ?_
    have hu : u ≠ t := by
      rintro rfl
      exact hnot ho
    refine ⟨?_, fun hs => ?_⟩
    · rw [hk.magic]
      exact (Function.update_of_ne hu ..).trans hl
    · exact ((mem_deleted x.kernel t u).mp ((hk.suspended u).mp hs)).2
  | gives o s sm ow told hheld hother hlost hG hlast htold _ _ _ =>
    -- who still owns something does not give up the last resource
    have hmore : ∀ {k₁ : Kernel T S}, k₁.semMagic = sm → k₁.owndby = ow →
        (∀ s', 0 < k₁.type s' ↔ 0 < x.kernel.type s') →
        (Owns k₁ o ↔ ¬ Last x.kernel o s) := by
      intro k₁ h1 h2 h3
      simp only [Owns, Last, OwnsOne, h1, h2, h3]
      constructor
      · rintro ⟨s', hm, ht, hown⟩ hall
        have hs : s' ≠ s := by
          rintro rfl
          exact hlost hm hown
        rw [(hother s' hs).1] at hm
        rw [(hother s' hs).2] at hown
        exact hs (hall s' ⟨hm, ht, hown⟩)
      · intro hnot
        push Not at hnot
        obtain ⟨s', ⟨hm, ht, hown⟩, hs⟩ := hnot
        exact ⟨s', (hother s' hs).1.trans hm, ht, (hother s' hs).2.trans hown⟩
    have hbal : x.doomed o = false → x.balance o = x.kernel.suspdepth o := by
      intro hd
      have := h.depth o
      rw [if_neg (by simp [hd])] at this
      exact this.symm
    cases hG with
    | keeps hk hd hwhy =>
      have howns := hmore hk.semMagic hk.owndby hk.isResource
      refine ⟨fun t hl _ _ => ⟨?_, (hk.suspended t).mp⟩, ?_⟩
      · rw [hk.magic]
        exact hl
      · intro t s' hg hl hno
        cases hg
        have hL : Last x.kernel o s := by
          by_contra hn
          exact hno (howns.mpr hn)
        have hnd : x.doomed o = false := by
          cases hdo : x.doomed o with
          | false => rfl
          | true =>
            have hneg := h.doomed_neg hdo
            exact absurd ((htold hneg).mpr ⟨hL, hdo⟩) (hwhy hl hneg)
        refine ⟨iff_of_false (fun hs => ?_) ?_, iff_of_false ?_ ?_⟩
        · rcases h.suspended o ((hk.suspended o).mp hs) with hp | hp
          · exact absurd hp (not_lt.mpr hd)
          · cases hnd.symm.trans hp
        · rintro ⟨hp, -⟩
          rw [hbal hnd] at hp
          exact absurd hp (not_lt.mpr hd)
        · rw [hk.magic]
          simp [hl]
        · simp [hnd]
    | suspends hk hd =>
      have hL := hlast hd
      have howns := hmore hk.semMagic hk.owndby hk.isResource
      have hnd : x.doomed o = false := by
        cases hdo : x.doomed o with
        | false => rfl
        | true => exact absurd hd (not_lt.mpr (h.doomed_neg hdo).le)
      refine ⟨fun t hl ho hkeep => ⟨?_, fun hs => ?_⟩, ?_⟩
      · rw [hk.magic]
        exact hl
      · rcases (mem_suspended _ o t).mp ((hk.suspended t).mp hs) with
          rfl | hs
        · exact absurd hL (howns.mp (hkeep s rfl))
        · exact hs
      · intro t s' hg hl _
        cases hg
        refine ⟨iff_of_true ?_ ⟨?_, hnd⟩, iff_of_false ?_ ?_⟩
        · exact (hk.suspended o).mpr ((mem_suspended _ o o).mpr (Or.inl rfl))
        · rw [hbal hnd]
          exact hd
        · rw [hk.magic]
          simpa [suspended] using hl
        · simp [hnd]
    | deletes hk hd htell =>
      obtain ⟨hL, hdo⟩ := (htold hd).mp htell
      have howns := hmore hk.semMagic hk.owndby hk.isResource
      refine ⟨fun t hl ho hkeep => ?_, ?_⟩
      · have hne : t ≠ o := by
          rintro rfl
          exact absurd hL (howns.mp (hkeep s rfl))
        refine ⟨?_, fun hs => ?_⟩
        · rw [hk.magic]
          exact (Function.update_of_ne hne ..).trans hl
        · exact ((mem_deleted _ o t).mp ((hk.suspended t).mp hs)).2
      · intro t s' hg _ _
        cases hg
        refine ⟨iff_of_false (fun hs => ?_) ?_, iff_of_true ?_ hdo⟩
        · exact ((mem_deleted _ o o).mp ((hk.suspended o).mp hs)).1 rfl
        · simp [hdo]
        · rw [hk.magic]
          exact Function.update_self ..

/-! ### The moves -/

/-- What a move records. -/
structure Recorded (x x' : Requests T S) (m : Move T S) : Prop where
  balance : x'.balance = (match asksOf x.kernel m with
    | some (t, d) => Function.update x.balance t (x.balance t + d)
    | none => x.balance)
  doomed : x'.doomed = (match doomsOf x.kernel m with
    | some t => Function.update x.doomed t true
    | none => x.doomed)
  holder : x'.holder = (match takesOf x.kernel m, givesOf x.kernel m with
    | some (c, s), _ => Function.update x.holder s (some c)
    | none, some (_, s) => Function.update x.holder s none
    | none, none => x.holder)

theorem request_spec {m : Move T S} {w : Option (Ret T)} (hx : request x m = some (x', w)) :
    perform x.kernel m = some (x'.kernel, w) ∧ Recorded x x' m := by
  unfold request at hx
  cases hp : perform x.kernel m with
  | none => rw [hp] at hx; exact nomatch hx
  | some r =>
    rw [hp] at hx
    cases hx
    exact ⟨rfl, rfl, rfl, rfl⟩

omit finT in
/-- A move that asks for nothing, takes nothing and gives nothing up. -/
theorem Recorded.plain {m : Move T S} (h : Recorded x x' m)
    (hk : Plain x.kernel x'.kernel) (ha : asksOf x.kernel m = none)
    (hd : doomsOf x.kernel m = none) (ht : takesOf x.kernel m = none)
    (hg : givesOf x.kernel m = none) : Turn x x' (givesOf x.kernel m) := by
  obtain ⟨h1, h2, h3⟩ := h
  rw [ha] at h1
  rw [hd] at h2
  rw [ht, hg] at h3
  rw [hg]
  exact .plain hk h1 h2 h3

omit finT in
theorem Recorded.takes {m : Move T S} {c : T} (h : Recorded x x' m)
    (hm : x.kernel.semMagic s = true) (hpos : 0 < x.kernel.type s)
    (hn : x.holder s = none) (hk : Plain (taken x.kernel c s) x'.kernel)
    (ha : asksOf x.kernel m = none) (hd : doomsOf x.kernel m = none)
    (ht : takesOf x.kernel m = some (c, s))
    (hg : givesOf x.kernel m = none) : Turn x x' (givesOf x.kernel m) := by
  obtain ⟨h1, h2, h3⟩ := h
  rw [ha] at h1
  rw [hd] at h2
  rw [ht] at h3
  rw [hg]
  exact .takes c s hm hpos hn hk h1 h2 h3

omit decS finT finS in
theorem finish_plain {c : T} {r : Outcome T S} {w : Option (Ret T)}
    (h : finish c r = (k', w)) : Plain r.1 k' := by
  obtain ⟨k₁, o⟩ := r
  cases o with
  | none => cases h; exact Plain.refl _
  | some v => cases h; exact Plain.lists _ ..

/-- A suspend that is counted. -/
theorem suspend_turn {m : Move T S} (h : Kept x Q) (hr : Recorded x x' m)
    (ha : asksOf x.kernel m = some (t, 1)) (hp : AskProper x t 1)
    (hk : Plain { x.kernel with
      suspdepth := Function.update x.kernel.suspdepth t (incr (x.kernel.suspdepth t))
      state := Function.update x.kernel.state t
        (if taskOwnsSems x.kernel t = false ∧ x.kernel.suspdepth t = 0 then
          x.kernel.state t ∪ {.suspended} else x.kernel.state t) } x'.kernel)
    (hd : doomsOf x.kernel m = none) (ht : takesOf x.kernel m = none)
    (hg : givesOf x.kernel m = none) : Turn x x' (givesOf x.kernel m) := by
  obtain ⟨h1, h2, h3⟩ := hr
  rw [ha] at h1
  rw [hd] at h2
  rw [ht, hg] at h3
  rw [hg]
  obtain ⟨hnot, -, hroom, howns⟩ := hp
  rw [incr_of_lt (by omega)] at hk
  have hnd : x.doomed t = false := by
    simpa using fun hdo => hnot ((h.doomed_iff t).mp hdo)
  refine .asks t 1 _ hk ?_ ?_ hnd ?_ h1 h2 h3
  · intro ho hs
    rw [if_neg] at hs
    · exact hs
    · rintro ⟨hq, hzero⟩
      rcases howns (by decide) ho with hq' | hne
      · exact nomatch hq.symm.trans hq'
      · exact hne hzero
  · intro hpos hs
    split at hs
    · next hnow => omega
    · have := hpos hs
      omega
  · have := h.above t
    omega

theorem resume_turn {m : Move T S} (h : Kept x Q) (hr : Recorded x x' m)
    (ha : asksOf x.kernel m = some (t, -1)) (hp : AskProper x t (-1))
    (hk : Plain { x.kernel with
      suspdepth := Function.update x.kernel.suspdepth t (decr (x.kernel.suspdepth t))
      state := Function.update x.kernel.state t
        (if x.kernel.suspdepth t = 1 then x.kernel.state t \ {.suspended}
          else x.kernel.state t) } x'.kernel)
    (hd : doomsOf x.kernel m = none) (ht : takesOf x.kernel m = none)
    (hg : givesOf x.kernel m = none) : Turn x x' (givesOf x.kernel m) := by
  obtain ⟨h1, h2, h3⟩ := hr
  rw [ha] at h1
  rw [hd] at h2
  rw [ht, hg] at h3
  rw [hg]
  obtain ⟨hnot, hmake, -, -⟩ := hp
  have hnd : x.doomed t = false := by
    simpa using fun hdo => hnot ((h.doomed_iff t).mp hdo)
  have hbal : x.kernel.suspdepth t = x.balance t := by
    have := h.depth t
    rwa [if_neg (by simp [hnd])] at this
  have habove : -0x7fffffff < x.balance t := h.above t
  rw [decr_of_gt (by omega)] at hk
  refine .asks t (-1) _ hk ?_ ?_ hnd ?_ h1 h2 h3
  · intro _ hs
    split at hs
    · simp at hs
    · exact hs
  · intro hpos hs
    split at hs
    · simp at hs
    · have := hpos hs
      omega
  · have := h.above t
    omega

/-- A suspend or a resume, by a task or by Linux. -/
theorem asks_turn {m : Move T S} {op : Op T S} {r : Outcome T S}
    {c : Option T} (h : Kept x Q) (hr : Recorded x x' m)
    (hop : rtTaskSuspend x.kernel c t = some r ∧ op = .suspend t ∨
      rtTaskResume x.kernel t = some r ∧ op = .resume t)
    (hask : asksOf x.kernel m = asksOf.asks x.kernel op)
    (hp : Proper x m) (hk : Plain r.1 x'.kernel)
    (hd : doomsOf x.kernel m = none) (ht : takesOf x.kernel m = none)
    (hg : givesOf x.kernel m = none) : Turn x x' (givesOf x.kernel m) := by
  obtain ⟨k₁, w⟩ := r
  rcases hop with ⟨hs, rfl⟩ | ⟨hs, rfl⟩
  · have hcase := rtTaskSuspend_cases hs
    simp only [asksOf.asks] at hask
    split at hcase
    · next hl =>
        rw [if_pos hl] at hask
        exact suspend_turn h hr hask (hp.asks (t, 1) hask) (hcase.trans hk) hd ht hg
    · next hl =>
        rw [if_neg hl] at hask
        exact hr.plain (hcase.trans hk) hask hd ht hg
  · have hcase := rtTaskResume_cases hs
    simp only [asksOf.asks] at hask
    split at hcase
    · next hl =>
        rw [if_pos hl] at hask
        exact resume_turn h hr hask (hp.asks (t, -1) hask) (hcase.trans hk) hd ht hg
    · next hl =>
        rw [if_neg hl] at hask
        exact hr.plain (hcase.trans hk) hask hd ht hg

/-- A signal. -/
theorem signal_turn {c : T} {r : Outcome T S} (h : Kept x Q)
    (hr : Recorded x x' (.act (.call c (.semSignal s))))
    (hs : rtSemSignal x.kernel (some c) s = some r)
    (hp : GivesProper x (.act (.call c (.semSignal s))))
    (hk : Plain r.1 x'.kernel) :
    Turn x x' (givesOf x.kernel (.act (.call c (.semSignal s)))) := by
  obtain ⟨k₁, w⟩ := r
  have hcase := rtSemSignal_cases h.mortal hs
  split at hcase
  · next hrel =>
      obtain ⟨hown, hheld, hself, hlast, htold⟩ := hp hrel
      have hg : givesOf x.kernel (.act (.call c (.semSignal s))) = some (c, s) := by
        simp only [givesOf, if_pos hrel, hown, Option.map_some]
      obtain ⟨h1, h2, h3⟩ := hr
      rw [show takesOf x.kernel (.act (.call c (.semSignal s))) = none from rfl, hg] at h3
      rw [hg]
      refine .gives c s x.kernel.semMagic _ _ hheld (fun s' hs' => ?_) ?_
        (hcase.plain hk) hlast (fun hneg => ?_) h1 h2 h3
      · exact ⟨rfl, Function.update_of_ne hs' ..⟩
      · intro _
        rw [Function.update_self]
        exact hself
      · obtain ⟨u, hu, hiff⟩ := htold hneg
        rw [← hiff, signalTold, hu]
        constructor
        · rintro ⟨v, hv, hd⟩
          exact Option.some.inj hv ▸ hd
        · exact fun hd => ⟨u, rfl, hd⟩
  · next hrel =>
      exact hr.plain (hcase.trans hk) rfl rfl rfl (if_neg hrel)

/-- A deletion of a semaphore. -/
theorem deleteSem_turn {c : Option T} {r : Outcome T S} (h : Kept x Q)
    (hr : Recorded x x' (.deleteSem c s))
    (hs : rtSemDelete x.kernel c s = some r)
    (hp : GivesProper x (.deleteSem c s)) (hk : Plain r.1 x'.kernel) :
    Turn x x' (givesOf x.kernel (.deleteSem c s)) := by
  obtain ⟨k₁, w⟩ := r
  have hcase := rtSemDelete_cases h.mortal hs
  have hfree : ∀ {k' : Kernel T S}, Plain (gone x.kernel s) k' →
      (∀ o, x.kernel.owndby s = some o → ¬ 0 < x.kernel.type s) →
      Plain k' x'.kernel → givesOf x.kernel (.deleteSem c s) = none →
      Turn x x' (givesOf x.kernel (.deleteSem c s)) := by
    intro k' hg ht hk hgives
    obtain ⟨h1, h2, h3⟩ := hr
    rw [show takesOf x.kernel (.deleteSem c s) = none from rfl, hgives] at h3
    rw [hgives]
    exact .goes s (fun t ho => ht t ho.2.2 ho.2.1) (hg.trans hk) h1 h2 h3
  split at hcase
  · next hl =>
      cases ho : x.kernel.owndby s with
      | none =>
        rw [ho] at hcase
        refine hfree hcase (fun o hc => ?_) hk ?_
        · cases ho.symm.trans hc
        · simp only [givesOf, ho, Option.map_none, ite_self]
      | some o =>
        rw [ho] at hcase
        simp only at hcase
        split at hcase
        · next ht =>
            have hg : givesOf x.kernel (.deleteSem c s) = some (o, s) := by
              simp only [givesOf, if_pos (And.intro hl ht), ho, Option.map_some]
            obtain ⟨hheld, hlast, hspare⟩ := hp hl ht o ho
            obtain ⟨h1, h2, h3⟩ := hr
            rw [show takesOf x.kernel (.deleteSem c s) = none from rfl, hg] at h3
            rw [hg]
            have hother : ∀ s', s' ≠ s → Function.update x.kernel.semMagic s false s' =
                  x.kernel.semMagic s' ∧
                x.kernel.owndby s' = x.kernel.owndby s' :=
              fun s' hs' => ⟨Function.update_of_ne hs' .., rfl⟩
            obtain ⟨Q', hQ'⟩ := h.gives hheld hother
            refine .gives o s _ _ _ hheld hother ?_ (hcase.plain hk) hlast
              (fun _ => ?_) h1 h2 h3
            · rw [Function.update_self]
              rintro ⟨⟩
            · have hring := hQ'.taskOwnsSems_iff o
              rw [h.doomed_iff]
              constructor
              · rintro ⟨hdel, hwho⟩
                refine ⟨?_, hdel⟩
                by_contra hL
                obtain ⟨⟨hc1, hc2⟩, s', hs', hheld'⟩ :=
                  (hspare hdel).resolve_left hL
                rcases hwho with hn | hn | hn
                · have hq := hring.mpr ⟨s', (Function.update_of_ne hs' ..).trans hheld'⟩
                  cases hq.symm.trans hn
                · exact hc1 hn
                · exact hc2 hn
              · rintro ⟨hL, hdel⟩
                refine ⟨hdel, Or.inl ?_⟩
                refine Bool.eq_false_iff.mpr fun hq => ?_
                obtain ⟨s', hs'⟩ := hring.mp hq
                have hne : s' ≠ s := by
                  rintro rfl
                  cases (Function.update_self ..).symm.trans hs'
                have hheld' : x.holder s' = some o :=
                  (Function.update_of_ne hne ..).symm.trans hs'
                exact hne (hL s' (h.owner s' o hheld'))
        · next ht =>
            refine hfree hcase (fun o' _ => ht) hk ?_
            simp only [givesOf, ht, and_false, if_false]
  · next hl =>
      exact hr.plain (hcase.trans hk) rfl rfl rfl (if_neg fun hn => hl hn.1)

/-- A deletion of another task. -/
theorem deleteTask_turn {c : T} (h : Kept x Q)
    (hr : Recorded x x' (.deleteTask c t)) (hct : c ≠ t)
    (hs : rtTaskDelete x.kernel (some c) t = some k')
    (hp : GivesProper x (.deleteTask c t)) (hk : Plain k' x'.kernel) :
    Turn x x' (givesOf x.kernel (.deleteTask c t)) := by
  cases hl : x.kernel.magic t with
  | false =>
    cases rtTaskDelete_dead hl hs
    refine hr.plain hk rfl (if_neg fun hn => ?_) rfl rfl
    exact nomatch hl.symm.trans hn.1
  | true =>
    obtain ⟨h1, h2, h3⟩ := hr
    rcases rtTaskDelete_cases h.mortal hl hs with
      ⟨hwho, hk'⟩ | ⟨hq, -, -, rfl⟩
    · have hnot : ¬ Owns x.kernel t := by
        intro ho
        have hq := hp hl ho
        rcases hwho with hn | hn | hn
        · exact nomatch hq.symm.trans hn
        · exact hct (Option.some.inj hn)
        · exact nomatch hn
      rw [show doomsOf x.kernel (.deleteTask c t) = none from
        if_neg fun hn => hnot hn.2] at h2
      exact .retires t hnot (hk'.trans hk) h1 h2 h3
    · obtain ⟨s, hs⟩ := (h.taskOwnsSems_iff t).mp hq
      rw [show doomsOf x.kernel (.deleteTask c t) = some t from
        if_pos ⟨hl, s, h.owner s t hs⟩] at h2
      exact .dooms t hk h1 h2 h3

/-- A call of a task. -/
theorem call_turn {c : T} {op : Op T S} {w : Option (Ret T)} (h : Kept x Q)
    (hr : Recorded x x' (.act (.call c op))) (hop : OwnerOp op)
    (hp : Proper x (.act (.call c op)))
    (hx : exec x.kernel (.call c op) = some (x'.kernel, w)) :
    Turn x x' (givesOf x.kernel (.act (.call c op))) := by
  obtain ⟨-, r, hs, hf⟩ := exec_call hx
  have hk := finish_plain hf
  cases op with
  | suspend t => exact asks_turn h hr (Or.inl ⟨hs, rfl⟩) rfl hp hk rfl rfl rfl
  | resume t =>
    exact asks_turn (c := none) h hr (Or.inr ⟨hs, rfl⟩) rfl hp hk rfl rfl rfl
  | semSignal s => exact signal_turn h hr hs hp.gives hk
  | semWait s =>
    obtain ⟨k₁, v⟩ := r
    have hcase := rtSemWait_cases h.mortal hp.nests hs
    split at hcase
    · next hnow =>
        have htake : takesOf x.kernel (.act (.call c (.semWait s))) =
            some (c, s) := if_pos hnow
        obtain ⟨hm, hn⟩ := hp.takes (c, s) htake
        exact hr.takes hm hnow.2.1 hn (hcase.trans hk) rfl rfl htake rfl
    · next hnow =>
        exact hr.plain (hcase.trans hk) rfl rfl (if_neg hnow) rfl
  | _ => exact hop.elim

/-- A task goes on with its call. -/
theorem cont_turn {c : T} {w : Option (Ret T)} (hr : Recorded x x' (.act (.cont c)))
    (hm : OwnerMove x.kernel (.act (.cont c)))
    (hp : Proper x (.act (.cont c)))
    (hx : exec x.kernel (.cont c) = some (x'.kernel, w)) :
    Turn x x' (givesOf x.kernel (.act (.cont c))) := by
  obtain ⟨-, r, hs, hf⟩ := exec_cont hx
  have hk := finish_plain hf
  unfold contOp at hs
  cases hpc : x.kernel.pc c with
  | suspend =>
    simp only [hpc, rtTaskSuspendTail] at hs
    have hsame : Plain x.kernel r.1 := by
      split at hs
      · cases hs
        exact Plain.refl _
      · cases hs
        exact Plain.refl _
    refine hr.plain (hsame.trans hk) rfl rfl ?_ rfl
    simp only [takesOf, hpc]
  | semWait s =>
    simp only [hpc] at hs
    obtain ⟨k₁, v⟩ := r
    rcases rtSemWaitTail_cases hs with ⟨hb, ht, hcase⟩ | ⟨hnot, hcase⟩
    · have htake : takesOf x.kernel (.act (.cont c)) = some (c, s) := by
        simp only [takesOf, hpc, if_pos (And.intro hb ht)]
      obtain ⟨hmag, hn⟩ := hp.takes (c, s) htake
      exact hr.takes hmag ht hn (hcase.trans hk) rfl rfl htake rfl
    · refine hr.plain (hcase.trans hk) rfl rfl ?_ rfl
      simp only [takesOf, hpc, if_neg hnot]
  | _ =>
    simp only [OwnerMove, OwnerPc, hpc] at hm

/-- The Linux task or an interrupt. -/
theorem linux_turn {op : Op T S} {w : Option (Ret T)} (h : Kept x Q)
    (hr : Recorded x x' (.act (.linux op))) (hop : OwnerOp op)
    (hp : Proper x (.act (.linux op)))
    (hx : exec x.kernel (.linux op) = some (x'.kernel, w)) :
    Turn x x' (givesOf x.kernel (.act (.linux op))) := by
  cases op with
  | suspend t =>
    exact asks_turn h hr (Or.inl ⟨hx, rfl⟩) rfl hp (Plain.refl _) rfl rfl rfl
  | resume t =>
    exact asks_turn (c := none) h hr (Or.inr ⟨hx, rfl⟩) rfl hp (Plain.refl _) rfl rfl rfl
  | semSignal s => exact hr.plain (rtSemSignal_linux hx) rfl rfl rfl rfl
  | semWait s => exact nomatch hx
  | _ => exact hop.elim

/-- The scheduler and the Linux side of soft tasks. -/
def schedulesOnly : Action T S → Bool
  | .call _ _ => false
  | .cont _ => false
  | .linux _ => false
  | .wake _ => false
  | _ => true

theorem schedules_plain {a : Action T S} {w : Option (Ret T)} (ha : schedulesOnly a = true)
    (hx : exec k a = some (k', w)) : Plain k k' := by
  have henq : ∀ (k : Kernel T S) (t : T), Plain k (enqSoftReadyTask k t) := by
    intro k t
    unfold enqSoftReadyTask
    split
    · exact Plain.refl k
    · exact Plain.lists k ..
  cases a with
  | call _ _ => exact nomatch ha
  | cont _ => exact nomatch ha
  | linux _ => exact nomatch ha
  | wake _ => exact nomatch ha
  | dispatch t =>
    obtain ⟨k₁, h, hx⟩ := Option.map_eq_some_iff.mp hx
    cases hx
    simp only [dispatch] at h
    split at h
    · cases h
      exact Plain.lists k ..
    · exact nomatch h
  | softEnter t =>
    obtain ⟨k₁, h, hx⟩ := Option.map_eq_some_iff.mp hx
    cases hx
    simp only [rtScheduleSoft] at h
    split at h
    · have hset := Plain.set k t (m := {.ready}) (by decide)
      split at h
      · cases h
        exact hset.trans ((henq _ t).trans (Plain.lists _ ..))
      · cases h
        exact hset.trans (Plain.lists _ ..)
    · exact nomatch h
  | softEntered t =>
    obtain ⟨k₁, h, hx⟩ := Option.map_eq_some_iff.mp hx
    cases hx
    simp only [rtScheduleSoftEntered] at h
    split at h
    · cases h
      exact (henq k t).trans (Plain.lists _ ..)
    · exact nomatch h
  | softSchedule t =>
    obtain ⟨k₁, h, hx⟩ := Option.map_eq_some_iff.mp hx
    cases hx
    simp only [softSchedule] at h
    split at h
    · cases h
      exact Plain.lists k ..
    · exact nomatch h
  | softWake t =>
    obtain ⟨k₁, h, hx⟩ := Option.map_eq_some_iff.mp hx
    cases hx
    simp only [softWake] at h
    split at h
    · cases h
      have hset := Plain.setState k t ((k.state t \ {.sftrdy}) ∪ {.ready}) (by simp)
      exact hset.trans ((Plain.lists _ ..).trans (henq _ t))
    · exact nomatch h
  | softTail t =>
    obtain ⟨k₁, h, hx⟩ := Option.map_eq_some_iff.mp hx
    cases hx
    simp only [rtScheduleSoftTail] at h
    split at h
    · cases h
      exact (Plain.clear k t (by decide)).trans (Plain.lists _ ..)
    · exact nomatch h

theorem schedule_turn {a : Action T S} {w : Option (Ret T)}
    (hr : Recorded x x' (.act a)) (ha : schedulesOnly a = true)
    (hx : exec x.kernel a = some (x'.kernel, w)) :
    Turn x x' (givesOf x.kernel (.act a)) := by
  have hk := schedules_plain ha hx
  cases a with
  | call _ _ => exact nomatch ha
  | cont _ => exact nomatch ha
  | linux _ => exact nomatch ha
  | wake _ => exact nomatch ha
  | _ => exact hr.plain hk rfl rfl rfl rfl

/-- **EVERY MOVE IS ONE OF THE TURNS** when it meets the condition. -/
theorem request_turn {m : Move T S} {w : Option (Ret T)} (h : Kept x Q)
    (hm : OwnerMove x.kernel m) (hp : Proper x m)
    (hx : request x m = some (x', w)) :
    Turn x x' (givesOf x.kernel m) := by
  obtain ⟨hx, hr⟩ := request_spec hx
  cases m with
  | act a =>
    cases a with
    | call c op => exact call_turn h hr hm hp hx
    | cont c => exact cont_turn hr hm hp hx
    | linux op => exact linux_turn h hr hm hp hx
    | wake now => exact hm.elim
    | _ => exact schedule_turn hr rfl hx
  | deleteSem c s =>
    cases c with
    | none => exact deleteSem_turn h hr hx hp.gives (Plain.refl _)
    | some c =>
      simp only [perform] at hx
      split at hx
      · obtain ⟨r, hs, hf⟩ := Option.map_eq_some_iff.mp hx
        exact deleteSem_turn h hr hs hp.gives (finish_plain hf)
      · exact nomatch hx
  | deleteTask c t =>
    simp only [perform] at hx
    split at hx
    · obtain ⟨k₁, hs, hf⟩ := Option.map_eq_some_iff.mp hx
      exact deleteTask_turn h hr hm hs hp.gives (finish_plain hf)
    · exact nomatch hx

end Turns

/-! ## The runs -/

omit finT finS in
/-- Nothing has been asked for and nobody owns anything. -/
theorem kept_unasked (cfg : Config T S) (hcfg : Mortal (boot cfg)) :
    Kept (unasked cfg) (fun _ => []) where
  rings := Rings.empty
  held := fun _ _ => iff_of_false List.not_mem_nil nofun
  owner := fun _ _ h => nomatch h
  depth := fun _ => rfl
  above := by
    intro t
    show RT_RESEM_SUSPDEL < if cfg.hard t then 1 else 0
    split <;> decide
  suspended := by
    intro t ht
    refine Or.inl ?_
    show 0 < if cfg.hard t then (1 : Int) else 0
    have ht' : Flag.suspended ∈
        (if cfg.hard t then {.suspended, .ready} else {.ready} : TaskState) :=
      ht
    split
    · decide
    · next hc =>
        rw [if_neg hc] at ht'
        exact absurd ht' (by decide)
  mortal := hcfg

instance (x : Requests T S) (m : Move T S) : Decidable (OwnerMove x.kernel m) := by
  have hop : ∀ op : Op T S, Decidable (OwnerOp op) := by
    intro op
    induction op using Op.casesOn <;> unfold OwnerOp <;> infer_instance
  have hpc : ∀ p : Pc T S, Decidable (OwnerPc p) := by
    intro p
    induction p using Pc.casesOn <;> unfold OwnerPc <;> infer_instance
  induction m using Move.casesOn with
  | act a =>
    induction a using RtaiSteps.Action.casesOn <;> unfold OwnerMove <;>
      infer_instance
  | _ => unfold OwnerMove; infer_instance

instance (x : Requests T S) (m : Move T S) : Decidable (GivesProper x m) := by
  induction m using Move.casesOn with
  | act a =>
    induction a using RtaiSteps.Action.casesOn with
    | call c op =>
      induction op using Op.casesOn with
      | semSignal s =>
        unfold GivesProper SignalProper
        infer_instance
      | _ => unfold GivesProper; infer_instance
    | _ => unfold GivesProper; infer_instance
  | deleteSem c s =>
    unfold GivesProper DeleteProper
    infer_instance
  | deleteTask c t => unfold GivesProper; infer_instance

instance (x : Requests T S) (t : T) (d : Int) : Decidable (AskProper x t d) :=
  inferInstanceAs (Decidable (_ ∧ _ ∧ _ ∧ _))

instance (k : Kernel T S) (m : Move T S) : Decidable (NestsProper k m) := by
  induction m using Move.casesOn with
  | act a =>
    induction a using RtaiSteps.Action.casesOn with
    | call c op =>
      induction op using Op.casesOn <;> unfold NestsProper <;> infer_instance
    | _ => exact isTrue trivial
  | _ => exact isTrue trivial

instance (x : Requests T S) (m : Move T S) : Decidable (Proper x m) :=
  decidable_of_iff (_ ∧ _ ∧ _ ∧ _) ⟨fun ⟨h1, h2, h3, h4⟩ => ⟨h1, h2, h3, h4⟩,
      fun h => ⟨h.takes, h.gives, h.asks, h.nests⟩⟩

/-- One hard task and two resources. -/
def oneOwner : Config (Fin 1) (Fin 2) where
  hard := fun _ => true
  priority := fun _ => 0
  receiver := fun _ => none
  schedlat := fun _ => 0
  linuxSchedlat := 0
  sems := fun _ => { kind := .resSem 1, value := 1, fifo := false }
  time := 0

theorem mortal_oneOwner : Mortal (boot oneOwner) := by
  unfold Mortal
  decide

/-- The task takes a resource and Linux suspends it. -/
def suspendedOwnerRun : List (Move (Fin 1) (Fin 2)) :=
  [.act (.linux (.resume 0)), .act (.dispatch 0),
    .act (.call 0 (.semWait 0)), .act (.linux (.suspend 0))]

/-- The task takes both resources and Linux suspends it. -/
def twoResourcesRun : List (Move (Fin 1) (Fin 2)) :=
  [.act (.linux (.resume 0)), .act (.dispatch 0),
    .act (.call 0 (.semWait 0)), .act (.call 0 (.semWait 1)),
    .act (.linux (.suspend 0))]

end RtaiDeferral
