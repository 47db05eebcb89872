import Rtai.Sched
import Rtai.WaitQueues
import Rtai.Runs

/-! # sched.c: switching to hard real time, one task after the other

    `steal_from_linux` begins with a wait on a semaphore of the CPU and ends
    with a signal.  The wait is a call that the soft task makes by
    `rt_schedule_soft`; its sections, and those of the signal, run with the
    interrupts off and are the steps here. -/

namespace RtaiStealFromLinux

open RtaiRings RtaiKernel RtaiSchedCore RtaiSched RtaiWaitQueues RtaiRuns

variable {T S : Type} [decT : DecidableEq T] [decS : DecidableEq S] [finT : Fintype T]
  [finS : Fintype S]

/-- Where a task is. -/
inductive StealPc where
  /-- Soft, outside `steal_from_linux`. -/
  | out
  /-- In `rt_schedule_soft`, before `__sthsem_wait`. -/
  | entering
  /-- In the `rt_schedule` of `__sthsem_wait`. -/
  | waiting
  /-- `__sthsem_wait` is over. -/
  | granted
  /-- Before the test of `signal_pending`. -/
  | between
  /-- Hard, before `sthsem_signal`. -/
  | hardening
  | hard
  deriving DecidableEq

/-- The kernel, and where the tasks stand. -/
structure Steal (T S : Type) where
  kernel : Kernel T S
  place : T → StealPc

/-- `__sthsem_wait` up to its `rt_schedule`, and whether it gets there. -/
def sthsemWait (k : Kernel T S) (t : T) (s : S) : Option (Kernel T S × Bool) :=
  let k := { k with count := Function.update k.count s (k.count s - 1) }
  if k.count s < 0 then do
    let k := { k with
      state := Function.update k.state t (k.state t ∪ {.semaphore})
      linux := Function.update k.linux t .asleep
      wakeup := Function.update k.wakeup t false
      ready := k.ready.unlink (.elem t) }
    return (← enqueueBlocked k t (.sem s) 0, true)
  else some (k, false)

/-- `rt_sem_signal` of `sthsem`. -/
def sthsemSignal (k : Kernel T S) (s : S) : Option (Kernel T S) :=
  match queueTask k (k.queue.next (.head (.sem s))) with
  | .task u =>
    let k := { k with count := Function.update k.count s (k.count s + 1) }
    let k := dequeueBlocked k u
    if k.state u ≠ {.ready} then
      let k := { k with
        state := Function.update k.state u (k.state u \ {.semaphore}) }
      if k.state u = {.ready} then
        some { k with
          state := Function.update k.state u (k.state u ∪ {.sftrdy})
          wakeup := Function.update k.wakeup u true }
      else some k
    else some k
  | .null => some { k with count := Function.update k.count s 1 }
  | .higerr => none

/-- The middle of `steal_from_linux`, with the `fast_schedule` that
    `__ipipe_migrate_head` leads to. -/
def goHard (k : Kernel T S) (t : T) : Kernel T S :=
  let k := { k with
    basePriority := Function.update k.basePriority t
      (if k.basePriority t ≥ BASE_SOFT_PRIORITY then
        k.basePriority t - BASE_SOFT_PRIORITY
      else k.basePriority t)
    priority := Function.update k.priority t
      (if k.priority t ≥ BASE_SOFT_PRIORITY then
        k.priority t - BASE_SOFT_PRIORITY
      else k.priority t)
    isHard := Function.update k.isHard t true
    state := Function.update k.state t (k.state t ∪ {.ready}) }
  let k := enqSoftReadyTask k t
  { k with running := Function.update k.running t 1 }

/-- `give_back_to_linux`; `keeprio` tells that it is not 0. -/
def giveBackToLinux (k : Kernel T S) (t : T) (keeprio : Bool) : Kernel T S :=
  let k := { k with
    ready := k.ready.unlink (.elem t)
    state := Function.update k.state t ∅
    isHard := Function.update k.isHard t false }
  if keeprio then k
  else
    { k with
      priority := Function.update k.priority t (if k.priority t < BASE_SOFT_PRIORITY ∧
            k.priority t = k.basePriority t then
          k.priority t + BASE_SOFT_PRIORITY
        else k.priority t)
      basePriority := Function.update k.basePriority t
        (if k.basePriority t < BASE_SOFT_PRIORITY then
          k.basePriority t + BASE_SOFT_PRIORITY
        else k.basePriority t) }

/-- The sections. -/
inductive StealAction (T : Type) where
  /-- `steal_from_linux` is called. -/
  | call (t : T)
  /-- The loop of `rt_schedule_soft` ends. -/
  | entered (t : T)
  | wait (t : T)
  /-- Linux runs a task whose wake up has been pended. -/
  | wake (t : T)
  /-- The tail of `rt_schedule_soft`. -/
  | tail (t : T)
  /-- `signal_pending`, with its value. -/
  | check (t : T) (pending : Bool)
  | signal (t : T)
  | giveBack (t : T) (keeprio : Bool)
  deriving DecidableEq

/-- The task goes on. -/
def Steal.go (x : Steal T S) (k : Kernel T S) (t : T) (pc : StealPc) :
    Steal T S :=
  ⟨k, Function.update x.place t pc⟩

/-- What a section does. -/
def stealStep (s : S) (x : Steal T S) : StealAction T → Option (Steal T S × Unit)
  | .call t =>
    if x.place t = .out then do
      let k ← rtScheduleSoft x.kernel t
      some (x.go k t .entering, ())
    else none
  | .entered t =>
    if x.place t = .entering then do
      let k ← rtScheduleSoftEntered x.kernel t
      some (x.go k t .entering, ())
    else none
  | .wait t =>
    if x.place t = .entering ∧ x.kernel.pc t = .start then do
      let (k, blocked) ← sthsemWait x.kernel t s
      let k := { k with pc := Function.update k.pc t .idle }
      some (x.go k t (if blocked then .waiting else .granted), ())
    else none
  | .wake t =>
    if x.place t = .waiting then do
      let k ← softWake x.kernel t
      some (x.go k t .granted, ())
    else none
  | .tail t =>
    if x.place t = .granted then do
      let k ← rtScheduleSoftTail x.kernel t
      some (x.go k t .between, ())
    else none
  | .check t pending =>
    if x.place t = .between then
      if pending then some (x.go x.kernel t .out, ())
      else some (x.go (goHard x.kernel t) t .hardening, ())
    else none
  | .signal t =>
    if x.place t = .hardening then do
      let k ← sthsemSignal x.kernel s
      some (x.go k t .hard, ())
    else none
  | .giveBack t keeprio =>
    if x.place t = .hard then
      some (x.go (giveBackToLinux x.kernel t keeprio) t .out, ())
    else none

/-- After `__task_init` for every task and `rtai_init_sthsems`. -/
def initSthsems (cfg : Config T S) : Steal T S where
  kernel :=
    { boot { cfg with hard := fun _ => false } with
      state := fun _ => ∅
      count := fun _ => 1 }
  place := fun _ => .out

/-- The wait of the task is over and its signal has not been made: it has taken
    the count, or it has been taken out of the queue. -/
def Through (x : Steal T S) (t : T) : Prop :=
  match x.place t with
  | .waiting => x.kernel.blockedOn t = .null
  | .granted | .between | .hardening => True
  | .out | .entering | .hard => False

/-- **One after the other**: no two tasks are through, and when none is the
    count is 1 and the queue empty. -/
def Serial (s : S) (x : Steal T S) : Prop :=
  (∀ t u, Through x t → Through x u → t = u) ∧ ((∀ t, ¬ Through x t) → x.kernel.count s = 1 ∧
      x.kernel.queue.next (.head (.sem s)) = .head (.sem s))

/-- A task that has got through finds no Linux signal pending. -/
def NoSignalPending (_ : Steal T S) : StealAction T → Prop
  | .check _ pending => pending = false
  | _ => True

instance (x : Steal T S) : (a : StealAction T) → Decidable (NoSignalPending x a)
  | .check _ pending => inferInstanceAs (Decidable (pending = false))
  | .call _ | .entered _ | .wait _ | .wake _ | .tail _ | .signal _
  | .giveBack _ _ => inferInstanceAs (Decidable True)

/-! ## What leaves the semaphore alone -/

/-- The semaphore and its queue are the same, and nobody else is woken. -/
def Aside (k k' : Kernel T S) : Prop :=
  k'.queue = k.queue ∧ k'.blockedOn = k.blockedOn ∧ k'.count = k.count ∧
    ∀ u, k'.wakeup u = true → k.wakeup u = true

section Aside

variable {k k' : Kernel T S} {t : T}

omit decS finT finS in
theorem enqSoftReadyTask_aside (k : Kernel T S) (t : T) : Aside k (enqSoftReadyTask k t) := by
  simp only [enqSoftReadyTask]
  split <;> exact ⟨rfl, rfl, rfl, fun _ h => h⟩

theorem rtScheduleSoft_aside (h : rtScheduleSoft k t = some k') : Aside k k' := by
  simp only [rtScheduleSoft] at h
  split at h
  · split at h
    · cases h
      exact enqSoftReadyTask_aside { k with
        state := Function.update k.state t (k.state t ∪ {.ready}) } t
    · cases h
      exact ⟨rfl, rfl, rfl, fun _ h => h⟩
  · exact nomatch h

theorem rtScheduleSoftEntered_aside (h : rtScheduleSoftEntered k t = some k') :
    Aside k k' := by
  simp only [rtScheduleSoftEntered] at h
  split at h
  · cases h
    exact enqSoftReadyTask_aside k t
  · exact nomatch h

/-- A task that wakes up has been woken. -/
theorem softWake_aside (h : softWake k t = some k') : Aside k k' ∧ k.wakeup t = true := by
  simp only [softWake] at h
  split at h
  · next hc =>
      cases h
      obtain ⟨h1, h2, h3, h4⟩ := enqSoftReadyTask_aside { k with
        state := Function.update k.state t ((k.state t \ {.sftrdy}) ∪ {.ready})
        wakeup := Function.update k.wakeup t false
        linux := Function.update k.linux t .inside } t
      refine ⟨⟨h1, h2, h3, fun u hu => ?_⟩, hc.2.2⟩
      have hw : Function.update k.wakeup t false u = true := h4 u hu
      by_cases hut : u = t
      · subst hut
        exact hc.2.2
      · rw [Function.update_of_ne hut] at hw
        exact hw
  · exact nomatch h

omit finT finS in
theorem rtScheduleSoftTail_aside (h : rtScheduleSoftTail k t = some k') :
    Aside k k' := by
  simp only [rtScheduleSoftTail] at h
  split at h
  · cases h
    exact ⟨rfl, rfl, rfl, fun _ h => h⟩
  · exact nomatch h

theorem goHard_aside (k : Kernel T S) (t : T) : Aside k (goHard k t) := by
  obtain ⟨h1, h2, h3, h4⟩ := enqSoftReadyTask_aside { k with
    basePriority := Function.update k.basePriority t
      (if k.basePriority t ≥ BASE_SOFT_PRIORITY then
        k.basePriority t - BASE_SOFT_PRIORITY
      else k.basePriority t)
    priority := Function.update k.priority t
      (if k.priority t ≥ BASE_SOFT_PRIORITY then
        k.priority t - BASE_SOFT_PRIORITY
      else k.priority t)
    isHard := Function.update k.isHard t true
    state := Function.update k.state t (k.state t ∪ {.ready}) } t
  exact ⟨h1, h2, h3, h4⟩

omit decS finT finS in
theorem giveBackToLinux_aside (k : Kernel T S) (t : T) (keeprio : Bool) :
    Aside k (giveBackToLinux k t keeprio) := by
  cases keeprio <;> exact ⟨rfl, rfl, rfl, fun _ h => h⟩

end Aside

/-! ## The invariant -/

/-- The queue, and the count that belongs to it.  `leaked` tells whether a task
    has gone away through. -/
structure SthInv (s : S) (x : Steal T S) (L : Head T S → List T)
    (leaked : Bool) : Prop where
  rings : Rings x.kernel.queue L
  queued : ∀ h t, t ∈ L h ↔ h = .sem s ∧ x.place t = .waiting ∧ x.kernel.blockedOn t ≠ .null
  asleep : ∀ t, x.place t = .waiting → x.kernel.blockedOn t ≠ .null → x.kernel.wakeup t = false
  one : ∀ t u, Through x t → Through x u → t = u
  taken : leaked = true ∨ (∃ t, Through x t) → x.kernel.count s = -((L (.sem s)).length : Int)
  free : leaked = false → (∀ t, ¬ Through x t) → x.kernel.count s = 1 ∧ L (.sem s) = []
  gone : leaked = true → ∀ t, ¬ Through x t

section Steps

variable {s : S} {x x' : Steal T S} {L : Head T S → List T} {leaked : Bool} {t : T}

omit decS finT finS in
theorem through_of_ne {k : Kernel T S} {pc : StealPc} {u : T} (hu : u ≠ t)
    (hb : k.blockedOn u = x.kernel.blockedOn u) :
    Through (x.go k t pc) u ↔ Through x u := by
  have hplace : (x.go k t pc).place u = x.place u := Function.update_of_ne hu ..
  simp only [Through, hplace]
  cases x.place u with
  | waiting => exact iff_of_eq (congrArg (· = BlockedOn.null) hb)
  | _ => exact Iff.rfl

omit decT decS finT finS in
/-- **THE SEMAPHORE TELLS WHETHER A TASK HAS GONE AWAY THROUGH**. -/
theorem SthInv.serial_iff (I : SthInv s x L leaked) : Serial s x ↔ leaked = false := by
  constructor
  · intro h
    cases hl : leaked with
    | false => rfl
    | true =>
      have hcount := (h.2 (I.gone hl)).1
      rw [I.taken (Or.inl hl)] at hcount
      omega
  · intro hl
    refine ⟨I.one, fun hno => ?_⟩
    obtain ⟨hcount, hempty⟩ := I.free hl hno
    refine ⟨hcount, ?_⟩
    rw [I.rings.next_head, hempty]
    rfl

/-- A task goes on without touching the semaphore. -/
theorem SthInv.moves (I : SthInv s x L leaked) {k : Kernel T S} {pc : StealPc}
    (hk : Aside x.kernel k) (hpc : pc ≠ .waiting)
    (hq : x.place t = .waiting → x.kernel.blockedOn t = .null)
    (ht : Through (x.go k t pc) t ↔ Through x t) :
    SthInv s (x.go k t pc) L leaked := by
  obtain ⟨hqueue, hblocked, hcount, hwake⟩ := hk
  have hthrough : ∀ u, Through (x.go k t pc) u ↔ Through x u := by
    intro u
    by_cases hu : u = t
    · subst hu
      exact ht
    · exact through_of_ne hu (congrFun hblocked u)
  have hplace : ∀ u, (x.go k t pc).place u = .waiting ∧
      k.blockedOn u ≠ .null ↔ x.place u = .waiting ∧ x.kernel.blockedOn u ≠ .null := by
    intro u
    rw [hblocked]
    by_cases hu : u = t
    · subst hu
      have hself : (x.go k u pc).place u = pc := Function.update_self ..
      rw [hself]
      exact ⟨fun h => absurd h.1 hpc, fun h => absurd (hq h.1) h.2⟩
    · have hother : (x.go k t pc).place u = x.place u :=
        Function.update_of_ne hu ..
      rw [hother]
  constructor
  · show Rings k.queue L
    rw [hqueue]
    exact I.rings
  · intro h u
    rw [I.queued]
    exact and_congr_right fun _ => (hplace u).symm
  · intro u hu hb
    obtain ⟨h1, h2⟩ := (hplace u).mp ⟨hu, hb⟩
    cases hw : k.wakeup u with
    | false => exact hw
    | true =>
      have := hwake u hw
      rw [I.asleep u h1 h2] at this
      exact nomatch this
  · intro u v hu hv
    exact I.one u v ((hthrough u).mp hu) ((hthrough v).mp hv)
  · intro h
    show k.count s = _
    rw [hcount]
    exact I.taken (h.imp id fun ⟨u, hu⟩ => ⟨u, (hthrough u).mp hu⟩)
  · intro hl hno
    show k.count s = 1 ∧ _
    rw [hcount]
    exact I.free hl fun u hu => hno u ((hthrough u).mpr hu)
  · intro hl u hu
    exact I.gone hl u ((hthrough u).mp hu)

omit decT decS finT finS in
/-- Where a task is tells whether it is through. -/
theorem through_of_place {pc : StealPc} (hp : x.place t = pc)
    (hpc : pc = .granted ∨ pc = .between ∨ pc = .hardening) : Through x t := by
  rcases hpc with rfl | rfl | rfl <;> simp only [Through, hp]

omit decT decS finT finS in
theorem not_through_of_place {pc : StealPc} (hp : x.place t = pc)
    (hpc : pc = .out ∨ pc = .entering ∨ pc = .hard) : ¬ Through x t := by
  rcases hpc with rfl | rfl | rfl <;> simp only [Through, hp, not_false_eq_true]

omit decS finT finS in
theorem place_of_ne {k : Kernel T S} {pc : StealPc} {u : T} (hu : u ≠ t) :
    (x.go k t pc).place u = x.place u :=
  Function.update_of_ne hu ..

omit decS finT finS in
theorem place_self {k : Kernel T S} {pc : StealPc} : (x.go k t pc).place t = pc :=
  Function.update_self ..

/-- A task outside the queue goes on outside it. -/
theorem SthInv.stays (I : SthInv s x L leaked) {k : Kernel T S} (pc : StealPc)
    (hb : k.blockedOn = x.kernel.blockedOn) (hw : k.wakeup = x.kernel.wakeup)
    (hp : x.place t ≠ .waiting) (hpc : pc ≠ .waiting) :
    (∀ h u, u ∈ L h ↔ h = .sem s ∧ (x.go k t pc).place u = .waiting ∧
      (x.go k t pc).kernel.blockedOn u ≠ .null) ∧
    ∀ u, (x.go k t pc).place u = .waiting → (x.go k t pc).kernel.blockedOn u ≠ .null →
      (x.go k t pc).kernel.wakeup u = false := by
  have hplace : ∀ u, (x.go k t pc).place u = .waiting ↔ x.place u = .waiting := by
    intro u
    by_cases hu : u = t
    · subst hu
      rw [place_self]
      exact ⟨fun h => absurd h hpc, fun h => absurd h hp⟩
    · rw [place_of_ne hu]
  constructor
  · intro h u
    rw [I.queued, hplace]
    show _ ↔ _ ∧ _ ∧ k.blockedOn u ≠ _
    rw [hb]
  · intro u hu hbu
    show k.wakeup u = false
    rw [hw]
    refine I.asleep u ((hplace u).mp hu) ?_
    rw [← hb]
    exact hbu

/-- **A WAIT** takes the count when the semaphore is free, and otherwise puts
    the task into the queue. -/
theorem SthInv.waits (I : SthInv s x L leaked) (hp : x.place t = .entering)
    {k : Kernel T S} {blocked : Bool} {pc : T → Pc T S}
    (h : sthsemWait x.kernel t s = some (k, blocked)) :
    ∃ L', SthInv s (x.go { k with pc := pc } t
      (if blocked then .waiting else .granted)) L' leaked := by
  have hnot : ¬ Through x t := not_through_of_place hp (Or.inr (Or.inl rfl))
  have hout : ∀ h', t ∉ L h' := by
    intro h' hm
    have := ((I.queued h' t).mp hm).2.1
    rw [hp] at this
    exact nomatch this
  simp only [sthsemWait, Function.update_self] at h
  split at h
  · next hneg =>
      -- the semaphore is taken, and the task goes into the queue
      obtain ⟨k₁, hk₁, h⟩ := Option.bind_eq_some_iff.mp h
      cases h
      obtain ⟨l₁, l₂, q, hL, rfl, R, -⟩ :=
        enqueueBlocked_spec hk₁ (by exact I.rings) hout
      have htaken : leaked = true ∨ ∃ u, Through x u := by
        by_contra hno
        rw [not_or] at hno
        have hfree := I.free (by simpa using hno.1) fun u hu => hno.2 ⟨u, hu⟩
        omega
      have hblocked : ∀ u, u ≠ t → Function.update x.kernel.blockedOn t
          (.queue (.sem s)) u = x.kernel.blockedOn u :=
        fun u hu => Function.update_of_ne hu ..
      refine ⟨Function.update L (.sem s) (l₁ ++ t :: l₂), ?_⟩
      rw [if_pos rfl]
      have hself : ¬ Through (x.go { x.kernel with
          count := Function.update x.kernel.count s (x.kernel.count s - 1)
          state := Function.update x.kernel.state t (x.kernel.state t ∪ {.semaphore})
          linux := Function.update x.kernel.linux t .asleep
          wakeup := Function.update x.kernel.wakeup t false
          ready := x.kernel.ready.unlink (.elem t)
          blockedOn := Function.update x.kernel.blockedOn t (.queue (.sem s))
          queue := q
          pc := pc } t .waiting) t := by
        simp only [Through, place_self]
        show ¬ Function.update x.kernel.blockedOn t _ t = _
        rw [Function.update_self]
        exact nofun
      have hthrough : ∀ u, Through (x.go { x.kernel with
          count := Function.update x.kernel.count s (x.kernel.count s - 1)
          state := Function.update x.kernel.state t (x.kernel.state t ∪ {.semaphore})
          linux := Function.update x.kernel.linux t .asleep
          wakeup := Function.update x.kernel.wakeup t false
          ready := x.kernel.ready.unlink (.elem t)
          blockedOn := Function.update x.kernel.blockedOn t (.queue (.sem s))
          queue := q
          pc := pc } t .waiting) u ↔ Through x u := by
        intro u
        by_cases hu : u = t
        · subst hu
          exact ⟨fun h => absurd h hself, fun h => absurd h hnot⟩
        · exact through_of_ne hu (hblocked u hu)
      constructor
      · exact R
      · intro h' u
        by_cases hu : u = t
        · subst hu
          rw [place_self]
          show _ ↔ _ ∧ _ ∧ Function.update _ _ _ _ ≠ _
          rw [Function.update_self]
          by_cases hh : h' = .sem s
          · subst hh
            rw [Function.update_self]
            exact ⟨fun _ => ⟨rfl, rfl, nofun⟩, fun _ => List.mem_append_cons_self⟩
          · rw [Function.update_of_ne hh]
            exact ⟨fun hm => absurd hm (hout h'), fun h => absurd h.1 hh⟩
        · rw [place_of_ne hu]
          show _ ↔ _ ∧ _ ∧ Function.update _ _ _ u ≠ _
          rw [hblocked u hu, ← I.queued]
          by_cases hh : h' = .sem s
          · subst hh
            rw [Function.update_self, hL]
            simp only [List.mem_append, List.mem_cons, hu, false_or]
          · rw [Function.update_of_ne hh]
      · intro u hu hb
        by_cases hut : u = t
        · subst hut
          exact Function.update_self ..
        · rw [place_of_ne hut] at hu
          refine (Function.update_of_ne hut ..).trans (I.asleep u hu ?_)
          rw [← hblocked u hut]
          exact hb
      · intro u v hu hv
        exact I.one u v ((hthrough u).mp hu) ((hthrough v).mp hv)
      · intro _
        show Function.update x.kernel.count s _ s = _
        rw [Function.update_self, Function.update_self, I.taken htaken, hL]
        simp only [List.length_append, List.length_cons]
        omega
      · intro hl hno
        rcases htaken with ht | ⟨u, hu⟩
        · rw [hl] at ht
          exact nomatch ht
        · exact absurd ((hthrough u).mpr hu) (hno u)
      · intro hl u hu
        exact I.gone hl u ((hthrough u).mp hu)
  · next hpos =>
      -- the semaphore is free
      cases h
      have hfree : leaked = false ∧ ∀ u, ¬ Through x u := by
        by_contra hno
        have htaken : leaked = true ∨ ∃ u, Through x u := by
          by_contra hn
          rw [not_or] at hn
          exact hno ⟨by simpa using hn.1, fun u hu => hn.2 ⟨u, hu⟩⟩
        have := I.taken htaken
        omega
      obtain ⟨hcount, hempty⟩ := I.free hfree.1 hfree.2
      refine ⟨L, ?_⟩
      rw [if_neg Bool.false_ne_true]
      have hstays := I.stays (t := t) .granted (k := { x.kernel with
        count := Function.update x.kernel.count s (x.kernel.count s - 1)
        pc := pc }) rfl rfl (by rw [hp]; decide) (by decide)
      have hself : Through (x.go { x.kernel with
          count := Function.update x.kernel.count s (x.kernel.count s - 1)
          pc := pc } t .granted) t :=
        through_of_place place_self (Or.inl rfl)
      have honly : ∀ u, Through (x.go { x.kernel with
          count := Function.update x.kernel.count s (x.kernel.count s - 1)
          pc := pc } t .granted) u → u = t := by
        intro u hu
        by_contra hut
        exact hfree.2 u ((through_of_ne (by exact hut) (by rfl)).mp hu)
      constructor
      · exact I.rings
      · exact hstays.1
      · exact hstays.2
      · intro u v hu hv
        rw [honly u hu, honly v hv]
      · intro _
        show Function.update x.kernel.count s _ s = _
        rw [Function.update_self, hcount, hempty]
        rfl
      · intro _ hno
        exact absurd hself (hno t)
      · intro hl
        rw [hfree.1] at hl
        exact nomatch hl

/-- A task that finds a signal pending goes away through. -/
theorem SthInv.leaves (I : SthInv s x L leaked) (hp : x.place t = .between) :
    SthInv s (x.go x.kernel t .out) L true := by
  have ht : Through x t := through_of_place hp (Or.inr (Or.inl rfl))
  have hno : ∀ u, ¬ Through (x.go x.kernel t .out) u := by
    intro u hu
    by_cases hut : u = t
    · subst hut
      exact not_through_of_place place_self (Or.inl rfl) hu
    · exact hut (I.one u t ((through_of_ne hut rfl).mp hu) ht)
  have hstays := I.stays (t := t) .out (k := x.kernel) rfl rfl (by rw [hp]; decide) (by decide)
  constructor
  · exact I.rings
  · exact hstays.1
  · exact hstays.2
  · intro u v hu
    exact absurd hu (hno u)
  · intro _
    exact I.taken (Or.inr ⟨t, ht⟩)
  · exact nofun
  · intro _
    exact hno

omit finT finS in
/-- What `sthsem_signal` does to the semaphore. -/
theorem sthsemSignal_effect {k k' : Kernel T S} {l : List T} {u : T}
    (R : Rings k.queue L) (hL : L (.sem s) = u :: l)
    (h : sthsemSignal k s = some k') :
    k'.count = Function.update k.count s (k.count s + 1) ∧
      k'.blockedOn = Function.update k.blockedOn u .null ∧
      Rings k'.queue (Function.update L (.sem s) l) ∧
      ∀ v, v ≠ u → k'.wakeup v = k.wakeup v := by
  have hfirst : k.queue.next (.head (.sem s)) = .elem u := by
    rw [R.next_head, hL]
    rfl
  have hunlink : Rings (k.queue.unlink (.elem u)) (Function.update L (.sem s) l) := by
    have hfront : L (.sem s) = [] ++ u :: l := hL
    exact R.unlink hfront
  simp only [sthsemSignal, hfirst, queueTask] at h
  split at h
  · split at h
    · cases h
      exact ⟨rfl, rfl, hunlink, fun v hv => Function.update_of_ne hv ..⟩
    · cases h
      exact ⟨rfl, rfl, hunlink, fun _ _ => rfl⟩
  · cases h
    exact ⟨rfl, rfl, hunlink, fun _ _ => rfl⟩

/-- **A SIGNAL** hands the semaphore to the first of the queue or frees it. -/
theorem SthInv.signals (I : SthInv s x L leaked) (hp : x.place t = .hardening)
    {k : Kernel T S} (h : sthsemSignal x.kernel s = some k) :
    ∃ L', SthInv s (x.go k t .hard) L' leaked := by
  have ht : Through x t := through_of_place hp (Or.inr (Or.inr rfl))
  have hself : ¬ Through (x.go k t .hard) t :=
    not_through_of_place place_self (Or.inr (Or.inr rfl))
  have hleaked : leaked = false := by
    cases hl : leaked with
    | false => rfl
    | true => exact absurd ht (I.gone hl t)
  have hcount := I.taken (Or.inr ⟨t, ht⟩)
  -- nobody waits, or the first in the queue goes through
  cases hL : L (.sem s) with
  | nil =>
    have hnext : x.kernel.queue.next (.head (.sem s)) = .head (.sem s) := by
      rw [I.rings.next_head, hL]
      rfl
    simp only [sthsemSignal, hnext, queueTask] at h
    cases h
    have hno : ∀ u, ¬ Through (x.go { x.kernel with
        count := Function.update x.kernel.count s 1 } t .hard) u := by
      intro u hu
      by_cases hut : u = t
      · subst hut
        exact hself hu
      · exact hut (I.one u t ((through_of_ne (by exact hut) (by rfl)).mp hu) ht)
    have hstays := I.stays (t := t) .hard (k := { x.kernel with
      count := Function.update x.kernel.count s 1 }) rfl rfl
      (by rw [hp]; decide) (by decide)
    refine ⟨L, ?_⟩
    constructor
    · exact I.rings
    · exact hstays.1
    · exact hstays.2
    · intro u v hu
      exact absurd hu (hno u)
    · rintro (hl | ⟨u, hu⟩)
      · rw [hleaked] at hl
        exact nomatch hl
      · exact absurd hu (hno u)
    · intro _ _
      exact ⟨Function.update_self .., hL⟩
    · intro _
      exact hno
  | cons u l =>
    obtain ⟨hc, hb, R, hw⟩ := sthsemSignal_effect I.rings hL h
    have hu : u ∈ L (.sem s) := by
      rw [hL]
      exact List.mem_cons_self
    obtain ⟨-, hplace, hblocked⟩ := (I.queued _ u).mp hu
    have hut : u ≠ t := by
      rintro rfl
      rw [hp] at hplace
      exact nomatch hplace
    have hnodup : u ∉ l := by
      have := I.rings.nodup (.sem s)
      rw [hL, List.nodup_cons] at this
      exact this.1
    have hthru : Through (x.go k t .hard) u := by
      simp only [Through, place_of_ne hut, hplace]
      show k.blockedOn u = _
      rw [hb, Function.update_self]
    have hbother : ∀ v, v ≠ u → k.blockedOn v = x.kernel.blockedOn v := by
      intro v hv
      rw [hb, Function.update_of_ne hv]
    -- the task that signals has gone, and one has come in its place
    have honly : ∀ v, Through (x.go k t .hard) v → v = u := by
      intro v hv
      by_contra hvu
      by_cases hvt : v = t
      · subst hvt
        exact hself hv
      · exact hvt (I.one v t ((through_of_ne hvt (hbother v hvu)).mp hv) ht)
    refine ⟨Function.update L (.sem s) l, ?_⟩
    constructor
    · exact R
    · intro h' v
      have hmem : v ∈ Function.update L (.sem s) l h' ↔ v ∈ L h' ∧ v ≠ u := by
        by_cases hh : h' = .sem s
        · subst hh
          rw [Function.update_self, hL, List.mem_cons]
          constructor
          · intro hv
            refine ⟨Or.inr hv, ?_⟩
            rintro rfl
            exact hnodup hv
          · rintro ⟨rfl | hv, hne⟩
            · exact absurd rfl hne
            · exact hv
        · rw [Function.update_of_ne hh]
          refine ⟨fun hv => ⟨hv, ?_⟩, fun hv => hv.1⟩
          rintro rfl
          exact hh ((I.queued h' v).mp hv).1
      rw [hmem, I.queued, and_assoc]
      refine and_congr_right fun _ => ?_
      show _ ↔ _ ∧ k.blockedOn v ≠ .null
      by_cases hvt : v = t
      · subst hvt
        rw [place_self, hp]
        exact ⟨fun h => (nomatch h.1.1), fun h => (nomatch h.1)⟩
      · rw [place_of_ne hvt]
        by_cases hvu : v = u
        · subst hvu
          rw [hb, Function.update_self]
          exact ⟨fun h => absurd rfl h.2, fun h => absurd rfl h.2⟩
        · rw [hbother v hvu]
          exact ⟨fun h => h.1, fun h => ⟨h, hvu⟩⟩
    · intro v hv hbv
      have hvu : v ≠ u := by
        rintro rfl
        exact hbv (by show k.blockedOn v = _; rw [hb, Function.update_self])
      have hvt : v ≠ t := by
        rintro rfl
        rw [place_self] at hv
        exact nomatch hv
      rw [place_of_ne hvt] at hv
      refine (hw v hvu).trans (I.asleep v hv ?_)
      rw [← hbother v hvu]
      exact hbv
    · intro v w hv hw'
      rw [honly v hv, honly w hw']
    · intro _
      show k.count s = _
      rw [hc, Function.update_self, Function.update_self, hcount, hL]
      simp only [List.length_cons]
      omega
    · intro _ hno
      exact absurd hthru (hno u)
    · intro hl
      rw [hleaked] at hl
      exact nomatch hl

/-- Going away through. -/
def leavesThrough : StealAction T → Bool
  | .check _ pending => pending
  | _ => false

/-- **One step keeps the invariant.** -/
theorem SthInv.step (I : SthInv s x L leaked) {a : StealAction T} {o : Unit}
    (h : stealStep s x a = some (x', o)) :
    ∃ L', SthInv s x' L' (leaked || leavesThrough a) := by
  have hkeep : ∀ {y : Steal T S}, (∃ L', SthInv s y L' leaked) →
      ∃ L', SthInv s y L' (leaked || false) := by
    intro y hy
    rw [Bool.or_false]
    exact hy
  cases a with
  | call t =>
    simp only [stealStep] at h
    split at h
    · next hp =>
        obtain ⟨k, hk, h⟩ := Option.bind_eq_some_iff.mp h
        cases h
        refine hkeep ⟨L, I.moves (rtScheduleSoft_aside hk) (by decide)
          (fun hw => by rw [hp] at hw; exact nomatch hw) ?_⟩
        exact iff_of_false (not_through_of_place place_self (Or.inr (Or.inl rfl)))
          (not_through_of_place hp (Or.inl rfl))
    · exact nomatch h
  | entered t =>
    simp only [stealStep] at h
    split at h
    · next hp =>
        obtain ⟨k, hk, h⟩ := Option.bind_eq_some_iff.mp h
        cases h
        refine hkeep ⟨L, I.moves (rtScheduleSoftEntered_aside hk) (by decide)
          (fun hw => by rw [hp] at hw; exact nomatch hw) ?_⟩
        exact iff_of_false (not_through_of_place place_self (Or.inr (Or.inl rfl)))
          (not_through_of_place hp (Or.inr (Or.inl rfl)))
    · exact nomatch h
  | wait t =>
    simp only [stealStep] at h
    split at h
    · next hp =>
        obtain ⟨⟨k, blocked⟩, hk, h⟩ := Option.bind_eq_some_iff.mp h
        cases h
        exact hkeep (I.waits hp.1 hk)
    · exact nomatch h
  | wake t =>
    simp only [stealStep] at h
    split at h
    · next hp =>
        obtain ⟨k, hk, h⟩ := Option.bind_eq_some_iff.mp h
        cases h
        obtain ⟨haside, hwake⟩ := softWake_aside hk
        -- only a task that has been taken out of the queue is woken
        have hnull : x.kernel.blockedOn t = .null := by
          by_contra hb
          rw [I.asleep t hp hb] at hwake
          exact nomatch hwake
        refine hkeep ⟨L, I.moves haside (by decide) (fun _ => hnull) ?_⟩
        refine iff_of_true (through_of_place place_self (Or.inl rfl)) ?_
        simp only [Through, hp, hnull]
    · exact nomatch h
  | tail t =>
    simp only [stealStep] at h
    split at h
    · next hp =>
        obtain ⟨k, hk, h⟩ := Option.bind_eq_some_iff.mp h
        cases h
        refine hkeep ⟨L, I.moves (rtScheduleSoftTail_aside hk) (by decide)
          (fun hw => by rw [hp] at hw; exact nomatch hw) ?_⟩
        exact iff_of_true (through_of_place place_self (Or.inr (Or.inl rfl)))
          (through_of_place hp (Or.inl rfl))
    · exact nomatch h
  | check t pending =>
    simp only [stealStep] at h
    split at h
    · next hp =>
        cases pending with
        | true =>
          rw [if_pos rfl] at h
          cases h
          refine ⟨L, ?_⟩
          rw [leavesThrough, Bool.or_true]
          exact I.leaves hp
        | false =>
          rw [if_neg Bool.false_ne_true] at h
          cases h
          refine hkeep ⟨L, I.moves (goHard_aside _ t) (by decide)
            (fun hw => by rw [hp] at hw; exact nomatch hw) ?_⟩
          exact iff_of_true (through_of_place place_self (Or.inr (Or.inr rfl)))
            (through_of_place hp (Or.inr (Or.inl rfl)))
    · exact nomatch h
  | signal t =>
    simp only [stealStep] at h
    split at h
    · next hp =>
        obtain ⟨k, hk, h⟩ := Option.bind_eq_some_iff.mp h
        cases h
        exact hkeep (I.signals hp hk)
    · exact nomatch h
  | giveBack t keeprio =>
    simp only [stealStep] at h
    split at h
    · next hp =>
        cases h
        refine hkeep ⟨L, I.moves (giveBackToLinux_aside _ t keeprio)
          (by decide) (fun hw => by rw [hp] at hw; exact nomatch hw) ?_⟩
        exact iff_of_false (not_through_of_place place_self (Or.inl rfl))
          (not_through_of_place hp (Or.inr (Or.inr rfl)))
    · exact nomatch h

theorem initSthsems_inv (cfg : Config T S) (s : S) :
    SthInv s (initSthsems cfg) (fun _ => []) false := by
  have hno : ∀ t, ¬ Through (initSthsems cfg) t := fun t =>
    not_through_of_place rfl (Or.inl rfl)
  constructor
  · exact Rings.empty
  · intro h t
    exact ⟨fun hm => absurd hm List.not_mem_nil, fun hw => nomatch hw.2.1⟩
  · exact fun _ _ _ => rfl
  · exact fun t _ ht => absurd ht (hno t)
  · rintro (hl | ⟨t, ht⟩)
    · exact nomatch hl
    · exact absurd ht (hno t)
  · exact fun _ _ => ⟨rfl, rfl⟩
  · exact nofun

end Steps

/-- **THE SWITCHES ARE SERIALISED IN EXACTLY THE RUNS IN WHICH NO TASK THAT HAS
    GOT THROUGH FINDS A LINUX SIGNAL PENDING**. -/
theorem steal_serial_iff (cfg : Config T S) (s : S) (x : Steal T S)
    (h : Reach (stealStep s) (fun _ _ => True) (initSthsems cfg) x) :
    Serial s x ↔ Reach (stealStep s) NoSignalPending (initSthsems cfg) x := by
  have hguard : Reach (stealStep s)
      (fun x a => True ∧ NoSignalPending x a) (initSthsems cfg) x ↔
      Reach (stealStep s) NoSignalPending (initSthsems cfg) x :=
    ⟨fun h => h.mono fun _ _ hg => hg.2, fun h => h.mono fun _ _ hg => ⟨trivial, hg⟩⟩
  have hinv := initSthsems_inv cfg s
  rw [← hguard]
  refine h.good_iff (I := fun x => ∃ L leaked, SthInv s x L leaked)
    ⟨_, _, hinv⟩ (hinv.serial_iff.mpr rfl) ?_ ?_
  · rintro y a y' o ⟨L, leaked, I⟩ - he
    obtain ⟨L', I'⟩ := I.step he
    exact ⟨L', _, I'⟩
  · rintro y a y' o ⟨L, leaked, I⟩ - he
    obtain ⟨L', I'⟩ := I.step he
    rw [I'.serial_iff, I.serial_iff, Bool.or_eq_false_iff]
    refine and_congr_right fun _ => ?_
    -- only the early return leaves a token behind
    cases a with
    | check t pending => exact Iff.rfl
    | _ => exact iff_of_true rfl trivial

/-- Two tasks on one CPU. -/
def twoSoft : Config Bool Unit where
  hard := fun _ => false
  priority := fun _ => 0
  receiver := fun _ => none
  schedlat := fun _ => 0
  linuxSchedlat := 0
  sems := fun _ => ⟨.binSem, 1, false⟩
  time := 0

/-- The second task waits for the first, and is woken by its signal. -/
theorem steal_serial_two : ∃ x, Reach (stealStep ()) NoSignalPending (initSthsems twoSoft) x ∧
      x.place false = .hard ∧ x.place true = .hardening ∧ Serial () x := by
  obtain ⟨x, hplay, h1, h2⟩ : ∃ x, play (stealStep ()) NoSignalPending (initSthsems twoSoft)
        [.call false, .wait false, .tail false, .call true, .wait true,
          .check false false, .signal false, .wake true, .tail true,
          .check true false] = some x ∧
      x.place false = .hard ∧ x.place true = .hardening :=
    ⟨_, rfl, rfl, rfl⟩
  have hr := reach_of_play hplay
  exact ⟨x, hr, h1, h2, (steal_serial_iff twoSoft () x (hr.mono fun _ _ _ => trivial)).mpr hr⟩

/-- **THE COUNT STAYS 0**: the task goes away without a signal, and nobody is
    through. -/
theorem steal_not_serial : ∃ x,
    Reach (stealStep ()) (fun _ _ => True) (initSthsems twoSoft) x ∧ ¬ Serial () x := by
  obtain ⟨x, hplay, h1, h2, hc⟩ : ∃ x,
      play (stealStep ()) (fun _ _ => True) (initSthsems twoSoft)
        [.call false, .wait false, .tail false, .check false true] = some x ∧
      x.place false = .out ∧ x.place true = .out ∧ x.kernel.count () = 0 :=
    ⟨_, rfl, rfl, rfl, rfl⟩
  refine ⟨x, reach_of_play hplay, fun h => ?_⟩
  have hno : ∀ t, ¬ Through x t := by
    intro t
    cases t with
    | false => exact not_through_of_place h1 (Or.inl rfl)
    | true => exact not_through_of_place h2 (Or.inl rfl)
  rw [(h.2 hno).1] at hc
  exact nomatch hc

end RtaiStealFromLinux
