import Rtai.Minima
import Rtai.Steps

/-! # The priority that owned semaphores give

    `_set_task_prio_from_resq` goes through the semaphores that a task owns in
    the order in which the task has got them, and ends at the first one that
    nobody waits for or whose first waiter does not improve the priority. -/

namespace RtaiOwnedPrio

open RtaiRings RtaiKernel RtaiPrioInher RtaiRuns RtaiSteps RtaiMinima

variable {T S : Type} {k : Kernel T S} {t : T} {owned : List S} {waiting : S → List T}

/-- The semaphores that a task owns, in the order of `task->resq`, and the
    tasks in their wait queues. -/
structure Owns (k : Kernel T S) (t : T) (owned : List S) (waiting : S → List T) :
    Prop where
  resq : Chain k.resq (.head t) owned (.head t)
  queues : ∀ s ∈ owned, Chain k.queue (.head (.sem s)) (waiting s) (.head (.sem s))

/-- The wait queues are in the order of the priorities. -/
def InOrder (k : Kernel T S) (owned : List S) (waiting : S → List T) : Prop :=
  ∀ s ∈ owned, (waiting s).Pairwise fun u v => k.priority u ≤ k.priority v

/-- The priority of the first waiter, if there is one. -/
def firstPriority (k : Kernel T S) (waiting : S → List T) (s : S) : Option Int :=
  (waiting s).head?.map k.priority

/-- `base_priority` and the priorities of the first waiters. -/
def firstPriorities (k : Kernel T S) (t : T) (owned : List S)
    (waiting : S → List T) : Set Int :=
  insert (k.basePriority t) (keys (firstPriority k waiting) owned)

/-! ## The loop -/

/-- **`RESQEL_TASK`** is the first waiter. -/
theorem resqelTask_eq {s : S} {l : List T}
    (hl : Chain k.queue (.head (.sem s)) l (.head (.sem s))) :
    resqelTask k s = l.head?.elim .null .task := by
  rw [resqelTask, hl.next_eq]
  cases l with
  | nil => rfl
  | cons u l => rfl

variable [DecidableEq T]

/-- **THE LOOP** goes down the owned semaphores. -/
theorem resqScan_chain : ∀ {owned : List S} {n : Node S T} {fuel : Nat} {hprio : Int},
      Chain k.resq n owned (.head t) →
      (∀ s ∈ owned, Chain k.queue (.head (.sem s)) (waiting s) (.head (.sem s))) →
      owned.length < fuel →
      resqScan k t fuel (k.resq.next n) hprio =
        some (descend (firstPriority k waiting) hprio owned) := by
  intro owned
  induction owned with
  | nil =>
    intro n fuel hprio hc _ hf
    obtain ⟨fuel, rfl⟩ := Nat.exists_eq_succ_of_ne_zero (Nat.ne_of_gt hf)
    rw [hc.1, resqScan, if_pos rfl, descend]
  | cons s owned ih =>
    intro n fuel hprio hc hq hf
    obtain ⟨fuel, rfl⟩ := Nat.exists_eq_succ_of_ne_zero
      (Nat.ne_of_gt ((Nat.zero_le _).trans_lt hf))
    have htask := resqelTask_eq (hq s (List.mem_cons_self ..))
    rw [hc.1, resqScan, htask, descend, firstPriority]
    cases hw : (waiting s).head? with
    | none => rfl
    | some u =>
      dsimp only [Option.elim_some, Option.map_some]
      by_cases hu : k.priority u < hprio
      · rw [if_pos hu, if_pos hu]
        exact ih hc.2.2 (fun r hr => hq r (List.mem_cons_of_mem _ hr))
          (Nat.lt_of_succ_lt_succ hf)
      · rw [if_neg hu, if_neg hu]

theorem scan_eq [Fintype T] [Fintype S] (h : Owns k t owned waiting) :
    setTaskPrioFromResqScan k t =
      some (descend (firstPriority k waiting) (k.basePriority t) owned) := by
  have hlen : owned.length ≤ Fintype.card S := h.resq.nodup.length_le_card
  exact resqScan_chain h.resq h.queues (by omega)

/-! ## When it is the minimum -/

variable [Fintype T] [Fintype S]

/-- **THE MINIMUM IS FOUND** if and only if the semaphores whose first waiter
    improves the priority come first. -/
theorem owned_priority_iff (h : Owns k t owned waiting) :
    ∃ p, setTaskPrioFromResqScan k t = some p ∧
      (IsLeast (firstPriorities k t owned waiting) p ↔
        ImproversFirst (firstPriority k waiting) (k.basePriority t) owned) :=
  ⟨_, scan_eq h, descend_isLeast_iff _ owned (k.basePriority t)⟩

/-! ## Three resources -/

/-- Two tasks and three resources.  Task 1 is the more urgent one. -/
def threeResources : Config (Fin 2) (Fin 3) where
  hard := fun _ => true
  priority := fun t => if t = 0 then 10 else 3
  receiver := fun _ => none
  schedlat := fun _ => 0
  linuxSchedlat := 0
  sems := fun _ => { kind := .resSem 1, value := 1, fifo := false }
  time := 0

/-- Task 0 takes the three resources in turn; then task 1 waits for one. -/
def waitsFor (s : Fin 3) : List (RtaiSteps.Action (Fin 2) (Fin 3)) :=
  [.linux (.resume 0), .dispatch 0, .call 0 (.semWait 0), .call 0 (.semWait 1),
    .call 0 (.semWait 2), .linux (.resume 1), .dispatch 1, .call 1 (.semWait s)]

/-- One task waits for `s`. -/
def waitsOnly (s r : Fin 3) : List (Fin 2) := if r = s then [1] else []

/-- Task 1 waits for the resource that task 0 has taken first. -/
theorem owned_priority_first : ∃ k : Kernel (Fin 2) (Fin 3),
    Reach exec (fun _ _ => True) (boot threeResources) k ∧
      setTaskPrioFromResqScan k 0 = some 3 ∧
      IsLeast (firstPriorities k 0 [0, 1, 2] (waitsOnly 0)) 3 := by
  obtain ⟨k, hplay, hbase, hprio, hscan, howns⟩ : ∃ k,
      play exec (fun _ _ => True) (boot threeResources) (waitsFor 0) = some k ∧
        k.basePriority 0 = 10 ∧ k.priority 1 = 3 ∧
        setTaskPrioFromResqScan k 0 = some 3 ∧
        Owns k 0 [0, 1, 2] (waitsOnly 0) := by
    refine ⟨_, rfl, rfl, rfl, rfl, ⟨rfl, rfl, rfl, rfl, rfl, rfl, rfl, rfl⟩, ?_⟩
    intro s hs
    fin_cases hs
    · exact ⟨rfl, rfl, rfl, rfl⟩
    · exact ⟨rfl, rfl⟩
    · exact ⟨rfl, rfl⟩
  obtain ⟨p, hp, hiff⟩ := owned_priority_iff howns
  have hfirst : firstPriority k (waitsOnly 0) 0 = some 3 :=
    congrArg some hprio
  have hrest : ¬ Improves (firstPriority k (waitsOnly 0)) 3 [] 1 := fun ⟨_, hq, _⟩ => nomatch hq
  have hleast := hiff.mpr (by
    rw [hbase, improversFirst_cons_of_lt hfirst (by decide), improversFirst_cons_of_not hrest]
    intro y hy q hq
    obtain rfl := List.mem_singleton.mp hy
    exact nomatch hq)
  obtain rfl : p = 3 := Option.some.inj (hp.symm.trans hscan)
  exact ⟨k, reach_of_play hplay, hp, hleast⟩

/-- **AN URGENT WAITER IS IGNORED**: it waits for the second resource, nobody
    waits for the first, and task 0 gets its base priority back when it gives
    up the third. -/
theorem urgent_waiter_ignored : ∃ k : Kernel (Fin 2) (Fin 3),
    Reach exec (fun _ _ => True) (boot threeResources) k ∧ Owns k 0 [0, 1] (waitsOnly 1) ∧
      InOrder k [0, 1] (waitsOnly 1) ∧
      k.priority 0 = 10 ∧ setTaskPrioFromResqScan k 0 = some 10 ∧
      ¬ IsLeast (firstPriorities k 0 [0, 1] (waitsOnly 1)) 10 := by
  obtain ⟨k, hplay, howns, hprio, hown, hscan⟩ : ∃ k,
      play exec (fun _ _ => True) (boot threeResources)
        (waitsFor 1 ++ [.dispatch 0, .call 0 (.semSignal 2)]) = some k ∧
        Owns k 0 [0, 1] (waitsOnly 1) ∧
        k.priority 1 = 3 ∧ k.priority 0 = 10 ∧
        setTaskPrioFromResqScan k 0 = some 10 := by
    refine ⟨_, rfl, ⟨⟨rfl, rfl, rfl, rfl, rfl, rfl⟩, ?_⟩, rfl, rfl, rfl⟩
    intro s hs
    fin_cases hs
    · exact ⟨rfl, rfl⟩
    · exact ⟨rfl, rfl, rfl, rfl⟩
  refine ⟨k, reach_of_play hplay, howns, ?_, hown, hscan, fun h => ?_⟩
  · intro s hs
    fin_cases hs
    · exact List.Pairwise.nil
    · exact List.pairwise_singleton _ _
  · have hmem : (3 : Int) ∈ firstPriorities k 0 [0, 1] (waitsOnly 1) :=
      Or.inr ⟨1, by decide, congrArg some hprio⟩
    exact absurd (h.2 hmem) (by decide)

end RtaiOwnedPrio
