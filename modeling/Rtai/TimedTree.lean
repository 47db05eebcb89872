import Rtai.Anchors
import Rtai.Timed
import Rtai.SearchTrees

/-! # The timed list with a red-black tree

    With `CONFIG_RTAI_LONG_TIMED_LIST` the tasks of the timed list are also the
    nodes of a tree, in which `enq_timed_task` looks for the neighbour of a task.
    The list, and what is done to the tasks, is the same in both versions. -/

namespace RtaiTimedTree

open RtaiRings RtaiKernel RtaiSchedCore RtaiTimed RtaiAnchors RtaiSearchTrees

/-- `rb_insert_color` and `rb_erase` of Linux. -/
structure Rb (T : Type) where
  insertColor : T → RtaiSearchTrees.Tree T → RtaiSearchTrees.Tree T
  erase : T → RtaiSearchTrees.Tree T → RtaiSearchTrees.Tree T

/-- Linux keeps the tree a search tree: recolouring and rotations leave the
    in-order sequence alone, and `rb_erase` takes the one node out of it. -/
structure Rb.InOrder {T : Type} [DecidableEq T] (rb : Rb T) : Prop where
  insertColor : ∀ x t, (rb.insertColor x t).inorder = t.inorder
  erase : ∀ x t, t.inorder.Nodup → x ∈ t.inorder → (rb.erase x t).inorder = t.inorder.erase x

variable {T S : Type} [decT : DecidableEq T] [decS : DecidableEq S] [finT : Fintype T]
  [finS : Fintype S]

/-- `timed_task->resume_time > tsknxt->resume_time` -/
def later (k : Kernel T S) (t u : T) : Bool := k.resumeTime t > k.resumeTime u

/-- `task`, which is `taskh` at first. -/
def taskNode : Option T → Node T Unit
  | some u => .elem u
  | none => .head ()

/-- The tree version of `enq_timed_task`. -/
def enqTimedTaskTree (rb : Rb T) (k : Kernel T S) (tree : RtaiSearchTrees.Tree T) (t : T) :
    Kernel T S × RtaiSearchTrees.Tree T :=
  let task := taskNode (tree.descend (later k t) none)
  ({ k with timed := k.timed.insertBefore (.elem t) task },
    rb.insertColor t (tree.link (later k t) t))

/-- `rem_timed_task`, with its `rb_erase_task`. -/
def remTimedTaskTree (rb : Rb T) (k : Kernel T S) (tree : RtaiSearchTrees.Tree T) (t : T) :
    Kernel T S × RtaiSearchTrees.Tree T :=
  if .delayed ∈ k.state t then
    ({ k with timed := k.timed.unlink (.elem t) }, rb.erase t tree)
  else (k, tree)

/-- The loop of `wake_up_timed_tasks`, with its `rb_erase_task`. -/
def wakeUpLoopTree (rb : Rb T) : Nat → Kernel T S → RtaiSearchTrees.Tree T → Node T Unit →
    Option (Kernel T S × RtaiSearchTrees.Tree T × Node T Unit)
  | 0, _, _, _ => none
  | _, _, _, .head _ => none
  | fuel + 1, k, tree, .elem t => do
      let k ← wakeUpTask k t
      let tree := rb.erase t tree
      let n := k.timed.next (.elem t)
      if timedResumeTime k n ≤ k.timeH then wakeUpLoopTree rb fuel k tree n
      else return (k, tree, n)

/-- `wake_up_timed_tasks`, with the tree. -/
def wakeUpTimedTasksTree (rb : Rb T) (k : Kernel T S) (tree : RtaiSearchTrees.Tree T) :
    Option (Kernel T S × RtaiSearchTrees.Tree T) :=
  let first := k.timed.next (.head ())
  if toRTIME (timedResumeTime k first - timedSchedlat k first) ≤ k.timeH then do
    let (k, tree, n) ← wakeUpLoopTree rb (taskFuel T) k tree first
    return ({ k with
      timed :=
        { next := Function.update k.timed.next (.head ()) n
          prev := Function.update k.timed.prev n (.head ()) } }, tree)
  else some (k, tree)

/-! ## Sequences of operations -/

/-- The operations on the timed list; `other` is anything that happens beside. -/
inductive TimedOp (T S : Type) where
  /-- A task is delayed to `time`. -/
  | insert (t : T) (time : Int)
  /-- `rem_timed_task`, after which a task is not delayed any more. -/
  | remove (t : T)
  | wakeUp (now : Int)
  | other (k : Kernel T S)

/-- The task is given its resume time and marked as delayed. -/
def delay (k : Kernel T S) (t : T) (time : Int) : Kernel T S :=
  { k with
    resumeTime := Function.update k.resumeTime t time
    state := Function.update k.state t (k.state t ∪ {.delayed}) }

/-- A task is not delayed any more. -/
def undelay (k : Kernel T S) (t : T) : Kernel T S :=
  { k with state := Function.update k.state t (k.state t \ {.delayed}) }

/-- An operation of the linear version. -/
def linearStep (k : Kernel T S) : TimedOp T S → Option (Kernel T S)
  | .insert t time => enqTimedTask (delay k t time) t
  | .remove t => some (undelay (remTimedTask k t) t)
  | .wakeUp now => wakeUpTimedTasks { k with timeH := now }
  | .other k => some k

/-- The same operation of the tree version. -/
def treeStep (rb : Rb T) (x : Kernel T S × RtaiSearchTrees.Tree T) :
    TimedOp T S → Option (Kernel T S × RtaiSearchTrees.Tree T)
  | .insert t time => some (enqTimedTaskTree rb (delay x.1 t time) x.2 t)
  | .remove t =>
    let x := remTimedTaskTree rb x.1 x.2 t
    some (undelay x.1 t, x.2)
  | .wakeUp now => wakeUpTimedTasksTree rb { x.1 with timeH := now } x.2
  | .other k => some (k, x.2)

/-- A task that is inserted is not in the list, and its time is not beyond the
    anchor; what happens beside leaves the list and its tasks alone. -/
def Called (k : Kernel T S) : TimedOp T S → Prop
  | .insert t time => .delayed ∉ k.state t ∧ time ≤ RTAI_TIME_LIMIT
  | .other k' => k'.timed = k.timed ∧ (∀ t, .delayed ∈ k'.state t ↔ .delayed ∈ k.state t) ∧
      ∀ t, .delayed ∈ k.state t → k'.resumeTime t = k.resumeTime t
  | _ => True

/-- The operations, on the list. -/
def runLinear : Kernel T S → List (TimedOp T S) → Option (Kernel T S)
  | k, [] => some k
  | k, op :: ops => (linearStep k op).bind fun k => runLinear k ops

/-- The operations, on the tree. -/
def runTree (rb : Rb T) : Kernel T S × RtaiSearchTrees.Tree T → List (TimedOp T S) →
      Option (Kernel T S × RtaiSearchTrees.Tree T)
  | x, [] => some x
  | x, op :: ops => (treeStep rb x op).bind fun x => runTree rb x ops

/-- Every operation is called rightly in the state in which it is called. -/
def Rightly : Kernel T S → List (TimedOp T S) → Prop
  | _, [] => True
  | k, op :: ops =>
    Called k op ∧
      match linearStep k op with
      | some k' => Rightly k' ops
      | none => True

/-- **THE TREE IS THE LIST**: its in-order sequence is the ring, which has the
    delayed tasks by their resume times. -/
structure Listed (k : Kernel T S) (tree : RtaiSearchTrees.Tree T) : Prop where
  ring : Rings k.timed fun _ => tree.inorder
  delayed : ∀ t, t ∈ tree.inorder ↔ .delayed ∈ k.state t
  sorted : tree.inorder.Pairwise fun a b => k.resumeTime a ≤ k.resumeTime b

/-! ## One operation -/

section Operations

variable {rb : Rb T} {k k' : Kernel T S} {tree : RtaiSearchTrees.Tree T} {t : T}

omit decT decS finT finS in
theorem Listed.nodup (L : Listed k tree) : tree.inorder.Nodup :=
  L.ring.nodup ()

omit decS finS in
/-- **BOTH VERSIONS FIND THE SAME NEIGHBOUR.** -/
theorem enqTimedTaskTree_eq (hrb : rb.InOrder)
    (R : Rings k.timed fun _ => tree.inorder) (hout : t ∉ tree.inorder)
    (hsort : tree.inorder.Pairwise fun a b => k.resumeTime a ≤ k.resumeTime b)
    (htime : k.resumeTime t ≤ RTAI_TIME_LIMIT) :
    ∃ timed tree' m₁ m₂, enqTimedTaskTree rb k tree t = ({ k with timed := timed }, tree') ∧
      enqTimedTask k t = some { k with timed := timed } ∧
      (Rings timed fun _ => tree'.inorder) ∧
      tree.inorder = m₁ ++ m₂ ∧ tree'.inorder = m₁ ++ t :: m₂ ∧
      tree'.inorder.Pairwise fun a b => k.resumeTime a ≤ k.resumeTime b := by
  obtain ⟨m₁, m₂, hl, h1, h2⟩ :=
    exists_first (fun u => decide (k.resumeTime t ≤ k.resumeTime u)) tree.inorder
  rw [hl] at hsort hout R
  have hbefore : ∀ u ∈ m₁, k.resumeTime u < k.resumeTime t := fun u hu =>
    not_le.mp (of_decide_eq_false (h1 u hu))
  have hafter : ∀ u ∈ m₂, k.resumeTime t ≤ k.resumeTime u := by
    cases m₂ with
    | nil => exact nofun
    | cons a l =>
      have ha : k.resumeTime t ≤ k.resumeTime a := of_decide_eq_true (h2 a rfl)
      have hal := (List.pairwise_append.mp hsort).2.1
      intro u hu
      rcases List.mem_cons.mp hu with rfl | hu
      · exact ha
      · exact le_trans ha (List.rel_of_pairwise_cons hal hu)
  have hright : ∀ u ∈ m₁, later k t u = true := fun u hu =>
    decide_eq_true (hbefore u hu)
  have hleft : ∀ u ∈ m₂, later k t u = false := fun u hu =>
    decide_eq_false (not_lt.mpr (hafter u hu))
  have hnode : k.resumeTime t ≤ timedResumeTime k (firstOf m₂ (.head ())) := by
    cases m₂ with
    | nil => exact htime
    | cons a l => exact hafter a List.mem_cons_self
  have htask : taskNode (tree.descend (later k t) none) = firstOf m₂ (.head ()) := by
    rw [Tree.descend_eq hl hright hleft]
    cases m₂ <;> rfl
  have hinorder : (rb.insertColor t (tree.link (later k t) t)).inorder = m₁ ++ t :: m₂ := by
    rw [hrb.insertColor, Tree.inorder_link hl hright hleft]
  refine ⟨_, _, m₁, m₂, rfl, ?_, ?_, hl, hinorder, ?_⟩
  · rw [htask]
    exact enqTimedTask_passes R hbefore hnode
  · rw [htask, hinorder]
    exact R.insert_single hout
  · rw [hinorder]
    exact RtaiReadyList.pairwise_insert hsort (fun a ha => le_of_lt (hbefore a ha)) hafter

/-- **AN INSERTION.** -/
theorem Listed.insert (L : Listed k tree) (hrb : rb.InOrder) {time : Int}
    (ht : .delayed ∉ k.state t) (htime : time ≤ RTAI_TIME_LIMIT) :
    ∃ k' tree', enqTimedTask (delay k t time) t = some k' ∧
      enqTimedTaskTree rb (delay k t time) tree t = (k', tree') ∧
      Listed k' tree' := by
  have hout : t ∉ tree.inorder := fun h => ht ((L.delayed t).mp h)
  have hself : (delay k t time).resumeTime t = time := Function.update_self ..
  -- only the task itself gets another time
  have hother : ∀ u ∈ tree.inorder, (delay k t time).resumeTime u = k.resumeTime u := by
    intro u hu
    have hne : u ≠ t := fun h => hout (h ▸ hu)
    exact Function.update_of_ne hne ..
  have hsort : tree.inorder.Pairwise fun a b =>
      (delay k t time).resumeTime a ≤ (delay k t time).resumeTime b :=
    L.sorted.imp_of_mem fun ha hb h => by rw [hother _ ha, hother _ hb]; exact h
  obtain ⟨timed, tree', m₁, m₂, htree, hlinear, hring, hl, hl', hsort'⟩ :=
    enqTimedTaskTree_eq (k := delay k t time) hrb L.ring hout hsort (hself.trans_le htime)
  refine ⟨_, tree', hlinear, htree, hring, fun u => ?_, hsort'⟩
  show u ∈ tree'.inorder ↔ .delayed ∈ Function.update k.state t (k.state t ∪ {.delayed}) u
  rw [hl']
  by_cases hut : u = t
  · rw [hut, Function.update_self]
    exact iff_of_true (List.mem_append_right _ List.mem_cons_self) (by simp)
  · rw [Function.update_of_ne hut, ← L.delayed u, hl]
    simp only [List.mem_append, List.mem_cons, hut, false_or]

/-- **A REMOVAL.** -/
theorem Listed.remove (L : Listed k tree) (hrb : rb.InOrder) (t : T) :
    (remTimedTaskTree rb k tree t).1 = remTimedTask k t ∧
      Listed (undelay (remTimedTaskTree rb k tree t).1 t)
        (remTimedTaskTree rb k tree t).2 := by
  unfold remTimedTaskTree remTimedTask
  by_cases hd : .delayed ∈ k.state t
  · rw [if_pos hd, if_pos hd]
    refine ⟨rfl, ?_⟩
    have hin := (L.delayed t).mpr hd
    have herase := hrb.erase t tree L.nodup hin
    have hring := L.ring.unlink_erase (h := ()) hin
    rw [update_unit] at hring
    constructor
    · rw [herase]
      exact hring
    · intro u
      show u ∈ (rb.erase t tree).inorder ↔
        .delayed ∈ Function.update k.state t (k.state t \ {.delayed}) u
      rw [herase]
      by_cases hut : u = t
      · rw [hut, Function.update_self]
        exact iff_of_false L.nodup.not_mem_erase (by simp)
      · rw [Function.update_of_ne hut, List.mem_erase_of_ne hut, L.delayed u]
    · rw [herase]
      exact L.sorted.sublist List.erase_sublist
  · rw [if_neg hd, if_neg hd]
    refine ⟨rfl, L.ring, fun u => ?_, L.sorted⟩
    show u ∈ tree.inorder ↔ .delayed ∈ Function.update k.state t (k.state t \ {.delayed}) u
    by_cases hut : u = t
    · rw [hut, Function.update_self, L.delayed t]
      exact iff_of_false hd (by simp)
    · rw [Function.update_of_ne hut]
      exact L.delayed u

/-- **THE LOOP** takes the same tasks out of the tree that it passes in the
    list. -/
theorem wakeUpLoopTree_eq (hrb : rb.InOrder) {l : List T} :
    ∀ (fuel : Nat) {k : Kernel T S} {tree : RtaiSearchTrees.Tree T} {l₀ l₁ : List T},
      (Rings k.timed fun _ : Unit => l) → l = l₀ ++ l₁ → tree.inorder = l₁ →
      (wakeUpLoop fuel k (firstOf l₁ (.head ())) = none ∧
        wakeUpLoopTree rb fuel k tree (firstOf l₁ (.head ())) = none) ∨
      ∃ k' tree' m₁ m₂, l₁ = m₁ ++ m₂ ∧ tree'.inorder = m₂ ∧
        wakeUpLoop fuel k (firstOf l₁ (.head ())) = some (k', firstOf m₂ (.head ())) ∧
        wakeUpLoopTree rb fuel k tree (firstOf l₁ (.head ())) =
          some (k', tree', firstOf m₂ (.head ())) ∧
        k'.timed = k.timed ∧ k'.resumeTime = k.resumeTime ∧
        ∀ u, Delayed k' u ↔ Delayed k u ∧ u ∉ m₁ := by
  intro fuel
  induction fuel with
  | zero => intro k tree l₀ l₁ _ _ _; exact Or.inl ⟨rfl, rfl⟩
  | succ fuel ih =>
    intro k tree l₀ l₁ R hl htree
    cases l₁ with
    | nil => exact Or.inl ⟨rfl, rfl⟩
    | cons t l₂ =>
      rw [firstOf_cons]
      unfold wakeUpLoop wakeUpLoopTree
      cases hw : wakeUpTask k t with
      | none => exact Or.inl ⟨rfl, rfl⟩
      | some k₁ =>
        obtain ⟨depth, -, hk⟩ := wakeUpTask_steady hw
        have htimed : k₁.timed = k.timed := hk.timed
        have hdel := hk.undelayed
        have R₁ : Rings k₁.timed fun _ : Unit => l := htimed ▸ R
        have hnext : k₁.timed.next (.elem t) = firstOf l₂ (.head ()) :=
          (R₁.elem_links (h := ()) hl).1
        have hnodup : (t :: l₂).Nodup := by
          have h := R.nodup ()
          rw [hl] at h
          exact (List.nodup_append.mp h).2.1
        have herase : (rb.erase t tree).inorder = l₂ := by
          rw [hrb.erase t tree (htree ▸ hnodup) (htree ▸ List.mem_cons_self),
            htree, List.erase_cons_head]
        simp only [Option.bind_eq_bind, Option.bind_some, hnext]
        by_cases hdue : timedResumeTime k₁ (firstOf l₂ (.head ())) ≤ k₁.timeH
        · rw [if_pos hdue, if_pos hdue]
          have hl' : l = (l₀ ++ [t]) ++ l₂ := by rw [hl]; simp
          rcases ih R₁ hl' herase with hnone | ⟨k', tree', m₁, m₂, h1, h2, h3, h4, h5, h6, h7⟩
          · exact Or.inl hnone
          · refine Or.inr ⟨k', tree', t :: m₁, m₂, by rw [h1]; rfl, h2, h3, h4,
              h5.trans htimed, h6.trans hk.resumeTime, fun u => ?_⟩
            rw [h7, hdel, List.mem_cons, not_or, and_assoc]
        · rw [if_neg hdue, if_neg hdue]
          refine Or.inr ⟨k₁, _, [t], l₂, rfl, herase, rfl, rfl, htimed,
            hk.resumeTime, fun u => ?_⟩
          rw [hdel, List.mem_singleton]

/-- **A WAKE UP.** -/
theorem Listed.wakeUp (L : Listed k tree) (hrb : rb.InOrder) :
    (wakeUpTimedTasks k = none ∧ wakeUpTimedTasksTree rb k tree = none) ∨
      ∃ k' tree', wakeUpTimedTasks k = some k' ∧
        wakeUpTimedTasksTree rb k tree = some (k', tree') ∧ Listed k' tree' := by
  unfold wakeUpTimedTasks wakeUpTimedTasksTree
  dsimp only
  rw [L.ring.next_head ()]
  split
  · rcases wakeUpLoopTree_eq hrb (taskFuel T) L.ring
      (show tree.inorder = [] ++ tree.inorder from rfl) rfl with
      ⟨h1, h2⟩ | ⟨k', tree', m₁, m₂, hl, hl', h1, h2, htimed, htime, hdel⟩
    · rw [h1, h2]
      exact Or.inl ⟨rfl, rfl⟩
    · rw [h1, h2]
      refine Or.inr ⟨_, tree', rfl, rfl, ?_⟩
      have hnodup : (m₁ ++ m₂).Nodup := hl ▸ L.nodup
      have hcut := L.ring.cut (h := ()) hl
      rw [update_unit, ← htimed] at hcut
      constructor
      · rw [hl']
        exact hcut
      · intro u
        show u ∈ tree'.inorder ↔ Delayed k' u
        rw [hl', hdel u]
        have hdelayed : u ∈ tree.inorder ↔ Delayed k u := L.delayed u
        rw [← hdelayed, hl, List.mem_append]
        constructor
        · intro hu
          exact ⟨Or.inr hu, fun h => (List.nodup_append.mp hnodup).2.2 u h u hu rfl⟩
        · exact fun h => h.1.resolve_left h.2
      · show tree'.inorder.Pairwise fun a b => k'.resumeTime a ≤ k'.resumeTime b
        rw [hl', htime]
        have hsort := L.sorted
        rw [hl] at hsort
        exact (List.pairwise_append.mp hsort).2.1
  · exact Or.inr ⟨k, tree, rfl, rfl, L⟩

/-- **ONE OPERATION OF BOTH VERSIONS.** -/
theorem Listed.step (L : Listed k tree) (hrb : rb.InOrder) {op : TimedOp T S}
    (hc : Called k op) :
    (linearStep k op = none ∧ treeStep rb (k, tree) op = none) ∨
      ∃ k' tree', linearStep k op = some k' ∧
        treeStep rb (k, tree) op = some (k', tree') ∧ Listed k' tree' := by
  cases op with
  | insert t time =>
    obtain ⟨k', tree', h1, h2, L'⟩ := L.insert hrb hc.1 hc.2
    exact Or.inr ⟨k', tree', h1, congrArg some h2, L'⟩
  | remove t =>
    obtain ⟨h1, L'⟩ := L.remove hrb t
    refine Or.inr ⟨_, _, ?_, rfl, L'⟩
    show some (undelay (remTimedTask k t) t) = _
    rw [← h1]
  | wakeUp now =>
    have L' : Listed { k with timeH := now } tree := ⟨L.ring, L.delayed, L.sorted⟩
    exact L'.wakeUp hrb
  | other k' =>
    obtain ⟨htimed, hdel, htime⟩ := hc
    refine Or.inr ⟨k', tree, rfl, rfl, ?_, fun u => ?_, ?_⟩
    · rw [htimed]
      exact L.ring
    · rw [hdel u]
      exact L.delayed u
    · refine L.sorted.imp_of_mem fun ha hb h => ?_
      rw [htime _ ((L.delayed _).mp ha), htime _ ((L.delayed _).mp hb)]
      exact h

/-- **THE TWO TIMED LISTS AGREE**: every sequence of operations leads to the same
    list, and to the same tasks, in both versions; and the in-order sequence of
    the tree is that list. -/
theorem timed_lists_agree (rb : Rb T) (hrb : rb.InOrder) (ops : List (TimedOp T S))
    (k : Kernel T S) (tree : RtaiSearchTrees.Tree T) (L : Listed k tree) (hops : Rightly k ops) :
    (runTree rb (k, tree) ops).map Prod.fst = runLinear k ops ∧
      ∀ k' tree', runTree rb (k, tree) ops = some (k', tree') → Listed k' tree' := by
  induction ops generalizing k tree with
  | nil =>
    refine ⟨rfl, fun k' tree' h => ?_⟩
    cases h
    exact L
  | cons op ops ih =>
    unfold runTree runLinear
    -- both fail, or both go on to lists that agree
    rcases L.step hrb hops.1 with ⟨h1, h2⟩ | ⟨k', tree', h1, h2, L'⟩
    · rw [h1, h2]
      exact ⟨rfl, nofun⟩
    · have hrest := hops.2
      rw [h1] at hrest
      rw [h1, h2]
      exact ih k' tree' L' hrest

end Operations

/-- A tree that hangs to the right. -/
def spine {T : Type} : List T → RtaiSearchTrees.Tree T
  | [] => .leaf
  | x :: l => .node .leaf false x (spine l)

theorem inorder_spine {T : Type} (l : List T) : (spine l).inorder = l := by
  induction l with
  | nil => rfl
  | cons x l ih =>
    show [] ++ x :: (spine l).inorder = x :: l
    rw [ih, List.nil_append]

/-- The root is made black. -/
def blacken {T : Type} : RtaiSearchTrees.Tree T → RtaiSearchTrees.Tree T
  | .leaf => .leaf
  | .node l _ x r => .node l false x r

/-- What Linux does with trees of one or two nodes. -/
def smallRb : Rb (Fin 2) where
  insertColor := fun _ tree => blacken tree
  erase := fun x tree => spine (tree.inorder.erase x)

theorem smallRb_inOrder : smallRb.InOrder where
  insertColor := by
    intro x t
    cases t <;> rfl
  erase := fun x t _ _ => inorder_spine (t.inorder.erase x)

/-- Two tasks and an empty list. -/
def twoTasks : Kernel (Fin 2) Unit :=
  boot ⟨fun _ => true, fun _ => 0, fun _ => none, fun _ => 0, 0,
    fun _ => ⟨.cntSem, 0, false⟩, 0⟩

/-- Two tasks with the same time, one of which is removed; then the other one is
    woken up. -/
def twoOps : List (TimedOp (Fin 2) Unit) := [.insert 0 5, .insert 1 5, .remove 0, .wakeUp 5]

theorem timed_lists_agree_two :
    ∃ k tree, runTree smallRb (twoTasks, .leaf) twoOps = some (k, tree) ∧
      runLinear twoTasks twoOps = some k ∧ Listed k tree ∧ tree.inorder = [] := by
  have hlisted : Listed twoTasks .leaf :=
    ⟨Rings.empty, fun t => iff_of_false List.not_mem_nil (by decide +revert),
      List.Pairwise.nil⟩
  have hright : Rightly twoTasks twoOps :=
    ⟨⟨by decide, by decide⟩, ⟨by decide, by decide⟩, trivial, trivial, trivial⟩
  obtain ⟨hsame, hkept⟩ :=
    timed_lists_agree smallRb smallRb_inOrder twoOps twoTasks .leaf hlisted hright
  obtain ⟨k, tree, hrun, hempty⟩ : ∃ k tree,
      runTree smallRb (twoTasks, .leaf) twoOps = some (k, tree) ∧ tree.inorder = [] :=
    ⟨_, _, rfl, rfl⟩
  refine ⟨k, tree, hrun, ?_, hkept k tree hrun, hempty⟩
  rw [← hsame, hrun]
  rfl

end RtaiTimedTree
