import Rtai.ReadyList
import Rtai.Steps
import Rtai.WaitQueues

/-! # Priority passing ends

    `pass_prio` from any state whose lists are well formed, whoever owns what.  What
    the walk does to the queues is said round by round in `RtaiWaitQueues`; here the
    rounds are counted.

    The head of a queue has a task that the walk goes on with, and for the
    `ret_queue` of a task that waits in a receive it is the marker `RTP_HIGERR`. -/

namespace RtaiPassPrio

open RtaiRings RtaiKernel RtaiSchedCore RtaiWaitQueues RtaiReadyList
open RtaiRuns RtaiSteps

variable {T S : Type} [decT : DecidableEq T] [decS : DecidableEq S] [finT : Fintype T]
  [finS : Fintype S]

/-- The tasks whose priority `passLoop` sets, in the order in which it does. -/
def visits : Nat → Kernel T S → TaskPtr T → Int → List T
  | fuel + 1, k, .task t, priority =>
    if k.priority t > priority then
      match givePriority k t priority with
      | some (k, next) => t :: visits fuel k next priority
      | none => [t]
    else []
  | _, _, _, _ => []

/-- The bits of a task in a wait queue. -/
def waiting : TaskState := {.semaphore, .send, .rpc, .ret}

/-- **WELL FORMED LISTS**: `L h` is the queue of `h`, and a task that waits and has a
    pointer in `blocked_on` is in that queue; `l` is the ready list, with all hard
    tasks that are ready; and a priority is an `int`. -/
structure WellFormed (k : Kernel T S) (L : Head T S → List T) (l : List T) : Prop where
  queues : Rings k.queue L
  blocked : ∀ t, (k.blockedOn t).isPtr = true → ¬Disjoint (k.state t) waiting →
    ∃ h, k.blockedOn t = .queue h ∧ t ∈ L h ∧ (.semaphore ∈ k.state t ↔ ∃ s, h = .sem s)
  ready : Rings k.ready fun _ => l
  linked : ∀ t, k.isHard t = true → k.state t = {.ready} → t ∈ l
  priority : ∀ t, k.priority t ≤ RT_SCHED_LINUX_PRIORITY

/-- What has been passed on, to the tasks of `ts` and to no other one. -/
structure Passed (k : Kernel T S) (L : Head T S → List T) (p : Int) (ts : List T)
    (k' : Kernel T S) (L' : Head T S → List T) : Prop where
  once : ts.Nodup
  given : ∀ t ∈ ts, p < k.priority t ∧ k'.priority t = p
  kept : ∀ t, t ∉ ts → k'.priority t = k.priority t
  queues : Rings k'.queue L'
  perm : ∀ h, (L' h).Perm (L h)
  order : ∀ h, (L' h).filter (· ∉ ts) = (L h).filter (· ∉ ts)

/-- The way of the walk through the queues `hs`: each task has a priority above `p`,
    is blocked in a queue that the walk has not been in, and is the first of it, or
    will be; the next task is the one the queue names. -/
inductive Way (k : Kernel T S) (L : Head T S → List T) (p : Int) :
    TaskPtr T → List (Head T S) → TaskPtr T → Prop where
  | here (dest : TaskPtr T) : Way k L p dest [] dest
  | on {t : T} {h : Head T S} {hs : List (Head T S)} {next dest : TaskPtr T}
      (hp : p < k.priority t) (hready : k.state t ≠ {.ready})
      (hq : inPriorityQueue k t = some true) (hb : k.blockedOn t = .queue h)
      (hfirst : ∀ a ∈ (L h).head?, a = t ∨ p < k.priority a)
      (hnext : nextOwner k t = some next) (hnew : h ∉ hs)
      (rest : Way k L p next hs dest) : Way k L p (.task t) (h :: hs) dest

section Rounds

variable {k k₁ k' : Kernel T S} {L L₁ L' : Head T S → List T} {l : List T} {t : T}
  {p : Int} {next dest : TaskPtr T} {h : Head T S} {hs : List (Head T S)}

/-! ## The functions of a round are defined -/

omit decT decS finT finS in
theorem waiting_of_inPriorityQueue (hq : inPriorityQueue k t = some true) :
    (k.blockedOn t).isPtr = true ∧ ¬Disjoint (k.state t) waiting := by
  have hsub : msgFlags ⊆ waiting := by decide
  unfold inPriorityQueue at hq
  split at hq
  · next hptr =>
      refine ⟨hptr, fun hd => ?_⟩
      split at hq
      · next hsem =>
          exact Finset.disjoint_left.mp hd hsem (by decide)
      · have hbits : ¬Disjoint (k.state t) msgFlags := of_decide_eq_true (Option.some.inj hq)
        exact hbits (Finset.disjoint_of_subset_right hsub hd)
  · exact nomatch hq

omit decT decS finT finS in
theorem WellFormed.queued (W : WellFormed k L l) : QueuedWhereBlocked k L := by
  intro t h hq hb
  obtain ⟨hptr, hbits⟩ := waiting_of_inPriorityQueue hq
  obtain ⟨h', hb', hmem, -⟩ := W.blocked t hptr hbits
  obtain rfl := BlockedOn.queue.inj (hb.symm.trans hb')
  exact hmem

omit decT decS finT finS in
theorem WellFormed.inPriorityQueue_defined (W : WellFormed k L l) (t : T) :
    ∃ b, inPriorityQueue k t = some b := by
  unfold inPriorityQueue
  by_cases hptr : (k.blockedOn t).isPtr = true
  · rw [if_pos hptr]
    by_cases hsem : .semaphore ∈ k.state t
    · rw [if_pos hsem]
      obtain ⟨h, hb, -, hiff⟩ := W.blocked t hptr fun hd =>
        Finset.disjoint_left.mp hd hsem (by decide)
      obtain ⟨s, rfl⟩ := hiff.mp hsem
      rw [hb]
      exact ⟨_, rfl⟩
    · rw [if_neg hsem]
      exact ⟨_, rfl⟩
  · rw [if_neg hptr]
    exact ⟨_, rfl⟩

omit decT decS finT finS in
/-- A task in a priority queue names the next one. -/
theorem WellFormed.nextOwner_defined (W : WellFormed k L l)
    (hq : inPriorityQueue k t = some true) :
    ∃ h next, k.blockedOn t = .queue h ∧ t ∈ L h ∧ nextOwner k t = some next := by
  obtain ⟨hptr, hbits⟩ := waiting_of_inPriorityQueue hq
  obtain ⟨h, hb, hmem, hiff⟩ := W.blocked t hptr hbits
  have hnext : ∃ next, nextOwner k t = some next := by
    unfold nextOwner
    rw [hb]
    cases h with
    | sem s =>
      dsimp only
      split
      · split <;> exact ⟨_, rfl⟩
      · exact ⟨_, rfl⟩
    | msg u =>
      have hsem : .semaphore ∉ k.state t := fun hs => by
        obtain ⟨s, hs⟩ := hiff.mp hs
        exact nomatch hs
      exact ⟨_, if_neg hsem⟩
    | ret u =>
      have hsem : .semaphore ∉ k.state t := fun hs => by
        obtain ⟨s, hs⟩ := hiff.mp hs
        exact nomatch hs
      exact ⟨_, if_neg hsem⟩
  obtain ⟨next, hnext⟩ := hnext
  exact ⟨h, next, hb, hmem, hnext⟩

omit decT decS in
theorem queue_short (R : Rings k.queue L) {h : Head T S} {l₁ l₂ : List T}
    (hL : L h = l₁ ++ l₂) : l₂.length < queueFuel T S := by
  have hnd := R.nodup h
  rw [hL] at hnd
  have hle := (List.nodup_append.mp hnd).2.1.length_le_card
  unfold queueFuel
  omega

/-- The scan of a wait queue ends. -/
theorem reposition_defined (R : Rings k.queue L) (ht : t ∈ L h) :
    ∃ k', reposition k t h p = some k' := by
  obtain ⟨l₁, l₂, hL⟩ := List.append_of_mem ht
  have R' := R.unlink hL
  have hwalk : ∃ pos, queuePos { k with queue := k.queue.unlink (.elem t) } h p =
      some pos := by
    unfold queuePos
    rw [R'.next_head h]
    refine R'.walk_ends (if_pos rfl) (fun a => ?_) (List.nil_append _).symm
      (queue_short (k := { k with queue := k.queue.unlink (.elem t) }) R'
        (List.nil_append _).symm)
    unfold queueStop
    rw [if_neg (elem_ne_head a h)]
    exact Option.some_ne_none _
  obtain ⟨pos, hpos⟩ := hwalk
  unfold reposition
  dsimp only
  rw [hpos]
  exact ⟨_, rfl⟩

/-- **A ROUND RETURNS.** -/
theorem WellFormed.givePriority_defined (W : WellFormed k L l)
    (hp : p < RT_SCHED_LINUX_PRIORITY) (t : T) :
    ∃ k' next, givePriority k t p = some (k', next) := by
  unfold givePriority
  dsimp only
  by_cases hready : k.state t = {.ready}
  · rw [if_pos hready]
    by_cases hmove : readyPriority { k with
          priority := Function.update k.priority t p } (k.ready.prev (.elem t)) > p ∨
        readyPriority { k with
          priority := Function.update k.priority t p } (k.ready.next (.elem t)) < p
    · rw [if_pos hmove]
      have henq : ∃ k', enqReadyTask { k with
          priority := Function.update k.priority t p
          ready := k.ready.unlink (.elem t) } t = some k' := by
        by_cases hhard : k.isHard t = true
        · obtain ⟨l₁, l₂, hl⟩ := List.append_of_mem (W.linked t hhard hready)
          have hring := W.ready
          have hnd := W.ready.nodup ()
          rw [hl] at hring hnd
          have hle : (l₁ ++ l₂).length ≤ Fintype.card T := by
            refine List.Nodup.length_le_card ?_
            rw [List.nodup_middle] at hnd
            exact (List.nodup_cons.mp hnd).2
          refine enqReadyTask_returns (k := { k with
            priority := Function.update k.priority t p
            ready := k.ready.unlink (.elem t) }) hring.unlink_single hle rfl t ?_
          show Function.update k.priority t p t < _
          rw [Function.update_self]
          exact hp
        · exact ⟨_, if_neg hhard⟩
      obtain ⟨k', henq⟩ := henq
      rw [henq]
      exact ⟨_, _, rfl⟩
    · rw [if_neg hmove]
      exact ⟨_, _, rfl⟩
  · rw [if_neg hready]
    obtain ⟨b, hb⟩ := W.inPriorityQueue_defined t
    have hb' : inPriorityQueue { k with
        priority := Function.update k.priority t p } t = some b := hb
    rw [hb']
    cases b with
    | false => exact ⟨_, _, rfl⟩
    | true =>
      obtain ⟨h, next, hblocked, hmem, hnext⟩ := W.nextOwner_defined hb
      obtain ⟨k₁, hmoved⟩ := @reposition_defined _ _ _ _ _ _
        { k with priority := Function.update k.priority t p } L t p h W.queues hmem
      have hnext' : nextOwner { k with
          priority := Function.update k.priority t p } t = some next := hnext
      have hnext₁ : nextOwner k₁ t = some next := by
        unfold reposition at hmoved
        obtain ⟨pos, -, hmoved⟩ := Option.bind_eq_some_iff.mp hmoved
        cases hmoved
        exact hnext
      simp only [Option.bind_eq_bind, Option.bind_some, if_true, hblocked]
      split
      · rw [hnext']
        exact ⟨_, _, rfl⟩
      · rw [hmoved]
        dsimp only [Option.bind_eq_bind, Option.bind_some]
        split
        · rw [hnext₁]
          exact ⟨_, _, rfl⟩
        · exact ⟨_, _, rfl⟩

/-! ## What a round does -/

/-- One task has been given the priority, and has moved in its queue at most. -/
structure Round (k : Kernel T S) (L : Head T S → List T) (t : T) (p : Int)
    (k₁ : Kernel T S) (L₁ : Head T S → List T) : Prop where
  priority : k₁.priority = Function.update k.priority t p
  queues : Rings k₁.queue L₁
  perm : ∀ h, (L₁ h).Perm (L h)
  order : ∀ h, (L₁ h).filter (· ≠ t) = (L h).filter (· ≠ t)

omit decS finT finS in
theorem filter_middle (l₁ l₂ : List T) :
    (l₁ ++ t :: l₂).filter (· ≠ t) = (l₁ ++ l₂).filter (· ≠ t) := by
  rw [List.filter_append, List.filter_append, List.filter_cons_of_neg (by simp)]

omit finT finS in
theorem round_of_gives (G : Gives k L t p k₁ L₁ next) (R : Rings k₁.queue L₁) :
    Round k L t p k₁ L₁ := by
  have hperm := G.perm
  cases G with
  | ready _ hL _ hk =>
    obtain ⟨_, _, _, _, _, _, _, _, _, _, _, rfl, -, -⟩ := hk
    exact ⟨rfl, R, hperm, fun h => by rw [hL]⟩
  | first _ _ _ _ _ _ hL _ hk =>
    rw [hk]
    exact ⟨rfl, hk ▸ R, hperm, fun h => by rw [hL]⟩
  | other _ _ hL _ hk =>
    rw [hk]
    exact ⟨rfl, hk ▸ R, hperm, fun h => by rw [hL]⟩
  | moved _ _ h₀ l₁ l₂ m₁ m₂ _ _ _ hl hm _ _ hL _ hk =>
    rw [hk]
    refine ⟨rfl, hk ▸ R, hperm, fun h => ?_⟩
    rw [hL]
    by_cases he : h = h₀
    · rw [he, Function.update_self, hl, filter_middle, filter_middle, hm]
    · rw [Function.update_of_ne he]

omit decS finT finS in
theorem Passed.nil (R : Rings k.queue L) : Passed k L p [] k L where
  once := List.nodup_nil
  given := nofun
  kept := fun _ _ => rfl
  queues := R
  perm := fun _ => .refl _
  order := fun _ => rfl

omit decS finT finS in
/-- A task that has been given the priority is not visited again. -/
theorem Passed.cons {ts : List T} (hp : p < k.priority t) (G : Round k L t p k₁ L₁)
    (P : Passed k₁ L₁ p ts k' L') : Passed k L p (t :: ts) k' L' := by
  have hself : k₁.priority t = p := by
    rw [G.priority, Function.update_self]
  have hother : ∀ u, u ≠ t → k₁.priority u = k.priority u := by
    intro u hu
    rw [G.priority, Function.update_of_ne hu]
  have hnew : t ∉ ts := fun ht => absurd (P.given t ht).1 (by rw [hself]; exact lt_irrefl p)
  refine ⟨List.nodup_cons.mpr ⟨hnew, P.once⟩, ?_, ?_, P.queues,
    fun h => (P.perm h).trans (G.perm h), ?_⟩
  · intro u hu
    rcases List.mem_cons.mp hu with rfl | hu
    · exact ⟨hp, (P.kept u hnew).trans hself⟩
    · obtain ⟨hlt, hgiven⟩ := P.given u hu
      rw [hother u fun hut => hnew (hut ▸ hu)] at hlt
      exact ⟨hlt, hgiven⟩
  · intro u hu
    obtain ⟨hut, hu'⟩ := not_or.mp (fun hor => hu (List.mem_cons.mpr hor))
    exact (P.kept u hu').trans (hother u hut)
  · intro h
    have hsplit : ∀ m : List T, m.filter (· ∉ t :: ts) =
        (m.filter (· ∉ ts)).filter (· ≠ t) := by
      intro m
      rw [List.filter_filter]
      refine List.filter_congr fun u _ => ?_
      rw [← Bool.decide_and]
      exact decide_eq_decide.mpr (by rw [List.mem_cons, not_or])
    have hswap : ∀ m : List T, (m.filter (· ∉ ts)).filter (· ≠ t) =
        (m.filter (· ≠ t)).filter (· ∉ ts) := by
      intro m
      rw [List.filter_filter, List.filter_filter]
      exact List.filter_congr fun u _ => Bool.and_comm ..
    rw [hsplit, hsplit, P.order, hswap, G.order, hswap]

/-! ## Going on -/

/-- The walk goes on from the first task of a queue, which has been moved there at
    most. -/
structure Onward (k : Kernel T S) (L : Head T S → List T) (t : T) (p : Int)
    (h : Head T S) (k₁ : Kernel T S) (L₁ : Head T S → List T) : Prop where
  here : t ∈ L h
  blocked : k.blockedOn t = .queue h
  kernel : ∃ q, k₁ = { k with
    priority := Function.update k.priority t p
    queue := q }
  first : (L₁ h).head? = some t
  others : ∀ h', h' ≠ h → L₁ h' = L h'

omit decS finT finS in
theorem WellFormed.onward (W : WellFormed k L l) (hp : p < k.priority t)
    (hround : Round k L t p k₁ L₁) (hon : Onward k L t p h k₁ L₁) :
    WellFormed k₁ L₁ l := by
  have hqueues := hround.queues
  obtain ⟨q, rfl⟩ := hon.kernel
  refine ⟨hqueues, ?_, W.ready, W.linked, ?_⟩
  · intro u hptr hbits
    obtain ⟨h', hb, hmem, hiff⟩ := W.blocked u hptr hbits
    exact ⟨h', hb, (hround.perm h').mem_iff.mpr hmem, hiff⟩
  · intro u
    show Function.update k.priority t p u ≤ _
    by_cases hu : u = t
    · rw [hu, Function.update_self]
      exact hp.le.trans (W.priority t)
    · rw [Function.update_of_ne hu]
      exact W.priority u

omit decT decS finT finS in
/-- A way is the same in another state, if nothing differs where it goes. -/
theorem Way.congr (hstate : k₁.state = k.state) (hblocked : k₁.blockedOn = k.blockedOn)
    (hq : ∀ u, inPriorityQueue k₁ u = inPriorityQueue k u)
    (hn : ∀ u, nextOwner k₁ u = nextOwner k u)
    (hL : ∀ h ∈ hs, L₁ h = L h)
    (hprio : ∀ u, ∀ h ∈ hs, k.blockedOn u = .queue h → k₁.priority u = k.priority u)
    (hlist : ∀ h ∈ hs, ∀ a ∈ L h, k₁.priority a = k.priority a)
    (w : Way k L p next hs dest) : Way k₁ L₁ p next hs dest := by
  induction w with
  | here dest => exact .here dest
  | @on t h hs next dest hp hready hq' hb hfirst hnext hnew rest ih =>
    have hhere : h ∈ h :: hs := List.mem_cons_self ..
    have hfirst₁ : ∀ a ∈ (L₁ h).head?, a = t ∨ p < k₁.priority a := by
      rw [hL h hhere]
      intro a ha
      rw [hlist h hhere a (List.mem_of_mem_head? ha)]
      exact hfirst a ha
    exact .on ((hprio t h hhere hb).symm ▸ hp) (hstate ▸ hready)
      ((hq t).trans hq') (hblocked ▸ hb) hfirst₁ ((hn t).trans hnext) hnew
      (ih (fun h' hh => hL h' (List.mem_cons_of_mem _ hh))
        (fun u h' hh => hprio u h' (List.mem_cons_of_mem _ hh))
        (fun h' hh => hlist h' (List.mem_cons_of_mem _ hh)))

omit decS finT finS in
/-- A queue the walk has been in has a first task that it does not go past. -/
theorem Onward.not_again (hon : Onward k L t p h k₁ L₁)
    (w : Way k₁ L₁ p next hs dest) : h ∉ hs := by
  obtain ⟨q, rfl⟩ := hon.kernel
  have hself : Function.update k.priority t p t = p := Function.update_self ..
  induction w with
  | here dest => exact List.not_mem_nil
  | @on u h' hs next dest hp hready hq' hb hfirst hnext hnew rest ih =>
    intro hmem
    rcases List.mem_cons.mp hmem with rfl | hmem
    · rcases hfirst t hon.first with rfl | hlt
      · exact absurd (show p < Function.update k.priority t p t from hp)
          (by rw [hself]; exact lt_irrefl p)
      · exact absurd (show p < Function.update k.priority t p t from hlt)
          (by rw [hself]; exact lt_irrefl p)
    · exact ih hmem

omit decS finT finS in
/-- **THE REST OF THE WAY** is the same after a round. -/
theorem Onward.way_iff (W : WellFormed k L l) (hon : Onward k L t p h k₁ L₁) :
    Way k₁ L₁ p next hs dest ↔ h ∉ hs ∧ Way k L p next hs dest := by
  have hsame : ∀ {hs : List (Head T S)}, h ∉ hs → (∀ h' ∈ hs, L₁ h' = L h') ∧
      (∀ u, ∀ h' ∈ hs, k.blockedOn u = .queue h' → k₁.priority u = k.priority u) ∧
      ∀ h' ∈ hs, ∀ a ∈ L h', k₁.priority a = k.priority a := by
    intro hs hnew
    have hne : ∀ h' ∈ hs, h' ≠ h := fun h' hh he => hnew (he ▸ hh)
    have hother : ∀ u, u ≠ t → k₁.priority u = k.priority u := by
      intro u hu
      obtain ⟨q, rfl⟩ := hon.kernel
      exact Function.update_of_ne hu ..
    refine ⟨fun h' hh => hon.others h' (hne h' hh), fun u h' hh hb => hother u ?_,
      fun h' hh a ha => hother a ?_⟩
    · rintro rfl
      exact hne h' hh (BlockedOn.queue.inj (hb.symm.trans hon.blocked))
    · rintro rfl
      exact hne h' hh (W.queues.apart h' h a ha hon.here)
  have hdata : k₁.state = k.state ∧ k₁.blockedOn = k.blockedOn ∧
      (∀ u, inPriorityQueue k₁ u = inPriorityQueue k u) ∧
      ∀ u, nextOwner k₁ u = nextOwner k u := by
    obtain ⟨q, rfl⟩ := hon.kernel
    exact ⟨rfl, rfl, fun _ => rfl, fun _ => rfl⟩
  obtain ⟨hstate, hblocked, hq, hn⟩ := hdata
  constructor
  · intro w
    have hnew := hon.not_again w
    obtain ⟨hL, hprio, hlist⟩ := hsame hnew
    refine ⟨hnew, w.congr hstate.symm hblocked.symm (fun u => (hq u).symm)
      (fun u => (hn u).symm) (fun h' hh => (hL h' hh).symm) ?_ ?_⟩
    · intro u h' hh hb
      exact (hprio u h' hh (hblocked ▸ hb)).symm
    · intro h' hh a ha
      exact (hlist h' hh a (hL h' hh ▸ ha)).symm
  · rintro ⟨hnew, w⟩
    obtain ⟨hL, hprio, hlist⟩ := hsame hnew
    exact w.congr hstate hblocked hq hn hL hprio hlist

omit finT finS in
/-- After a round the walk ends, or it goes on from the first of a queue. -/
theorem gives_cases (G : Gives k L t p k₁ L₁ next) :
    next = .null ∨ next = .task t ∨ ∃ h, Onward k L t p h k₁ L₁ ∧ k.state t ≠ {.ready} ∧
        inPriorityQueue k t = some true ∧ nextOwner k t = some next ∧
        ∀ a ∈ (L h).head?, a = t ∨ p < k.priority a := by
  cases G with
  | ready _ _ hn _ => exact .inl hn
  | other _ _ _ hn _ => exact .inr (.inl hn)
  | first hready hq h l₂ hb hl hL hn hk =>
    refine .inr (.inr ⟨h, ⟨?_, hb, ⟨k.queue, hk⟩, ?_, fun h' _ => by rw [hL]⟩, hready,
      hq, hn, ?_⟩)
    · rw [hl]
      exact List.mem_cons_self ..
    · rw [hL, hl]
      rfl
    · rw [hl]
      intro a ha
      exact .inl (Option.some.inj ha).symm
  | moved hready hq h l₁ l₂ m₁ m₂ q hb hne hl hm hle hlt hL hn hk =>
    rcases hn with ⟨rfl, hn⟩ | ⟨-, hn⟩
    · refine .inr (.inr ⟨h, ⟨?_, hb, ⟨q, hk⟩, ?_, ?_⟩, hready, hq, hn, ?_⟩)
      · rw [hl]
        exact List.mem_append_right _ (List.mem_cons_self ..)
      · rw [hL, Function.update_self]
        rfl
      · intro h' hh
        rw [hL, Function.update_of_ne hh]
      · rw [hl]
        intro a ha
        cases l₁ with
        | nil => exact absurd rfl hne
        | cons b l₁ =>
          obtain rfl : b = a := Option.some.inj ha
          rw [List.nil_append] at hm
          exact .inr (hlt b (by rw [← hm]; rfl))
    · exact .inl hn

omit finT finS in
/-- A task that will be the first of its queue is gone on from. -/
theorem gives_follows (W : WellFormed k L l) (G : Gives k L t p k₁ L₁ next)
    (hready : k.state t ≠ {.ready}) (hq : inPriorityQueue k t = some true)
    (hb : k.blockedOn t = .queue h)
    (hfirst : ∀ a ∈ (L h).head?, a = t ∨ p < k.priority a)
    {owner : TaskPtr T} (hnext : nextOwner k t = some owner) :
    Onward k L t p h k₁ L₁ ∧ next = owner := by
  cases G with
  | ready hready' _ _ _ => exact absurd hready' hready
  | other _ hq' _ _ _ => exact nomatch hq.symm.trans hq'
  | first _ _ h' l₂ hb' hl hL hn hk =>
    obtain rfl := BlockedOn.queue.inj (hb.symm.trans hb')
    refine ⟨⟨?_, hb, ⟨k.queue, hk⟩, ?_, fun h' _ => by rw [hL]⟩,
      Option.some.inj (hn.symm.trans hnext)⟩
    · rw [hl]
      exact List.mem_cons_self ..
    · rw [hL, hl]
      rfl
  | moved _ _ h' l₁ l₂ m₁ m₂ q hb' hne hl hm hle hlt hL hn hk =>
    obtain rfl := BlockedOn.queue.inj (hb.symm.trans hb')
    have hnil : m₁ = [] := by
      cases l₁ with
      | nil => exact absurd rfl hne
      | cons b l₁ =>
        cases m₁ with
        | nil => rfl
        | cons c m₁ =>
          obtain ⟨rfl, -⟩ := List.cons.inj hm
          rw [hl] at hfirst
          rcases hfirst b rfl with rfl | hlt'
          · have hnd := W.queues.nodup h
            rw [hl] at hnd
            exact absurd (List.mem_append_right _ (List.mem_cons_self ..))
              (List.nodup_cons.mp hnd).1
          · exact absurd (hle b (List.mem_cons_self ..)) (not_le.mpr hlt')
    rcases hn with ⟨-, hn⟩ | ⟨hne', -⟩
    · subst hnil
      refine ⟨⟨?_, hb, ⟨q, hk⟩, ?_, ?_⟩, Option.some.inj (hn.symm.trans hnext)⟩
      · rw [hl]
        exact List.mem_append_right _ (List.mem_cons_self ..)
      · rw [hL, Function.update_self]
        rfl
      · intro h' hh
        rw [hL, Function.update_of_ne hh]
    · exact absurd hnil hne'

/-! ## The walk -/

/-- How many tasks have a priority above `p`. -/
def above (k : Kernel T S) (p : Int) : Nat :=
  (Finset.univ.filter fun t => p < k.priority t).card

omit decS finS in
/-- A round leaves one task less. -/
theorem above_lt (hp : p < k.priority t) (G : Round k L t p k₁ L₁) :
    above k₁ p < above k p := by
  refine Finset.card_lt_card (Finset.ssubset_iff_of_subset ?_ |>.mpr ⟨t, ?_, ?_⟩)
  · intro u hu
    have hlt := (Finset.mem_filter.mp hu).2
    rw [G.priority] at hlt
    refine Finset.mem_filter.mpr ⟨Finset.mem_univ u, ?_⟩
    by_cases hut : u = t
    · rw [hut]
      exact hp
    · rw [Function.update_of_ne hut] at hlt
      exact hlt
  · exact Finset.mem_filter.mpr ⟨Finset.mem_univ t, hp⟩
  · intro ht
    have hlt := (Finset.mem_filter.mp ht).2
    rw [G.priority, Function.update_self] at hlt
    exact lt_irrefl p hlt

/-- The walk does not go on from a task that has the priority, nor from nowhere. -/
theorem passLoop_ends {fuel : Nat} (hfuel : 0 < fuel)
    (hend : next = .null ∨ ∃ t, next = .task t ∧ k.priority t ≤ p) :
    passLoop fuel k next p = some k ∧ visits fuel k next p = [] := by
  obtain ⟨fuel, rfl⟩ := Nat.exists_eq_add_of_lt hfuel
  rcases hend with rfl | ⟨t, rfl, hle⟩
  · exact ⟨rfl, rfl⟩
  · exact ⟨if_neg (not_lt.mpr hle), if_neg (not_lt.mpr hle)⟩

/-- **THE WALK ENDS** wherever the owners lead it, unless its way leads to the marker. -/
theorem passLoop_passed {fuel : Nat} :
    ∀ {k : Kernel T S} {L : Head T S → List T} {dest : TaskPtr T}, WellFormed k L l →
      (∀ hs, ¬Way k L p dest hs .higerr) → above k p < fuel →
      ∃ k' L', passLoop fuel k dest p = some k' ∧
        Passed k L p (visits fuel k dest p) k' L' := by
  induction fuel with
  | zero => exact fun _ _ hlt => absurd hlt (Nat.not_lt_zero _)
  | succ fuel ih =>
    intro k L dest W hway hfuel
    have hstop : (dest = .null ∨ ∃ t, dest = .task t ∧ k.priority t ≤ p) →
        ∃ k' L', passLoop (fuel + 1) k dest p = some k' ∧
          Passed k L p (visits (fuel + 1) k dest p) k' L' := by
      intro hend
      obtain ⟨hrun, hvisits⟩ := passLoop_ends (Nat.succ_pos fuel) hend
      rw [hvisits]
      exact ⟨k, L, hrun, Passed.nil W.queues⟩
    cases dest with
    | null => exact hstop (.inl rfl)
    | higerr => exact absurd (Way.here .higerr) (hway [])
    | task t =>
      by_cases hp : p < k.priority t
      swap
      · exact hstop (.inr ⟨t, rfl, not_lt.mp hp⟩)
      obtain ⟨k₁, next, hgive⟩ := W.givePriority_defined (hp.trans_le (W.priority t)) t
      obtain ⟨L₁, R₁, G⟩ := givePriority_gives W.queues W.queued hgive
      have hround := round_of_gives G R₁
      have hless := above_lt hp hround
      have hstep : passLoop (fuel + 1) k (.task t) p = passLoop fuel k₁ next p ∧
          visits (fuel + 1) k (.task t) p = t :: visits fuel k₁ next p := by
        constructor
        · rw [passLoop, if_pos hp, hgive]
          rfl
        · rw [visits, if_pos hp, hgive]
      rw [hstep.1, hstep.2]
      have hself : k₁.priority t = p := by
        rw [hround.priority, Function.update_self]
      rcases gives_cases G with hend | hend | ⟨h, hon, hready, hq, hn, hfirst⟩
      · obtain ⟨hrun, hvisits⟩ := @passLoop_ends _ _ _ _ _ _ k₁ p next fuel
          (by omega) (.inl hend)
        rw [hvisits]
        exact ⟨k₁, L₁, hrun, Passed.cons hp hround (Passed.nil R₁)⟩
      · obtain ⟨hrun, hvisits⟩ := @passLoop_ends _ _ _ _ _ _ k₁ p next fuel
          (by omega) (.inr ⟨t, hend, hself.le⟩)
        rw [hvisits]
        exact ⟨k₁, L₁, hrun, Passed.cons hp hround (Passed.nil R₁)⟩
      · have hway₁ : ∀ hs, ¬Way k₁ L₁ p next hs .higerr := by
          intro hs w
          obtain ⟨hnew, w⟩ := (hon.way_iff W).mp w
          exact hway (h :: hs) (.on hp hready hq hon.blocked hfirst hn hnew w)
        obtain ⟨k', L', hrun, hpassed⟩ := ih (W.onward hp hround hon) hway₁ (by omega)
        exact ⟨k', L', hrun, Passed.cons hp hround hpassed⟩

/-- A walk whose way leads to the marker follows it. -/
theorem passLoop_stuck {hs : List (Head T S)} :
    ∀ {fuel : Nat} {k : Kernel T S} {L : Head T S → List T} {dest : TaskPtr T},
      WellFormed k L l → Way k L p dest hs .higerr → passLoop fuel k dest p = none := by
  induction hs with
  | nil =>
    intro fuel k L dest _ w
    cases w
    cases fuel <;> rfl
  | cons h hs ih =>
    intro fuel k L dest W w
    cases w with
    | @on t _ _ owner _ hp hready hq hb hfirst hn hnew rest =>
      cases fuel with
      | zero => rfl
      | succ fuel =>
        obtain ⟨k₁, next, hgive⟩ := W.givePriority_defined (hp.trans_le (W.priority t)) t
        obtain ⟨L₁, R₁, G⟩ := givePriority_gives W.queues W.queued hgive
        have hround := round_of_gives G R₁
        obtain ⟨hon, rfl⟩ := gives_follows W G hready hq hb hfirst hn
        rw [passLoop, if_pos hp, hgive]
        exact ih (W.onward hp hround hon) ((hon.way_iff W).mpr ⟨hnew, rest⟩)

/-- **PRIORITY PASSING ENDS IF AND ONLY IF** its way does not lead to the `ret_queue`
    of a task that waits in a receive: it has then visited each task once at most,
    given the priority to those it has visited and to no other, and only they have
    moved in their queues. -/
theorem pass_prio_ends_iff (W : WellFormed k L l) (dest : TaskPtr T) (src : T) :
    (∃ k' L', passPrio k dest src = some k' ∧ (∀ t, k'.priority t ≤ k.priority t) ∧
      Passed k L (k.priority src) (visits (taskFuel T) k dest (k.priority src)) k' L') ↔
      ∀ hs, ¬Way k L (k.priority src) dest hs .higerr := by
  constructor
  · rintro ⟨k', L', hrun, -⟩ hs w
    unfold passPrio at hrun
    rw [passLoop_stuck W w] at hrun
    exact nomatch hrun
  · intro hway
    -- each round takes one of the tasks above the priority
    have hfuel : above k (k.priority src) < taskFuel T := by
      have hle := Finset.card_filter_le Finset.univ fun t => k.priority src < k.priority t
      rw [Finset.card_univ] at hle
      unfold above taskFuel
      omega
    obtain ⟨k', L', hrun, hpassed⟩ := passLoop_passed W hway hfuel
    refine ⟨k', L', hrun, fun t => ?_, hpassed⟩
    by_cases ht : t ∈ visits (taskFuel T) k dest (k.priority src)
    · obtain ⟨hlt, hgiven⟩ := hpassed.given t ht
      rw [hgiven]
      exact hlt.le
    · exact (hpassed.kept t ht).le

end Rounds

/-- A server, a task that owns a semaphore, and one of the highest priority. -/
def ownerAndServer : Config (Fin 3) (Fin 1) where
  hard := fun _ => true
  priority := fun t => 30 - 10 * t.val
  receiver := fun _ => none
  schedlat := fun _ => 0
  linuxSchedlat := 0
  sems := fun _ => { kind := .resSem 1, value := 1, fifo := false }
  time := 0

/-- The owner calls the server, which takes the message. -/
def servedRun : List (RtaiSteps.Action (Fin 3) (Fin 1)) :=
  [.linux (.resume 1), .dispatch 1, .call 1 (.semWait 0), .call 1 (.rpc 0 7),
    .linux (.resume 0), .dispatch 0, .call 0 (.receive none)]

/-- The owner waits for the server. -/
def oneCaller : Head (Fin 3) (Fin 1) → List (Fin 3) := fun h =>
  if h = .ret 0 then [1] else []

/-- A state in which nobody else waits. -/
theorem wellFormed_oneCaller {k : Kernel (Fin 3) (Fin 1)} {l : List (Fin 3)}
    (hret : Chain k.queue (.head (.ret 0)) [1] (.head (.ret 0)))
    (hsem : Chain k.queue (.head (.sem 0)) [] (.head (.sem 0)))
    (hmsg : ∀ u, k.queue.next (.head (.msg u)) = .head (.msg u) ∧
      k.queue.prev (.head (.msg u)) = .head (.msg u))
    (hrets : ∀ u, u ≠ 0 → k.queue.next (.head (.ret u)) = .head (.ret u) ∧
      k.queue.prev (.head (.ret u)) = .head (.ret u))
    (hcaller : k.blockedOn 1 = .queue (.ret 0) ∧ .semaphore ∉ k.state 1)
    (hothers : ∀ t, t ≠ 1 → (k.blockedOn t).isPtr = false)
    (hready : Rings k.ready fun _ => l)
    (hlinked : ∀ t, k.isHard t = true → k.state t = {.ready} → t ∈ l)
    (hprio : ∀ t, k.priority t ≤ RT_SCHED_LINUX_PRIORITY) :
    WellFormed k oneCaller l := by
  have hmem : ∀ h a, a ∈ oneCaller h → h = .ret 0 := by
    intro h a ha
    by_contra hne
    rw [oneCaller, if_neg hne] at ha
    exact List.not_mem_nil ha
  refine ⟨⟨fun h => ?_, fun h => ?_, fun h h' a ha ha' =>
    (hmem h a ha).trans (hmem h' a ha').symm⟩, ?_, hready, hlinked, hprio⟩
  · by_cases he : h = .ret 0
    · rw [he]
      exact hret
    · rw [oneCaller, if_neg he]
      cases h with
      | sem s =>
        obtain rfl : s = 0 := Subsingleton.elim s 0
        exact hsem
      | msg u => exact hmsg u
      | ret u => exact hrets u fun hu => he (congrArg Head.ret hu)
  · unfold oneCaller
    split
    · exact List.nodup_singleton 1
    · exact List.nodup_nil
  · intro t hptr _
    by_cases ht : t = 1
    · subst ht
      refine ⟨.ret 0, hcaller.1, List.mem_singleton_self 1, ?_⟩
      exact iff_of_false hcaller.2 (by rintro ⟨_, ⟨⟩⟩)
    · rw [hothers t ht] at hptr
      cases hptr

/-- The server has taken the message and goes on: the priority goes to the owner. -/
theorem pass_prio_ends_served : ∃ k, play exec (fun _ _ => True) (boot ownerAndServer)
        (servedRun ++ [.linux (.resume 2), .dispatch 2]) = some k ∧
      ∃ k' L', passPrio k (.task 1) 2 = some k' ∧ (∀ t, k'.priority t ≤ k.priority t) ∧
        Passed k oneCaller (k.priority 2)
          (visits (taskFuel (Fin 3)) k (.task 1) (k.priority 2)) k' L' := by
  refine ⟨_, rfl, (pass_prio_ends_iff (l := [2, 0]) (wellFormed_oneCaller
    ⟨rfl, rfl, rfl, rfl⟩ ⟨rfl, rfl⟩ (by decide) (by decide) (by decide) (by decide)
    ⟨fun _ => ⟨rfl, rfl, rfl, rfl, rfl, rfl⟩, fun _ => by decide, fun _ _ _ _ _ => rfl⟩
    (by decide) (by decide)) (.task 1) 2).mpr ?_⟩
  intro hs w
  cases w with
  | on hp hready hq hb hfirst hn hnew rest =>
    obtain rfl := Option.some.inj (show some TaskPtr.null = some _ from hn)
    cases rest

/-- **THE WALK FOLLOWS A MARKER**: the server receives again before it has replied,
    and the task of the highest priority asks for the semaphore of its caller. -/
theorem pass_prio_follows_marker : ∃ k, Reach exec (fun _ _ => True) (boot ownerAndServer) k ∧
      WellFormed k oneCaller [2] ∧ k.owndby 0 = some 1 ∧
      k.priority 2 < k.priority 1 ∧ k.retTask 0 = .higerr ∧
      passPrio k (.task 1) 2 = none := by
  obtain ⟨k, hrun, hwell, howner, hprio, hmarker, hstuck⟩ :
      ∃ k, play exec (fun _ _ => True) (boot ownerAndServer)
          (servedRun ++ [.call 0 (.receive none), .linux (.resume 2), .dispatch 2]) = some k ∧
        WellFormed k oneCaller [2] ∧ k.owndby 0 = some 1 ∧
        k.priority 2 < k.priority 1 ∧ k.retTask 0 = .higerr ∧
        passPrio k (.task 1) 2 = none :=
    ⟨_, rfl, wellFormed_oneCaller ⟨rfl, rfl, rfl, rfl⟩ ⟨rfl, rfl⟩ (by decide)
      (by decide) (by decide) (by decide) ⟨fun _ => ⟨rfl, rfl, rfl, rfl⟩,
      fun _ => by decide, fun _ _ _ _ _ => rfl⟩ (by decide) (by decide), rfl,
      by decide, rfl, rfl⟩
  exact ⟨k, reach_of_play hrun, hwell, howner, hprio, hmarker, hstuck⟩

end RtaiPassPrio
