import Rtai.Services

/-! # sem.c: broadcasting

    `rt_sem_broadcast` serves every task in the wait queue and sets the count
    to zero. -/

namespace RtaiBroadcast

open RtaiRings RtaiKernel RtaiSchedCore RtaiTaskApi RtaiSem RtaiFrames
  RtaiControl RtaiSemEffects RtaiSemControl

variable {T S : Type} [decT : DecidableEq T] [decS : DecidableEq S] [finT : Fintype T]
  [finS : Fintype S]

/-- The loop of `rt_sem_broadcast`.  A node without a task would be looked at
    for ever. -/
def broadcastLoop (s : S) : Nat → Kernel T S → Option (Kernel T S)
  | 0, _ => none
  | fuel + 1, k =>
    if k.queue.next (.head (.sem s)) = .head (.sem s) then some k
    else
      match queueTask k (k.queue.next (.head (.sem s))) with
      | .task u => do
          let (k, _) ← wakeWaiter k u
          broadcastLoop s fuel k
      | _ => none

/-- `rt_sem_broadcast`: everybody goes on. -/
def rtSemBroadcast (k : Kernel T S) (s : S) : Option (Outcome T S) :=
  if !k.semMagic s then done k .objinv
  else do
    let k ← broadcastLoop s (queueFuel T S) k
    done { k with count := Function.update k.count s 0 } (.val 0)

/-- The waiters of a list are served in turn. -/
inductive Served (s : S) : List T → Kernel T S → (Head T S → List T) →
    Kernel T S → (Head T S → List T) → Prop where
  | nil (k : Kernel T S) (L : Head T S → List T) : Served s [] k L k L
  | cons {u : T} {l : List T} {k k₁ k' : Kernel T S}
      {L L' : Head T S → List T} {q : Links (Node T (Head T S))}
      (hl : L (.sem s) = u :: l)
      (R : Rings q (Function.update L (.sem s) l))
      (hk : Still { k with
        state := Function.update k.state u (k.state u \ {.semaphore, .delayed})
        blockedOn := Function.update k.blockedOn u .null
        queue := q } k₁)
      (rest : Served s l k₁ (Function.update L (.sem s) l) k' L') :
      Served s (u :: l) k L k' L'

omit finS in
/-- **The loop serves the whole queue.** -/
theorem broadcastLoop_served {s : S} {fuel : Nat} :
    ∀ {k k' : Kernel T S} {L : Head T S → List T}, Rings k.queue L →
      broadcastLoop s fuel k = some k' →
      Served s (L (.sem s)) k L k' (Function.update L (.sem s) []) := by
  induction fuel with
  | zero => intro k k' L _ h; exact nomatch h
  | succ fuel ih =>
    intro k k' L R h
    unfold broadcastLoop at h
    rw [R.next_head] at h
    cases hl : L (.sem s) with
    | nil =>
      rw [hl, firstOf_nil, if_pos rfl] at h
      cases h
      rw [← hl, Function.update_eq_self, hl]
      exact .nil k L
    | cons u l =>
      rw [hl, firstOf_cons, if_neg (elem_ne_head u _)] at h
      dsimp only [queueTask] at h
      obtain ⟨⟨k₁, b⟩, hw, h⟩ := Option.bind_eq_some_iff.mp h
      obtain ⟨hstill, -, -⟩ := wakeWaiter_spec hw
      have hl' : L (.sem s) = [] ++ u :: l := hl
      have R₁ := R.unlink hl'
      have hq : k₁.queue = k.queue.unlink (.elem u) := by
        obtain ⟨_, _, _, _, _, _, _, _, _, _, _, rfl, -, -⟩ := hstill
        rfl
      have hrest := ih (hq ▸ R₁) h
      rw [List.nil_append, Function.update_idem, Function.update_self] at hrest
      exact .cons hl R₁ hstill hrest

omit finT finS in
/-- Serving the waiters keeps the control state. -/
theorem Served.control {s : S} {l : List T} {k k' : Kernel T S}
    {L L' : Head T S → List T} (h : Served s l k L k' L') (C : Control k L) :
    Control k' L' := by
  induction h with
  | nil _ _ => exact C
  | @cons u l k _ _ L _ q hl R hk _ ih =>
    have C₁ := control_granted C hl R
    have hsame : Function.update (granted k s u q).count s (k.count s) =
        k.count := by
      unfold granted
      rw [Function.update_idem, Function.update_eq_self]
    have C₂ := C₁.data k.priority k.basePriority
      (Function.update (granted k s u q).count s (k.count s)) k.type
      k.owndby k.resq
    rw [hsame] at C₂
    exact ih (C₂.still hk)

omit finT finS in
/-- What serving the waiters leaves alone, and whom it serves. -/
theorem Served.fields {s : S} {l : List T} {k k' : Kernel T S}
    {L L' : Head T S → List T} (h : Served s l k L k' L') :
    k'.pc = k.pc ∧ k'.owndby = k.owndby ∧ k'.type = k.type ∧
      k'.restype = k.restype ∧ k'.count = k.count ∧
      k'.priority = k.priority ∧ k'.running = k.running ∧
      ∀ t, k'.blockedOn t = if t ∈ l then .null else k.blockedOn t := by
  induction h with
  | nil _ _ => exact ⟨rfl, rfl, rfl, rfl, rfl, rfl, rfl, fun _ => rfl⟩
  | @cons u l k _ _ L _ q hl R hk _ ih =>
    obtain ⟨h1, h2, h3, h4, h5, h6, h7, h8⟩ := ih
    obtain ⟨_, _, _, _, _, _, _, _, _, _, _, rfl, -, -⟩ := hk
    refine ⟨h1, h2, h3, h4, h5, h6, h7, fun t => ?_⟩
    rw [h8 t]
    by_cases ht : t = u
    · subst ht
      rw [if_pos List.mem_cons_self]
      dsimp only
      rw [Function.update_self]
      split <;> rfl
    · simp only [List.mem_cons, ht, false_or, Function.update_of_ne ht]

omit finT finS in
theorem Served.deep {s : S} {l : List T} {k k' : Kernel T S}
    {L L' : Head T S → List T} (h : Served s l k L k' L') (hd : Deep k) :
    Deep k' := by
  induction h with
  | nil _ _ => exact hd
  | cons _ _ hk _ ih => exact ih (hk.deep hd)

/-- **`rt_sem_broadcast`** -/
theorem rtSemBroadcast_effect {k k' : Kernel T S} {L : Head T S → List T}
    {s : S} {o : Option (Ret T)} (h : rtSemBroadcast k s = some (k', o))
    (C : Control k L) :
    o = some (.val 0) ∧ ∃ k₁, Served s (L (.sem s)) k L k₁ (Function.update L (.sem s) []) ∧
      k' = { k₁ with count := Function.update k₁.count s 0 } := by
  unfold rtSemBroadcast at h
  rw [if_neg (by rw [C.semMagic]; exact nofun)] at h
  obtain ⟨k₁, hl, h⟩ := Option.bind_eq_some_iff.mp h
  cases h
  exact ⟨rfl, k₁, broadcastLoop_served C.rings hl, rfl⟩

end RtaiBroadcast
