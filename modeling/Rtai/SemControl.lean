import Rtai.SemEffects

/-! # The semaphore services keep the control state

    A wait links the caller where its `pc` says or leaves it outside, a failed
    wait unlinks it, and a signal unlinks the waiter it serves. -/

namespace RtaiSemControl

open RtaiRings RtaiKernel RtaiPrioInher RtaiSched RtaiSem RtaiFrames
  RtaiControl RtaiSemEffects

variable {T S : Type} [decT : DecidableEq T] [decS : DecidableEq S]

section

variable {k k' : Kernel T S} {L L' : Head T S → List T} {c : T} {s : S} {o : Option (Ret T)}

omit decS in
/-- A call returns. -/
theorem control_returned (C : Control k L) (hun : ∀ h, c ∉ L h)
    (hm : k.msgTask c = .task c) (hret : k.retTask c = .null)
    (hst : Disjoint (k.state c) {.send, .receive, .rpc, .ret})
    (hsem : .semaphore ∈ k.state c → k.isHard c = false ∧ k.blockedOn c = .null) :
    Control (returned k c) L where
  rings := C.rings
  stands := by
    intro t
    by_cases ht : t = c
    · subst ht
      have hpc : (returned k t).pc t = .idle := Function.update_self ..
      refine stands_calm hun (Or.inl (by rw [hpc]; rfl)) (by rw [hpc]; rfl) hm
        hret hst (fun h => ⟨(hsem h).1, hpc, (hsem h).2⟩) (C.stands t).present
        (C.stands t).running (C.stands t).magic
    · exact (C.stands t).transport (fun _ => Iff.rfl)
        (Function.update_of_ne ht ..) rfl rfl rfl rfl rfl rfl (fun _ _ h => h)
        Or.inl
  semMagic := C.semMagic

omit decS in
/-- A call that has not blocked returns. -/
theorem control_caller_returned (C : Control k L) (hcall : Caller k c) :
    Control (returned k c) L :=
  control_returned C (C.caller_unlinked hcall) hcall.msgTask hcall.retTask
    (Disjoint.mono_right (by decide) hcall.bits)
    (fun h => absurd (by decide) (Finset.disjoint_left.mp hcall.bits h))

omit decT decS in
theorem Caller.still (hcall : Caller k c) (h : Still k k') : Caller k' c := by
  obtain ⟨_, _, _, _, _, _, _, _, _, _, _, rfl, hst, -⟩ := h
  refine ⟨hcall.waits, hcall.sends, hcall.msgTask, hcall.retTask, ?_⟩
  exact Finset.disjoint_left.mpr fun f hf hb =>
    Finset.disjoint_left.mp hcall.bits (hst c f hb hf) hb

omit decS in
theorem Caller.prepared {k₀ : Kernel T S} (hcall : Caller k c)
    (hP : Prepared k c s k₀) : Caller k₀ c := by
  rcases hP with h | h
  · exact Caller.still hcall h
  · refine Caller.still ?_ h
    exact ⟨hcall.waits, hcall.sends, hcall.msgTask, hcall.retTask, hcall.bits⟩

/-- The fields that becoming the owner of a resource changes. -/
theorem takeOwnership_eq (k : Kernel T S) (c : T) (s : S) :
    ∃ ow rq, takeOwnership k c s = { k with owndby := ow, resq := rq } := by
  unfold takeOwnership
  split
  · exact ⟨_, _, rfl⟩
  · exact ⟨k.owndby, k.resq, rfl⟩

/-- Recomputing the priority of the owner neither. -/
theorem Control.recomputes [Fintype T] [Fintype S] (C : Control k L)
    (h : Recomputes k s k') : Control k' L := by
  cases h with
  | none _ hk => exact C.still hk
  | owner o p _ _ _ hk =>
    exact (C.data _ k.basePriority k.count k.type k.owndby k.resq).still hk

/-- The owner that is robbed of a semaphore had been granted it and has not
    gone on. -/
def RobsGranted (k : Kernel T S) (c : T) (s : S) : Prop :=
  ∀ u, 0 < k.type s → k.owndby s = some u → k.priority c < k.priority u →
    k.running u ≤ 0 → waitsOn (k.pc u) = some s ∧ k.blockedOn u = .null

omit decT decS in
theorem RobsGranted.unlinked (h : RobsGranted k c s) (C : Control k L) :
    RobsUnlinked k L c s := by
  intro u ht hv
  unfold ubiMaiorVictim at hv
  cases ho : k.owndby s with
  | none => rw [ho] at hv; exact nomatch hv
  | some u' =>
    rw [ho] at hv
    dsimp only at hv
    split at hv
    · next hcond =>
        cases hv
        obtain ⟨hw, hb⟩ := h u ht ho hcond.1 hcond.2
        exact C.granted_unlinked hw hb
    · exact nomatch hv

omit decS in
/-- The tasks in a queue after one has been put into it. -/
theorem mem_insert_update [DecidableEq S] {h₀ h : Head T S} {l₁ l₂ : List T}
    {u t : T} (hl : L h₀ = l₁ ++ l₂) :
    t ∈ Function.update L h₀ (l₁ ++ u :: l₂) h ↔ t ∈ L h ∨ (h = h₀ ∧ t = u) := by
  by_cases he : h = h₀
  · subst he
    rw [Function.update_self, hl, List.mem_append, List.mem_append, List.mem_cons]
    constructor
    · rintro (h1 | rfl | h2)
      · exact Or.inl (Or.inl h1)
      · exact Or.inr ⟨rfl, rfl⟩
      · exact Or.inl (Or.inr h2)
    · rintro ((h1 | h2) | ⟨-, rfl⟩)
      · exact Or.inl h1
      · exact Or.inr (Or.inr h2)
      · exact Or.inr (Or.inl rfl)
  · rw [Function.update_of_ne he]
    exact ⟨Or.inl, fun h => h.resolve_right fun hc => he hc.1⟩

/-- The tasks in a queue after one has been taken out of it. -/
theorem mem_remove_update {q : Links (Node T (Head T S))} {h₀ h : Head T S}
    {l₁ l₂ : List T} {u t : T} (R : Rings q L) (hl : L h₀ = l₁ ++ u :: l₂) :
    t ∈ Function.update L h₀ (l₁ ++ l₂) h ↔ t ∈ L h ∧ t ≠ u := by
  have hu : u ∈ L h₀ := by rw [hl]; simp
  have hnd := R.nodup h₀
  rw [hl, List.nodup_middle, List.nodup_cons] at hnd
  by_cases he : h = h₀
  · subst he
    rw [Function.update_self, hl, List.mem_append, List.mem_append, List.mem_cons]
    constructor
    · intro hm
      refine ⟨hm.imp id Or.inr, ?_⟩
      rintro rfl
      exact hnd.1 (List.mem_append.mpr hm)
    · rintro ⟨h1 | h1 | h1, hne⟩
      · exact Or.inl h1
      · exact absurd h1 hne
      · exact Or.inr h1
  · rw [Function.update_of_ne he]
    refine ⟨fun hm => ⟨hm, ?_⟩, fun hm => hm.1⟩
    rintro rfl
    exact he (R.apart h h₀ t hm hu)

/-- A task is put into the queue of a semaphore. -/
theorem control_queued {k₁ : Kernel T S} {L₁ : Head T S → List T} {u : T}
    {l₁ l₂ : List T} {q : Links (Node T (Head T S))} {p : Pc T S}
    {st : TaskState} (C : Control k₁ L₁) (hun : ∀ h, u ∉ L₁ h)
    (hl : L₁ (.sem s) = l₁ ++ l₂)
    (R : Rings q (Function.update L₁ (.sem s) (l₁ ++ u :: l₂)))
    (hp : waitsOn p = some s) (hm : k₁.msgTask u = .task u)
    (hret : k₁.retTask u = .null)
    (hst : Disjoint st {.send, .receive, .rpc, .ret}) :
    Control { k₁ with
      state := Function.update k₁.state u st
      blockedOn := Function.update k₁.blockedOn u (.queue (.sem s))
      queue := q
      pc := Function.update k₁.pc u p }
      (Function.update L₁ (.sem s) (l₁ ++ u :: l₂)) where
  rings := R
  stands := by
    intro t
    by_cases ht : t = u
    · subst ht
      refine stands_waiting (s := s) (fun h => ?_) ?_ (Function.update_self ..)
        hm hret ?_ (C.stands t).running (C.stands t).magic
      · rw [mem_insert_update hl]
        constructor
        · rintro (h1 | ⟨h1, -⟩)
          · exact absurd h1 (hun h)
          · exact h1
        · exact fun h1 => Or.inr ⟨h1, rfl⟩
      · show waitsOn (Function.update k₁.pc t p t) = some s
        rw [Function.update_self]
        exact hp
      · show Disjoint (Function.update k₁.state t st t) _
        rw [Function.update_self]
        exact hst
    · have hstate : Function.update k₁.state u st t = k₁.state t :=
        Function.update_of_ne ht ..
      refine (C.stands t).transport (fun h => ?_) (Function.update_of_ne ht ..)
        (Function.update_of_ne ht ..) rfl rfl rfl rfl rfl
        (fun f _ hf => hstate ▸ hf) Or.inl
      rw [mem_insert_update hl]
      exact ⟨fun h1 => h1.resolve_right fun hc => ht hc.2, Or.inl⟩
  semMagic := C.semMagic

/-- **A wait keeps the control state.** -/
theorem Waits.control [Fintype T] [Fintype S] {tries : Bool} (W : Waits tries k L c s k' L' o)
    (C : Control k L) (hcall : Caller k c) (hrob : RobsGranted k c s) :
    Control k' L' := by
  cases W with
  | refuse k₀ r hP _ hk hL _ _ =>
    rw [hk, hL]
    exact control_caller_returned (hP.control C hcall) (Caller.prepared hcall hP)
  | take _ hk hL _ =>
    obtain ⟨ow, rq, he⟩ := takeOwnership_eq { k with
      count := Function.update k.count s (k.count s - 1) } c s
    rw [hk, hL, he]
    have C₁ := C.data k.priority k.basePriority
      (Function.update k.count s (k.count s - 1)) k.type ow rq
    exact control_caller_returned C₁
      ⟨hcall.waits, hcall.sends, hcall.msgTask, hcall.retTask, hcall.bits⟩
  | nested k₀ hP _ _ _ hk hL _ =>
    rw [hk, hL]
    have hc₀ := Caller.prepared hcall hP
    have C₀ := (hP.control C hcall).data k₀.priority k₀.basePriority
      k₀.count (Function.update k₀.type s (incr (k₀.type s))) k₀.owndby k₀.resq
    exact control_caller_returned C₀ ⟨hc₀.waits, hc₀.sends, hc₀.msgTask, hc₀.retTask, hc₀.bits⟩
  | rob k₀ u l₁ l₂ q hP _ ht hu hprio hrun hl hL R _ _ hk _ =>
    rw [hL] at R ⊢
    have hc₀ := Caller.prepared hcall hP
    have C₀ := hP.control C hcall
    obtain ⟨hw, hb⟩ := hrob u ht hu hprio (le_of_eq hrun)
    have hne : u ≠ c := by
      rintro rfl
      exact lt_irrefl _ hprio
    have hpc : k₀.pc = k.pc := by
      rcases hP with h | h <;>
        obtain ⟨_, _, _, _, _, _, _, _, _, _, _, rfl, -, -⟩ := h <;> rfl
    have hw₀ : waitsOn (k₀.pc u) = some s := by rw [hpc]; exact hw
    have hun : ∀ h, u ∉ L h := C.granted_unlinked hw hb
    obtain ⟨hm, hret, hbits⟩ := C₀.waiter hw₀
    have hst : Disjoint (k₀.state u ∪ {.semaphore}) {.send, .receive, .rpc, .ret} :=
      Finset.disjoint_union_left.mpr ⟨hbits, by decide⟩
    have C₁ := control_queued C₀ hun hl R (p := k₀.pc u) hw₀ hm hret hst
    rw [Function.update_eq_self] at C₁
    have C₂ := C₁.data k₀.priority k₀.basePriority
      (Function.update k₀.count s (k₀.count s - 1)) k₀.type
      (Function.update k₀.owndby s (some c))
      (k₀.resq.insertBefore (.elem s) (.head c))
    have hcu : ∀ h, c ∉ Function.update L (.sem s) (l₁ ++ u :: l₂) h := by
      intro h hm
      rcases (mem_insert_update hl).mp hm with h1 | ⟨-, h1⟩
      · exact C.caller_unlinked hcall h h1
      · exact hne h1.symm
    have hstate : Function.update k₀.state u (k₀.state u ∪ {.semaphore}) c =
        k₀.state c := Function.update_of_ne hne.symm ..
    refine Control.still (control_returned C₂ hcu hc₀.msgTask hc₀.retTask ?_ ?_) hk
    · dsimp only
      rw [hstate]
      exact Disjoint.mono_right (by decide) hc₀.bits
    · dsimp only
      rw [hstate]
      exact fun h => absurd (by decide) (Finset.disjoint_left.mp hc₀.bits h)
  | expire k₁ k₂ q _ hk₁ R hre hk hL _ =>
    rw [hk, hL]
    have hc₁ := Caller.still hcall hk₁
    have C₁ := C.still hk₁
    have C₂ : Control { k₁ with
        blockedOn := Function.update k.blockedOn c .null
        queue := q } L := by
      have hb : k.blockedOn = k₁.blockedOn := by
        obtain ⟨_, _, _, _, _, _, _, _, _, _, _, rfl, -, -⟩ := hk₁
        rfl
      rw [hb]
      have := C₁.setBlockedOn hc₁ (b := .null) nofun
      exact ⟨R, fun t => (this.stands t).transport (fun _ => Iff.rfl) rfl
        rfl rfl rfl rfl rfl rfl (fun _ _ h => h) Or.inl, this.semMagic⟩
    refine control_caller_returned (Control.recomputes C₂ hre) ?_
    have hc₂ : Caller { k₁ with
        blockedOn := Function.update k.blockedOn c .null
        queue := q } c :=
      ⟨hc₁.waits, hc₁.sends, hc₁.msgTask, hc₁.retTask, hc₁.bits⟩
    cases hre with
    | none _ h => exact Caller.still hc₂ h
    | owner o' p _ _ _ h =>
      refine Caller.still ?_ h
      exact ⟨hc₂.waits, hc₂.sends, hc₂.msgTask, hc₂.retTask, hc₂.bits⟩
  | block k₀ k₁ L₁ l₁ l₂ q p hP _ _ hpass R₁ hl hL R _ hp hk _ =>
    rw [hL] at R ⊢
    have hc₀ := Caller.prepared hcall hP
    have C₀ := hP.control C hcall
    have hsh := hpass.shuffles C₀.rings
    have C₁ := C₀.shuffles hsh
    have hc₁ : Caller k₁ c := by
      obtain ⟨_, _, -, -, hst⟩ := hsh
      refine Caller.still ?_ hst
      exact ⟨hc₀.waits, hc₀.sends, hc₀.msgTask, hc₀.retTask, hc₀.bits⟩
    have hw : waitsOn p = some s := by
      rcases hp with rfl | rfl <;> rfl
    have hst : Disjoint (k₁.state c ∪ {.semaphore}) {.send, .receive, .rpc, .ret} :=
      Finset.disjoint_union_left.mpr ⟨Disjoint.mono_right (by decide) hc₁.bits, by decide⟩
    have C₂ := control_queued C₁ (C₁.caller_unlinked hc₁) hl R hw hc₁.msgTask hc₁.retTask hst
    have C₃ := C₂.data k₁.priority k₁.basePriority
      (Function.update k₁.count s (k₁.count s - 1)) k₁.type k₁.owndby k₁.resq
    exact C₃.still hk

/-- A task is taken out of the queue of a semaphore. -/
theorem control_unqueued {u : T} {l r : List T}
    {q : Links (Node T (Head T S))} {w : TaskState} {p : Pc T S}
    (C : Control k L) (hl : L (.sem s) = l ++ u :: r)
    (R : Rings q (Function.update L (.sem s) (l ++ r)))
    (hst : ∀ f, f ∈ blocking → f ∈ w → f ∈ k.state u)
    (hp : sendsTo p = none)
    (hsem : .semaphore ∈ w → k.isHard u = false ∧ p = .idle) :
    Control { k with
      state := Function.update k.state u w
      blockedOn := Function.update k.blockedOn u .null
      queue := q
      pc := Function.update k.pc u p } (Function.update L (.sem s) (l ++ r))
    where
  rings := R
  stands := by
    intro t
    have hmem : ∀ h, t ∈ Function.update L (.sem s) (l ++ r) h ↔
        t ∈ L h ∧ t ≠ u := fun h => mem_remove_update C.rings hl
    by_cases ht : t = u
    · subst ht
      have hat := (C.stands t).home (.sem s) (by rw [hl]; simp)
      obtain ⟨hm, hret, hbits⟩ := C.waiter hat.1
      have hpc : Function.update k.pc t p t = p := Function.update_self ..
      have hb : Function.update k.blockedOn t .null t = .null :=
        Function.update_self ..
      refine stands_calm (fun h h1 => ((hmem h).mp h1).2 rfl) (Or.inr hb) ?_ hm
        hret ?_ ?_ ?_ (C.stands t).running (C.stands t).magic
      · dsimp only
        rw [hpc]
        exact hp
      · dsimp only
        rw [Function.update_self]
        have hsub : ({.send, .receive, .rpc, .ret} : TaskState) ⊆ blocking := by
          decide
        exact Finset.disjoint_left.mpr fun f hf hmf =>
          Finset.disjoint_left.mp hbits (hst f (hsub hmf) hf) hmf
      · dsimp only
        rw [Function.update_self, hpc]
        exact fun h => ⟨(hsem h).1, (hsem h).2, hb⟩
      · dsimp only
        rw [hb]
        exact nofun
    · have hstate : Function.update k.state u w t = k.state t :=
        Function.update_of_ne ht ..
      refine (C.stands t).transport (fun h => ?_) (Function.update_of_ne ht ..)
        (Function.update_of_ne ht ..) rfl rfl rfl rfl rfl
        (fun f _ hf => hstate ▸ hf) Or.inl
      rw [hmem]
      exact ⟨fun h => h.1, fun h => ⟨h, ht⟩⟩
  semMagic := C.semMagic

/-- **The end of a wait keeps the control state.** -/
theorem WaitEnds.control [Fintype T] [Fintype S] (W : WaitEnds k L c s k' L' o)
    (C : Control k L) (hpc : waitsOn (k.pc c) = some s)
    (hex : executes k c = true) : Control k' L' := by
  obtain ⟨hm, hret, hbits⟩ := C.waiter hpc
  -- a hard task that executes has no bit at all
  have hhard : .semaphore ∈ k.state c → k.isHard c = false := by
    intro hs
    by_contra hh
    rw [Bool.not_eq_false] at hh
    unfold executes at hex
    rw [if_pos hh, Bool.and_eq_true, decide_eq_true_eq] at hex
    rw [hex.1] at hs
    exact absurd hs (by decide)
  cases W with
  | granted hb hk hL _ =>
    obtain ⟨ow, rq, he⟩ := takeOwnership_eq k c s
    rw [hk, hL, he]
    have hun := C.granted_unlinked hpc hb
    have C₁ := C.data k.priority k.basePriority k.count k.type ow rq
    exact control_returned C₁ hun hm hret hbits (fun hs => ⟨hhard hs, hb⟩)
  | failed k₂ l₁ l₂ q _ hl hL R hre hk _ =>
    rw [hL] at R ⊢
    have C₁ := control_unqueued C hl R (w := k.state c) (p := .idle)
      (fun _ _ h => h) rfl (fun h => ⟨hhard h, rfl⟩)
    rw [Function.update_eq_self] at C₁
    have C₂ := C₁.data k.priority k.basePriority
      (Function.update k.count s (moreCount k s)) k.type k.owndby k.resq
    have hre' : Recomputes (returned (unqueued k c s q) c) s (returned k₂ c) := by
      cases hre with
      | none h hk => exact .none h (Still.returned hk c)
      | owner o p ho ht hp hk =>
        have hsame : prioFromResq (returned (unqueued k c s q) c) o =
            prioFromResq (unqueued k c s q) o :=
          prioFromResq_congr o rfl rfl rfl rfl rfl rfl
        exact .owner o p ho ht (hsame.trans hp) (Still.returned hk c)
    rw [hk]
    exact Control.recomputes C₂ hre'

omit decT decS in
/-- The `running` flag matters only as far as it is not negative. -/
theorem Control.setRunning (C : Control k L) {rn : T → Int}
    (h : ∀ t, 0 ≤ rn t) : Control { k with running := rn } L :=
  ⟨C.rings, fun t => { C.stands t with running := h t }, C.semMagic⟩

/-- The first waiter is granted what it waited for. -/
theorem control_granted {u : T} {l : List T} {q : Links (Node T (Head T S))}
    (C : Control k L) (hl : L (.sem s) = u :: l)
    (R : Rings q (Function.update L (.sem s) l)) :
    Control (granted k s u q) (Function.update L (.sem s) l) := by
  have hat := (C.stands u).home (.sem s) (by rw [hl]; exact List.mem_cons_self)
  have C₁ := control_unqueued (l := []) C hl R
    (w := k.state u \ {.semaphore, .delayed}) (p := k.pc u)
    (fun _ _ h => (Finset.mem_sdiff.mp h).1) (sendsTo_of_waitsOn hat.1)
    (fun h => absurd (by decide) (Finset.mem_sdiff.mp h).2)
  rw [Function.update_eq_self] at C₁
  exact C₁.data k.priority k.basePriority
    (Function.update k.count s (moreCount k s)) k.type k.owndby k.resq

/-- **A signal keeps the control state.** -/
theorem Signals.control [Fintype T] [Fintype S] {c : Option T}
    (G : Signals k L c s k' L' o) (C : Control k L) : Control k' L' := by
  cases G with
  | refuse _ _ _ hk hL _ => rw [hk, hL]; exact C
  | unnest _ _ hk hL _ =>
    rw [hk, hL]
    exact C.data k.priority k.basePriority k.count _ k.owndby k.resq
  | give _ _ hk hL _ =>
    rw [hk, hL]
    exact C.data k.priority k.basePriority _ k.type k.owndby k.resq
  | grant u l q _ hl hL R hk _ =>
    rw [hL] at R ⊢
    exact (control_granted C hl R).still hk
  | release c' _ p _ _ _ k₁ hk₁ _ hk hL _ =>
    rw [hk₁] at hk
    rw [hL]
    exact (C.data _ k.basePriority _ k.type _ _).still hk
  | handOver c' _ p u l q _ _ hl hL R rn hrn k₁ hk₁ _ hk _ =>
    rw [hk₁] at hk
    rw [hL] at R ⊢
    have hrun : ∀ t, 0 ≤ rn t := by
      intro t
      rcases hrn with rfl | rfl
      · exact (C.stands t).running
      · by_cases ht : t = u
        · rw [ht, Function.update_self]
        · rw [Function.update_of_ne ht]
          exact (C.stands t).running
    have C₁ := Control.setRunning (control_granted C hl R) hrun
    exact (C₁.data _ k.basePriority _ k.type _ _).still hk

/-- A task that signals is as it was, up to its bits. -/
theorem Signals.caller [Fintype T] [Fintype S] {c : Option T} {c' : T}
    (G : Signals k L c s k' L' o) (C : Control k L) (hc : Caller k c') :
    Caller k' c' := by
  have hun := C.caller_unlinked hc (.sem s)
  have hstate : ∀ u : T, Disjoint (Function.update k.state u
      (k.state u \ {.semaphore, .delayed}) c') blocking := by
    intro u
    by_cases hu : c' = u
    · rw [← hu, Function.update_self]
      exact Disjoint.mono_left Finset.sdiff_subset hc.bits
    · rw [Function.update_of_ne hu]
      exact hc.bits
  have hsame : ∀ {k₁ : Kernel T S}, Still k₁ k' → k₁.pc = k.pc →
      k₁.msgTask = k.msgTask → k₁.retTask = k.retTask →
      Disjoint (k₁.state c') blocking → Caller k' c' := by
    intro k₁ hk hp hm hr hst
    refine Caller.still ⟨?_, ?_, ?_, ?_, hst⟩ hk
    · rw [hp]; exact hc.waits
    · rw [hp]; exact hc.sends
    · rw [hm]; exact hc.msgTask
    · rw [hr]; exact hc.retTask
  cases G with
  | refuse _ _ _ hk _ _ => rw [hk]; exact hc
  | unnest _ _ hk _ _ =>
    rw [hk]
    exact ⟨hc.waits, hc.sends, hc.msgTask, hc.retTask, hc.bits⟩
  | give _ _ hk _ _ =>
    rw [hk]
    exact ⟨hc.waits, hc.sends, hc.msgTask, hc.retTask, hc.bits⟩
  | grant u _ _ _ _ _ _ hk _ =>
    exact hsame hk rfl rfl rfl (hstate u)
  | release _ _ _ _ _ _ _ hk₁ _ hk _ _ =>
    rw [hk₁] at hk
    exact hsame hk rfl rfl rfl hc.bits
  | handOver _ _ _ u _ _ _ _ _ _ _ _ _ _ hk₁ _ hk _ =>
    rw [hk₁] at hk
    exact hsame hk rfl rfl rfl (hstate u)

end

end RtaiSemControl
