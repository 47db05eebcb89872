import Rtai.Timed

/-! # Deadlines of remote calls

    The message of `rt_rpc_until` reaches its receiver on one of two paths.
    When the receiver is already waiting, the caller delivers the message
    itself and blocks in the receiver's `ret_queue` with its timeout.  When it
    is not, the caller blocks in the `msg_queue` with its timeout, and the
    receive that takes the message moves it to the `ret_queue`.  That receive
    takes the caller out of the timed list and clears `RT_SCHED_DELAYED`, so
    on this path the wait for the answer has no deadline any more. -/

namespace RtaiRpcDeadlines

open RtaiRuns RtaiKernel RtaiSchedCore RtaiTaskApi RtaiSched RtaiMsg
  RtaiSteps RtaiTimed

variable {T S : Type} [decT : DecidableEq T] [decS : DecidableEq S] [finT : Fintype T]
  [finS : Fintype S]

/-! ## What is to be kept -/

/-- The places of the rpcs and receives. -/
def rpcPlace : Pc T S → Prop
  | .idle => True
  | .start => True
  | .rpc _ => True
  | .receive _ => True
  | .receiveIf _ => True
  | .proxyReturn _ _ => True
  | _ => False

/-- The state of a task in a timed rpc: it waits to be received or to be
    answered, not for both, and it is delayed as long as it waits. -/
def RpcState (s : TaskState) : Prop :=
  .receive ∉ s ∧ ¬ (.rpc ∈ s ∧ .ret ∈ s) ∧ (.rpc ∈ s ∨ .ret ∈ s → .delayed ∈ s)

theorem RpcState.congr {s s' : TaskState} (h : pending s = pending s')
    (hs : RpcState s) : RpcState s' := by
  have hmem : ∀ {f : Flag}, f ≠ .ready → f ≠ .sftrdy → (f ∈ s ↔ f ∈ s') :=
    mem_of_pending h
  unfold RpcState at hs ⊢
  rwa [← hmem (by decide) (by decide), ← hmem (f := .rpc) (by decide)
    (by decide), ← hmem (f := .ret) (by decide) (by decide),
    ← hmem (f := .delayed) (by decide) (by decide)]

/-- Bits are lost, and the timeout only with the wait. -/
theorem RpcState.loses {s m : TaskState} (hs : RpcState s)
    (hm : .delayed ∈ m → .rpc ∉ s \ m ∧ .ret ∉ s \ m) : RpcState (s \ m) := by
  obtain ⟨h1, h2, h3⟩ := hs
  refine ⟨fun h => h1 (Finset.mem_sdiff.mp h).1, ?_, ?_⟩
  · rintro ⟨h, h'⟩
    exact h2 ⟨(Finset.mem_sdiff.mp h).1, (Finset.mem_sdiff.mp h').1⟩
  · intro h
    rw [Finset.mem_sdiff]
    constructor
    · exact h3 (h.imp (fun h => (Finset.mem_sdiff.mp h).1) fun h => (Finset.mem_sdiff.mp h).1)
    · intro hd
      exact h.elim (hm hd).1 (hm hd).2

/-- A task in `rt_rpc_until` that waits is delayed. -/
def rpcRegime (T S : Type) : Regime T S where
  calm := {.delayed, .receive, .rpc, .ret}
  ok := RpcState
  inside := fun p => ∃ d, p = .rpc d
  place := rpcPlace
  delayed := by decide
  apart := by decide
  bits := fun _ _ => RpcState.congr
  woken := by
    intro s hs
    refine hs.loses fun _ => ⟨?_, ?_⟩ <;> simp [timedMask]
  idle := by
    rintro ⟨d, hd⟩
    exact nomatch hd
  start := by
    rintro ⟨d, hd⟩
    exact nomatch hd
  places := ⟨trivial, trivial⟩

/-- The time of a timed rpc. -/
def rpcTime : Op T S → Option Int
  | .rpcUntil _ _ time => some time
  | _ => none

/-- The task whose queued message a receive takes. -/
def takes (k : Kernel T S) (c : T) : Op T S → Option T
  | .receive src => taken src
  | .receiveIf src => taken src
  | .receiveUntil src _ => taken src
  | _ => none
where
  taken (src : Option T) : Option T :=
    if src.any (fun t => !k.magic t) then none
    else (receiveSource k c src).filter (hasMessage k c)

/-- What a task without a deadline leaves behind. -/
abbrev Settles (dl : T → Option Int) (k : Kernel T S) : Prop :=
  Settled (rpcRegime T S) dl k

section Calls

variable {k k' : Kernel T S} {dl : T → Option Int} {c t dest : T} {o : Option (Ret T)}

/-- What holds of the bits of a task that executes. -/
theorem executing_calm (h : Settles dl k) (hc : executes k c = true) :
    Disjoint (k.state c) {.delayed, .receive, .rpc, .ret} :=
  h.executing nofun hc

/-! ## Remote calls -/

/-- **A waiting receiver is given a message**: it is not in a timed rpc. -/
theorem deliver_settled {msg : Word} {b : Bool} (h : Settles dl k)
    (hacc : .receive ∈ k.state dest)
    (hd : deliver k c dest msg = some (k', b)) :
    Settles dl k' ∧ k'.resumeTime = k.resumeTime ∧
      ∀ u, u ≠ dest → pending (k'.state u) = pending (k.state u) := by
  have hdl : ∀ d, dl dest ≠ some d := by
    intro d hd
    exact (h.kept dest d hd).2.2.1 hacc
  have h0 : Settles dl { k with
      msg := Function.update k.msg dest msg
      msgTask := Function.update k.msgTask dest (.task c)
      retTask := Function.update k.retTask dest .null } :=
    h.steady (Steady.lists k ..)
  have h1 := h0.unlinks dest
  have hst := remTimedTask_state { k with
      msg := Function.update k.msg dest msg
      msgTask := Function.update k.msgTask dest (.task c)
      retTask := Function.update k.retTask dest .null } dest
  have hrt : (remTimedTask { k with
      msg := Function.update k.msg dest msg
      msgTask := Function.update k.msgTask dest (.task c)
      retTask := Function.update k.retTask dest .null } dest).resumeTime =
        k.resumeTime := by
    unfold remTimedTask
    split <;> rfl
  simp only [deliver] at hd
  generalize remTimedTask _ dest = k₁ at hd h1 hst hrt
  split at hd
  · next hready =>
      cases hd
      exact ⟨h1.ready hready, hrt, fun u _ => by rw [hst]⟩
  · have h2 := h1.clears (m := {.receive, .delayed}) (by decide) fun d hd => absurd hd (hdl d)
    have hother : ∀ u, u ≠ dest → Function.update k₁.state dest
        (k₁.state dest \ {.receive, .delayed}) u = k.state u := by
      intro u hu
      rw [Function.update_of_ne hu, hst]
    split at hd
    · next hready =>
        obtain ⟨k₂, hk₂, hd⟩ := Option.bind_eq_some_iff.mp hd
        cases hd
        have hk := enqReadyTask_steady hk₂ hready
        refine ⟨h2.steady hk, hk.resumeTime.trans hrt, fun u hu => ?_⟩
        rw [hk.state u]
        exact congrArg pending (hother u hu)
    · cases hd
      exact ⟨h2, hrt, fun u hu => congrArg pending (hother u hu)⟩

/-- The caller has taken the bits of its wait, and is not linked yet. -/
def Queued (dl : T → Option Int) (c : T) (F : TaskState) (k k' : Kernel T S) : Prop :=
  Unlinked (rpcRegime T S) dl (some c) c k' ∧ k'.resumeTime = k.resumeTime ∧
    ∃ b, (b = .rpc ∨ b = .ret) ∧ ∀ f, f ≠ .ready → f ≠ .sftrdy →
        (f ∈ k'.state c ↔ f ∈ k.state c ∨ f = b ∨ f ∈ F)

theorem queued_of_steady {k₁ k₂ : Kernel T S} {F : TaskState} {b : Flag}
    (h₁ : Settles dl k₁) (hdl : dl c = none)
    (hc : Disjoint (k.state c) {.delayed, .receive, .rpc, .ret})
    (hb : b = .rpc ∨ b = .ret) (hst : pending (k₁.state c) = pending (k.state c))
    (hrt : k₁.resumeTime = k.resumeTime) (hk : Steady k₁ k₂) :
    Queued dl c F k { k₂ with
      state := Function.update k₂.state c (k₂.state c ∪ insert b F) } := by
  have hst₂ := (hk.state c).trans hst
  have hcd : .delayed ∉ k₂.state c := by
    rw [mem_of_pending hst₂ (by decide) (by decide)]
    exact fun hf => Finset.disjoint_left.mp hc hf (by decide)
  refine ⟨(h₁.steady hk).takes c _ hdl hcd, hk.resumeTime.trans hrt, b, hb, ?_⟩
  intro f hf1 hf2
  show f ∈ Function.update k₂.state c _ c ↔ _
  rw [Function.update_self, Finset.mem_union, Finset.mem_insert, mem_of_pending hst₂ hf1 hf2]

/-- The message has been handed to a waiting receiver. -/
theorem rpcDeliver_queued {toDo : Word} {F : TaskState} (h : Settles dl k)
    (hdl : dl c = none) (hc : executes k c = true)
    (hacc : accepts k c dest = true)
    (hr : rpcDeliver k c dest toDo F = some k') : Queued dl c F k k' := by
  have hcalm := executing_calm h hc
  have hrec : .receive ∈ k.state dest := by
    simp only [accepts, Bool.and_eq_true, decide_eq_true_eq] at hacc
    exact hacc.1
  have hne : c ≠ dest := by
    rintro rfl
    exact Finset.disjoint_left.mp hcalm hrec (by decide)
  simp only [rpcDeliver] at hr
  obtain ⟨⟨k₁, b⟩, hk₁, hr⟩ := Option.bind_eq_some_iff.mp hr
  obtain ⟨k₂, hk₂, hr⟩ := Option.bind_eq_some_iff.mp hr
  cases hr
  have h0 : Settles dl { k with msg := Function.update k.msg c toDo } :=
    h.steady (Steady.lists k ..)
  obtain ⟨h1, hrt, hst⟩ := deliver_settled h0 hrec hk₁
  exact queued_of_steady h1 hdl hcalm (Or.inr rfl) (hst c hne) hrt (enqueueBlocked_steady hk₂)

/-- The message waits in the receiver's queue. -/
theorem rpcQueue_queued {toDo : Word} {F : TaskState} (h : Settles dl k)
    (hdl : dl c = none) (hc : executes k c = true)
    (hr : rpcQueue k c dest toDo F = some k') : Queued dl c F k k' := by
  simp only [rpcQueue] at hr
  obtain ⟨k₁, hk₁, hr⟩ := Option.bind_eq_some_iff.mp hr
  cases hr
  exact queued_of_steady h hdl (executing_calm h hc) (Or.inl rfl) rfl rfl
    ((Steady.lists k ..).trans (enqueueBlocked_steady hk₁))

/-- The end of the first section of an rpc. -/
theorem rpcBlock_steady (h : rpcBlock k c dest = some k') : Steady k k' ∧ Asleep k' c := by
  obtain ⟨k₁, hk₁, h⟩ := Option.bind_eq_some_iff.mp h
  cases h
  have h1 := remReadyCurrent_steady k₁ c
  exact ⟨((passPrio_steady hk₁).trans h1).trans (Steady.lists _ ..),
    asleep_remReadyCurrent k₁ c⟩

/-- **The caller sleeps without a timeout.** -/
theorem Queued.sleeps {k₁ : Kernel T S} (h : Queued dl c ∅ k k₁)
    (hc : Disjoint (k.state c) {.delayed, .receive, .rpc, .ret})
    (hdl : dl c = none) (hb : rpcBlock k₁ c dest = some k') :
    Settles dl { k' with pc := Function.update k'.pc c (.rpc dest) } := by
  obtain ⟨h1, -, b, hb₁, hst⟩ := h
  obtain ⟨hk, hsl⟩ := rpcBlock_steady hb
  refine Timed.moves ((h1.steady hk).sleeps hsl ?_) hdl trivial
  rw [mem_of_pending (hk.state c) (by decide) (by decide), hst _ (by decide) (by decide)]
  rintro (hf | rfl | hf)
  · exact Finset.disjoint_left.mp hc hf (by decide)
  · exact hb₁.elim nofun nofun
  · exact absurd hf (Finset.notMem_empty _)

/-- **The caller sleeps with its timeout.** -/
theorem Queued.sleepsTimed {k₁ k₂ : Kernel T S} (h : Queued dl c {.delayed} k k₁)
    (hc : Disjoint (k.state c) {.delayed, .receive, .rpc, .ret})
    (hdl : dl c = none) (hb : rpcBlock k₁ c dest = some k₂)
    (he : enqTimedTask k₂ c = some k') :
    Settles dl { k' with pc := Function.update k'.pc c (.rpc dest) } ∧
      k'.resumeTime = k.resumeTime ∧ RpcState (k'.state c) := by
  obtain ⟨h1, hrt, b, hb₁, hst⟩ := h
  obtain ⟨hk, hsl⟩ := rpcBlock_steady hb
  have hmem : ∀ f, f ≠ .ready → f ≠ .sftrdy →
      (f ∈ k₂.state c ↔ f ∈ k.state c ∨ f = b ∨ f ∈ ({.delayed} : TaskState)) :=
    fun f h1 h2 => (mem_of_pending (hk.state c) h1 h2).trans (hst f h1 h2)
  have hdel : .delayed ∈ k₂.state c :=
    (hmem _ (by decide) (by decide)).mpr (Or.inr (Or.inr (by decide)))
  have h2 := (h1.steady hk).sleepsTimed hsl hdel he
  obtain ⟨pos, -, he⟩ := Option.bind_eq_some_iff.mp he
  cases he
  refine ⟨Timed.moves h2 hdl trivial, hk.resumeTime.trans hrt, ?_, ?_, fun _ => hdel⟩
  · -- the caller was not receiving
    rw [hmem _ (by decide) (by decide)]
    rintro (hf | rfl | hf)
    · exact Finset.disjoint_left.mp hc hf (by decide)
    · exact hb₁.elim nofun nofun
    · exact absurd hf (by decide)
  · rw [hmem _ (by decide) (by decide), hmem _ (by decide) (by decide)]
    have hrpc : .rpc ∉ k.state c :=
      fun hf => Finset.disjoint_left.mp hc hf (by decide)
    have hret : .ret ∉ k.state c :=
      fun hf => Finset.disjoint_left.mp hc hf (by decide)
    rcases hb₁ with rfl | rfl <;> simp [hrpc, hret]

theorem rtRpc_settled {toDo : Word} (h : Settles dl k) (hdl : dl c = none)
    (hc : executes k c = true) (hr : rtRpc k c dest toDo = some (k', o)) :
    Settles dl k' := by
  simp only [rtRpc] at hr
  split at hr
  · cases hr
    exact h
  · -- the two paths end in the same way
    have hend : ∀ {k₁ : Kernel T S}, Queued dl c ∅ k k₁ →
        (rpcBlock k₁ c dest).bind (fun k => stay k c (.rpc dest)) =
          some (k', o) → Settles dl k' := by
      intro k₁ hq hr
      obtain ⟨k₂, hk₂, hr⟩ := Option.bind_eq_some_iff.mp hr
      cases hr
      exact hq.sleeps (executing_calm h hc) hdl hk₂
    split at hr
    · next hacc =>
        obtain ⟨k₁, hk₁, hr⟩ := Option.bind_eq_some_iff.mp hr
        exact hend (rpcDeliver_queued h hdl hc hacc hk₁) hr
    · obtain ⟨k₁, hk₁, hr⟩ := Option.bind_eq_some_iff.mp hr
      exact hend (rpcQueue_queued h hdl hc hk₁) hr

theorem rtRpcIf_settled {toDo : Word} (h : Settles dl k) (hdl : dl c = none)
    (hc : executes k c = true) (hr : rtRpcIf k c dest toDo = some (k', o)) :
    Settles dl k' := by
  simp only [rtRpcIf] at hr
  split at hr
  · cases hr
    exact h
  · split at hr
    · next hacc =>
        obtain ⟨k₁, hk₁, hr⟩ := Option.bind_eq_some_iff.mp hr
        obtain ⟨k₂, hk₂, hr⟩ := Option.bind_eq_some_iff.mp hr
        cases hr
        exact (rpcDeliver_queued h hdl hc hacc hk₁).sleeps (executing_calm h hc) hdl hk₂
    · cases hr
      exact h

/-- **`rt_rpc_until`**: a caller that sleeps has got its deadline, on both
    paths. -/
theorem rtRpcUntil_settled {toDo : Word} {time : Int} (h : Settles dl k)
    (hdl : dl c = none) (hc : executes k c = true)
    (hr : rtRpcUntil k c dest toDo time = some (k', o)) :
    Settles dl k' ∧ (o = none → k'.resumeTime c = time ∧
      k'.pc c = .rpc dest ∧ RpcState (k'.state c)) := by
  simp only [rtRpcUntil] at hr
  split at hr
  · cases hr
    exact ⟨h, nofun⟩
  · have h0 : Settles dl { k with
        resumeTime := Function.update k.resumeTime c time } :=
      Timed.setsTime h time hdl
    split at hr
    · cases hr
      exact ⟨h0, nofun⟩
    · have hend : ∀ {k₁ : Kernel T S}, Queued dl c {.delayed} { k with
            resumeTime := Function.update k.resumeTime c time } k₁ →
          (rpcBlock k₁ c dest).bind (fun k => (enqTimedTask k c).bind
            fun k => stay k c (.rpc dest)) = some (k', o) →
          Settles dl k' ∧ (o = none → k'.resumeTime c = time ∧
            k'.pc c = .rpc dest ∧ RpcState (k'.state c)) := by
        intro k₁ hq hr
        obtain ⟨k₂, hk₂, hr⟩ := Option.bind_eq_some_iff.mp hr
        obtain ⟨k₃, hk₃, hr⟩ := Option.bind_eq_some_iff.mp hr
        cases hr
        obtain ⟨h3, hrt, hs⟩ :=
          hq.sleepsTimed (executing_calm h0 hc) hdl hk₂ hk₃
        refine ⟨h3, fun _ => ⟨?_, Function.update_self .., hs⟩⟩
        show k₃.resumeTime c = time
        rw [hrt]
        exact Function.update_self ..
      split at hr
      · next hacc =>
          obtain ⟨k₁, hk₁, hr⟩ := Option.bind_eq_some_iff.mp hr
          exact hend (rpcDeliver_queued h0 hdl hc hacc hk₁) hr
      · obtain ⟨k₁, hk₁, hr⟩ := Option.bind_eq_some_iff.mp hr
        exact hend (rpcQueue_queued h0 hdl hc hk₁) hr

/-- A message that has not been sent, or an answer that has not come. -/
theorem rtRpcTail_steady (h : rtRpcTail k c dest = some (k', o)) :
    Steady k k' ∧ ∃ w, o = some w := by
  simp only [rtRpcTail] at h
  split at h
  · cases h
    exact ⟨Steady.refl k, _, rfl⟩
  · simp only [msgNotSent] at h
    split at h
    · obtain ⟨k₁, hk₁, h⟩ := Option.bind_eq_some_iff.mp h
      cases h
      exact ⟨(setTaskPrioFromResq_steady hk₁).trans (Steady.lists k₁ ..), _, rfl⟩
    · cases h
      exact ⟨Steady.lists k .., _, rfl⟩

/-! ## Returns -/

/-- **`rt_return`** ends the wait of the caller with its timeout. -/
theorem rtReturn_settled {result : Word} (h : Settles dl k)
    (hr : rtReturn k c dest result = some (k', o)) :
    Settles dl k' ∧ ∃ w, o = some w := by
  simp only [rtReturn] at hr
  split at hr
  · cases hr
    exact ⟨h, _, rfl⟩
  · split at hr
    · next hret =>
        obtain ⟨k₁, hk₁, hr⟩ := Option.bind_eq_some_iff.mp hr
        have hk := (dequeueBlocked_steady k dest).trans (setTaskPrioFromResq_steady hk₁)
        have h1 : Settles dl { k₁ with
            msg := Function.update k₁.msg dest result
            msgTask := Function.update k₁.msgTask dest (.task dest) } :=
          (h.steady hk).steady (Steady.lists k₁ ..)
        have hret₁ : .ret ∈ k₁.state dest :=
          (mem_of_pending (hk.state dest) (by decide) (by decide)).mpr hret.1
        have h2 := h1.unlinks dest
        have hst := remTimedTask_state { k₁ with
            msg := Function.update k₁.msg dest result
            msgTask := Function.update k₁.msgTask dest (.task dest) } dest
        generalize remTimedTask _ dest = k₂ at hr h2 hst
        split at hr
        · next hready =>
            cases hr
            exact ⟨h2.ready hready, _, rfl⟩
        · have h3 := h2.clears (m := {.ret, .delayed}) (by decide) (by
            intro d _ hok
            refine RpcState.loses hok fun _ => ⟨?_, by simp⟩
            -- a caller that is to be answered is not queued any more
            intro hrpc
            refine hok.2.1 ⟨(Finset.mem_sdiff.mp hrpc).1, ?_⟩
            rw [hst]
            exact hret₁)
          split at hr
          · next hready =>
              obtain ⟨k₃, hk₃, hr⟩ := Option.bind_eq_some_iff.mp hr
              cases hr
              exact ⟨h3.steady (enqReadyTask_steady hk₃ hready), _, rfl⟩
          · cases hr
            exact ⟨h3, _, rfl⟩
    · cases hr
      exact ⟨h, _, rfl⟩

/-! ## Receives -/

/-- **A queued message is taken** from a task without a deadline. -/
theorem takeMessage_settled {b : Bool} (h : Settles dl k) (ht : dl t = none)
    (hm : hasMessage k c t = true)
    (hr : takeMessage k c t = some (k', b)) : Settles dl k' := by
  have hno : ∀ {P : Prop} (d : Int), dl t = some d → P := by
    intro P d hd
    rw [ht] at hd
    exact nomatch hd
  have h0 := (h.steady (dequeueBlocked_steady k t)).unlinks t
  have hst := remTimedTask_state (dequeueBlocked k t) t
  have hbits : .send ∈ k.state t ∨ .rpc ∈ k.state t := by
    simp only [hasMessage, Bool.and_eq_true, Bool.or_eq_true,
      decide_eq_true_eq] at hm
    exact hm.1
  simp only [takeMessage] at hr
  generalize remTimedTask (dequeueBlocked k t) t = k₁ at hr h0 hst
  have h1 : Unlinked (rpcRegime T S) dl none t { k₁ with
      msgTask := Function.update k₁.msgTask c (.task t) } :=
    h0.steady (Steady.lists k₁ ..)
  split at hr
  · -- a sender is released
    obtain ⟨k₂, hk₂, hr⟩ := Option.bind_eq_some_iff.mp hr
    have h2 := (h1.steady (Steady.lists _ ..)).steady (setTaskPrioFromResq_steady hk₂)
    split at hr
    · next hready =>
        cases hr
        exact h2.ready hready
    · have h3 := h2.clears (m := {.send, .delayed}) (by decide) fun d hd => hno d hd
      split at hr
      · next hready =>
          obtain ⟨k₃, hk₃, hr⟩ := Option.bind_eq_some_iff.mp hr
          cases hr
          exact h3.steady (enqReadyTask_steady hk₃ hready)
      · cases hr
        exact h3
  · next hsend =>
      have hrpc : .rpc ∈ k₁.state t := by
        rw [hst]
        refine hbits.resolve_left fun hs => hsend ?_
        show _ ∈ k₁.state t
        rw [hst]
        exact hs
      split at hr
      · obtain ⟨k₂, hk₂, hr⟩ := Option.bind_eq_some_iff.mp hr
        cases hr
        have hk := enqueueBlocked_steady hk₂
        refine (h1.steady hk).setState _ (by simp) ?_ fun d hd => hno d hd
        intro hs ha
        -- a caller of an rpc sleeps
        exfalso
        have hrpc₂ : .rpc ∈ k₂.state t :=
          (mem_of_pending (hk.state t) (by decide) (by decide)).mpr hrpc
        have hcalm : Disjoint (k₂.state t) {.delayed, .receive, .rpc, .ret} :=
          (h1.steady hk).calm t nofun hs ha
        exact Finset.disjoint_left.mp hcalm hrpc₂ (by decide)
      · next hn => exact absurd hrpc hn

/-- The end of a receive. -/
theorem receiveResult_settled {got : Word} {src : TaskPtr T}
    (h : Settles dl k) (hdl : dl c = none)
    (hr : receiveResult k c got src = some (k', o)) : Settles dl k' := by
  simp only [receiveResult] at hr
  split at hr
  · split at hr
    · cases hr
      exact Timed.moves h hdl trivial
    · cases hr
      exact h
  · cases hr
    exact h

theorem receiveEnd_settled {got : Word} (h : Settles dl k)
    (hdl : dl c = none) (hr : receiveEnd k c got = some (k', o)) :
    Settles dl k' := by
  simp only [receiveEnd] at hr
  split at hr
  · cases hr
    exact h.steady (Steady.lists k ..)
  · exact receiveResult_settled (h.steady (Steady.lists k ..)) hdl hr

theorem rtReceiveIfTail_settled {got : Word} (h : Settles dl k)
    (hdl : dl c = none) (hr : rtReceiveIfTail k c got = some (k', o)) :
    Settles dl k' := by
  simp only [rtReceiveIfTail] at hr
  split at hr
  · cases hr
    exact h.steady (Steady.lists k ..)
  · exact receiveResult_settled (h.steady (Steady.lists k ..)) hdl hr

omit decS finT finS in
/-- The task whose message is taken has no deadline. -/
theorem taken_no_deadline {src : Option T} (hsrc : ¬ src.any (fun t => !k.magic t) = true)
    (ht : receiveSource k c src = some t) (hm : hasMessage k c t = true)
    (htake : ∀ t, takes.taken k c src = some t → dl t = none) :
    dl t = none := by
  refine htake t ?_
  simp only [takes.taken, if_neg hsrc, ht, Option.filter_some, hm, if_true]

/-- A message that is there is taken, and what follows keeps the wait. -/
theorem received_settled {tail : Kernel T S → Option (Outcome T S)} {p : Pc T S}
    (h : Settles dl k) (hdl : dl c = none) (ht : dl t = none)
    (hm : hasMessage k c t = true)
    (htail : ∀ {k₁}, Settles dl k₁ → tail k₁ = some (k', o) → Settles dl k')
    (hr : ((takeMessage k c t).bind fun taken =>
      if taken.2 then stay taken.1 c p else tail taken.1) = some (k', o))
    (hp : rpcPlace p) : Settles dl k' := by
  obtain ⟨⟨k₁, ready⟩, hk₁, hr⟩ := Option.bind_eq_some_iff.mp hr
  have h1 := takeMessage_settled h ht hm hk₁
  simp only at hr
  split at hr
  · cases hr
    exact Timed.moves h1 hdl hp
  · exact htail h1 hr

theorem rtReceive_settled {src : Option T} (h : Settles dl k)
    (hdl : dl c = none) (hc : executes k c = true)
    (htake : ∀ t, takes.taken k c src = some t → dl t = none)
    (hr : rtReceive k c src = some (k', o)) : Settles dl k' := by
  have hcalm := executing_calm h hc
  simp only [rtReceive] at hr
  split at hr
  · cases hr
    exact h
  · next hsrc =>
      obtain ⟨t, ht, hr⟩ := Option.bind_eq_some_iff.mp hr
      split at hr
      · next hm =>
          have hnone := taken_no_deadline hsrc ht hm htake
          exact received_settled h hdl hnone hm
            (fun h1 hend => receiveEnd_settled h1 hdl hend) hr trivial
      · cases hr
        have h0 : Settles dl { k with
            retTask := Function.update k.retTask c .higerr } :=
          h.steady (Steady.lists k ..)
        have h1 := h0.takes c {.receive} hdl
          fun hf => Finset.disjoint_left.mp hcalm hf (by decide)
        have hk := remReadyCurrent_steady { k with
          retTask := Function.update k.retTask c .higerr
          state := Function.update k.state c (k.state c ∪ {.receive}) } c
        have h2 := (h1.steady hk).sleeps (asleep_remReadyCurrent _ c) (by
          rw [mem_of_pending (hk.state c) (by decide) (by decide)]
          show _ ∉ Function.update k.state c _ c
          rw [Function.update_self, Finset.mem_union]
          rintro (hf | hf)
          · exact Finset.disjoint_left.mp hcalm hf (by decide)
          · exact absurd hf (by decide))
        exact Timed.moves (h2.steady (Steady.lists _ ..)) hdl trivial

theorem rtReceiveIf_settled {src : Option T} (h : Settles dl k) (hdl : dl c = none)
    (htake : ∀ t, takes.taken k c src = some t → dl t = none)
    (hr : rtReceiveIf k c src = some (k', o)) : Settles dl k' := by
  simp only [rtReceiveIf] at hr
  split at hr
  · cases hr
    exact h
  · next hsrc =>
      obtain ⟨t, ht, hr⟩ := Option.bind_eq_some_iff.mp hr
      split at hr
      · next hm =>
          have hnone := taken_no_deadline hsrc ht hm htake
          exact received_settled h hdl hnone hm
            (fun h1 hend => rtReceiveIfTail_settled h1 hdl hend) hr trivial
      · cases hr
        exact h

theorem rtReceiveUntil_settled {src : Option T} {time : Int}
    (h : Settles dl k) (hdl : dl c = none) (hc : executes k c = true)
    (htake : ∀ t, takes.taken k c src = some t → dl t = none)
    (hr : rtReceiveUntil k c src time = some (k', o)) : Settles dl k' := by
  have hcalm := executing_calm h hc
  simp only [rtReceiveUntil] at hr
  split at hr
  · cases hr
    exact h
  · next hsrc =>
      obtain ⟨t, ht, hr⟩ := Option.bind_eq_some_iff.mp hr
      split at hr
      · next hm =>
          have hnone := taken_no_deadline hsrc ht hm htake
          exact received_settled h hdl hnone hm
            (fun h1 hend => receiveEnd_settled h1 hdl hend) hr trivial
      · have h0 : Settles dl { k with
            retTask := Function.update k.retTask c .higerr
            resumeTime := Function.update k.resumeTime c time } :=
          Timed.setsTime (k := { k with
            retTask := Function.update k.retTask c .higerr })
            (h.steady (Steady.lists k ..)) time hdl
        split at hr
        · obtain ⟨k₁, hk₁, hr⟩ := Option.bind_eq_some_iff.mp hr
          cases hr
          have h1 := h0.takes c {.receive, .delayed} hdl
            fun hf => Finset.disjoint_left.mp hcalm hf (by decide)
          have hk := remReadyCurrent_steady { k with
            retTask := Function.update k.retTask c .higerr
            resumeTime := Function.update k.resumeTime c time
            state := Function.update k.state c (k.state c ∪ {.receive, .delayed}) } c
          have hdel : .delayed ∈ (remReadyCurrent { k with
              retTask := Function.update k.retTask c .higerr
              resumeTime := Function.update k.resumeTime c time
              state := Function.update k.state c
                (k.state c ∪ {.receive, .delayed}) } c).state c := by
            rw [mem_of_pending (hk.state c) (by decide) (by decide)]
            show _ ∈ Function.update k.state c _ c
            rw [Function.update_self]
            exact Finset.mem_union_right _ (by decide)
          refine Timed.moves (Unlinked.sleepsTimed ?_ ?_ ?_ hk₁) hdl trivial
          · exact (h1.steady hk).steady (Steady.lists _ ..)
          · exact asleep_remReadyCurrent _ c
          · exact hdel
        · exact receiveEnd_settled h0 hdl hr

/-- The answer to a proxy. -/
theorem proxyReturnTail_settled {src : T} {got : Word} (h : Settles dl k)
    (hr : proxyReturnTail k c src got = some (k', o)) :
    Settles dl k' ∧ ∃ w, o = some w := by
  obtain ⟨⟨k₁, v⟩, hk₁, hr⟩ := Option.bind_eq_some_iff.mp hr
  cases hr
  exact ⟨(rtReturn_settled h hk₁).1, _, rfl⟩

/-! ## Unblocking -/

/-- **`rt_task_masked_unblock`** that takes the timeout of a timed rpc takes
    the wait as well. -/
theorem rtTaskMaskedUnblock_settled {mask : TaskState} (h : Settles dl k)
    (hmask : dl t ≠ none → .delayed ∈ mask → Disjoint (k.state t \ mask) {.rpc, .ret})
    (hr : rtTaskMaskedUnblock k t mask = some (k', o)) : Settles dl k' := by
  simp only [rtTaskMaskedUnblock] at hr
  split at hr
  · cases hr
    exact h
  · split at hr
    · have hok : ∀ d, dl t = some d → RpcState (k.state t) → RpcState (k.state t \ mask) := by
        intro d hd hs
        refine hs.loses fun hm => ?_
        have hdis := hmask (by rw [hd]; nofun) hm
        exact ⟨fun hf => Finset.disjoint_left.mp hdis hf (by decide),
          fun hf => Finset.disjoint_left.mp hdis hf (by decide)⟩
      -- the bits go, and the link in the timed list with them
      have hclear : ∀ {k₁ : Kernel T S} {sd : T → Int},
          k₁ = (if .delayed ∈ mask then remTimedTask k t else k) →
          (∀ u, 0 ≤ sd u) →
          Settles dl { k₁ with
            suspdepth := sd
            state := Function.update k₁.state t (k₁.state t \ mask) } := by
        intro k₁ sd hk₁ hsd
        by_cases hd : .delayed ∈ mask
        · rw [if_pos hd] at hk₁
          have h1 := h.unlinks t
          have hst := remTimedTask_state k t
          rw [← hk₁] at h1 hst
          have h2 : Settles dl { k₁ with
              state := Function.update k₁.state t (k₁.state t \ mask) } :=
            h1.clears hd (by rw [hst]; exact hok)
          exact { h2 with deep := hsd }
        · rw [if_neg hd] at hk₁
          subst hk₁
          have h2 := h.setState t (k₁.state t \ mask)
            (by rw [Finset.mem_sdiff]; exact and_iff_left hd)
            (fun hs ha => Disjoint.mono_left Finset.sdiff_subset (h.calm t nofun hs ha)) hok
          exact { h2 with deep := hsd }
      generalize hk₁ : (if .delayed ∈ mask then remTimedTask k t else k) = k₁ at hr hclear
      have hdeep : ∀ u, 0 ≤ k₁.suspdepth u := by
        rw [← hk₁]
        split
        · exact (h.unlinks t).deep
        · exact h.deep
      generalize hk₂ : (if .suspended ∈ mask ∧ .suspended ∈ k₁.state t ∧
          k₁.suspdepth t > 0 then
          { k₁ with suspdepth := Function.update k₁.suspdepth t 0 }
        else k₁) = k₂ at hr
      have h2 : Settles dl { k₂ with
          state := Function.update k₂.state t (k₂.state t \ mask) } := by
        rw [← hk₂]
        split
        · refine @hclear k₁ _ rfl fun u => ?_
          show 0 ≤ Function.update k₁.suspdepth t 0 u
          by_cases hu : u = t
          · subst hu
            rw [Function.update_self]
          · rw [Function.update_of_ne hu]
            exact hdeep u
        · exact @hclear k₁ _ rfl hdeep
      split at hr
      · next hready =>
          obtain ⟨k₃, hk₃, hr⟩ := Option.bind_eq_some_iff.mp hr
          cases hr
          exact h2.steady ((Steady.lists _ ..).trans (enqReadyTask_steady hk₃ hready))
      · cases hr
        exact h2
    · cases hr
      exact h

end Calls

/-! ## The runs -/

/-- The rpcs, receives and returns, and `rt_task_masked_unblock`; tasks are
    started with `rt_task_resume`. -/
def RpcOp (k : Kernel T S) : Op T S → Prop
  | .rpc _ _ => True
  | .rpcIf _ _ => True
  | .rpcUntil _ _ _ => True
  | .ret _ _ => True
  | .receive _ => True
  | .receiveIf _ => True
  | .receiveUntil _ _ => True
  | .unblock _ _ => True
  | .resume t => 0 < k.suspdepth t ∧ k.pc t = .idle
  | _ => False

/-- The steps of tasks that call. -/
def RpcAction (x : Deadlined T S) : Action T S → Prop
  | .call _ op => RpcOp x.kernel op
  | .linux op => RpcOp x.kernel op
  | _ => True

/-- An unblock that takes the timeout of a task in a timed rpc takes its wait
    as well. -/
def UnblocksWhole (x : Deadlined T S) : Op T S → Prop
  | .unblock t mask => x.deadline t ≠ none → .delayed ∈ mask →
      Disjoint (x.kernel.state t \ mask) {.rpc, .ret}
  | _ => True

/-- No receive takes the queued message of a task in a timed rpc, and no
    unblock takes its timeout only. -/
def SparesTimeouts (x : Deadlined T S) : Action T S → Prop
  | .call c op => UnblocksWhole x op ∧ ∀ t, takes x.kernel c op = some t → x.deadline t = none
  | .linux op => UnblocksWhole x op
  | _ => True

section Step

variable {x x' : Deadlined T S} {a : Action T S} {o : Option (Ret T)}

/-- **EVERY CALL KEEPS THE DEADLINES** of the others, and sets that of a task
    that goes to sleep in a timed rpc. -/
theorem taskOp_settled {c : T} {op : Op T S} {r : Outcome T S}
    (h : Settles x.deadline x.kernel) (hop : RpcOp x.kernel op)
    (hdl : x.deadline c = none) (hc : executes x.kernel c = true)
    (hun : UnblocksWhole x op)
    (htake : ∀ t, takes x.kernel c op = some t → x.deadline t = none)
    (hr : taskOp x.kernel c op = some r) :
    Settles x.deadline r.1 ∧ (r.2 = none → ∀ d, rpcTime op = some d →
      r.1.resumeTime c = d ∧ (rpcRegime T S).inside (r.1.pc c) ∧
        (rpcRegime T S).ok (r.1.state c)) := by
  obtain ⟨k', o⟩ := r
  cases op with
  | rpc dest toDo => exact ⟨rtRpc_settled h hdl hc hr, fun _ _ => nofun⟩
  | rpcIf dest toDo => exact ⟨rtRpcIf_settled h hdl hc hr, fun _ _ => nofun⟩
  | rpcUntil dest toDo time =>
    obtain ⟨h', hin⟩ := rtRpcUntil_settled h hdl hc hr
    refine ⟨h', fun ho d hd => ?_⟩
    cases hd
    obtain ⟨h1, h2, h3⟩ := hin ho
    exact ⟨h1, ⟨dest, h2⟩, h3⟩
  | ret dest result => exact ⟨(rtReturn_settled h hr).1, fun _ _ => nofun⟩
  | receive src =>
    exact ⟨rtReceive_settled h hdl hc htake hr, fun _ _ => nofun⟩
  | receiveIf src =>
    exact ⟨rtReceiveIf_settled h hdl htake hr, fun _ _ => nofun⟩
  | receiveUntil src time =>
    exact ⟨rtReceiveUntil_settled h hdl hc htake hr, fun _ _ => nofun⟩
  | unblock t mask =>
    exact ⟨rtTaskMaskedUnblock_settled h hun hr, fun _ _ => nofun⟩
  | resume t =>
    exact ⟨(rtTaskResume_settled h hop.1 hop.2 hr).1, fun _ _ => nofun⟩
  | _ => exact hop.elim

/-- What a task does when it comes back from its sleep. -/
theorem contOp_settled {k : Kernel T S} {dl : T → Option Int} {c : T}
    {r : Outcome T S} (h : Settles dl k) (hdl : dl c = none)
    (hr : contOp k c = some r) :
    Settles dl r.1 ∧ (r.2 = none → ¬ (rpcRegime T S).inside (k.pc c)) := by
  obtain ⟨k', o⟩ := r
  have hp : rpcPlace (k.pc c) := h.places c
  have hout : ∀ {p : Pc T S}, (∀ d, p ≠ .rpc d) → ¬ (rpcRegime T S).inside p := by
    rintro p hne ⟨d, hd⟩
    exact hne d hd
  simp only [contOp] at hr
  cases hpc : k.pc c with
  | rpc dest =>
    rw [hpc] at hr
    obtain ⟨hk, w, rfl⟩ := rtRpcTail_steady hr
    exact ⟨h.steady hk, nofun⟩
  | receive got =>
    rw [hpc] at hr
    exact ⟨receiveEnd_settled h hdl hr, fun _ => hout nofun⟩
  | receiveIf got =>
    rw [hpc] at hr
    exact ⟨rtReceiveIfTail_settled h hdl hr, fun _ => hout nofun⟩
  | proxyReturn src got =>
    rw [hpc] at hr
    exact ⟨(proxyReturnTail_settled h hr).1, fun _ => hout nofun⟩
  | idle => rw [hpc] at hr; exact nomatch hr
  | start => rw [hpc] at hr; exact nomatch hr
  | _ => rw [hpc] at hp; exact hp.elim

/-- A call from outside any task. -/
theorem linuxOp_settled {op : Op T S} {r : Outcome T S}
    (h : Settles x.deadline x.kernel) (hop : RpcOp x.kernel op)
    (hun : UnblocksWhole x op) (hr : linuxOp x.kernel op = some r) :
    Settles x.deadline r.1 := by
  obtain ⟨k', o⟩ := r
  cases op with
  | unblock t mask => exact rtTaskMaskedUnblock_settled h hun hr
  | resume t => exact (rtTaskResume_settled h hop.1 hop.2 hr).1
  | rpc dest toDo => exact nomatch hr
  | rpcIf dest toDo => exact nomatch hr
  | rpcUntil dest toDo time => exact nomatch hr
  | ret dest result => exact nomatch hr
  | receive src => exact nomatch hr
  | receiveIf src => exact nomatch hr
  | receiveUntil src time => exact nomatch hr
  | _ => exact hop.elim

/-- **One step keeps the timed list and the deadlines.** -/
theorem rpcAction_settled (h : Settles x.deadline x.kernel)
    (ha : RpcAction x a) (hs : SparesTimeouts x a)
    (hx : keepTime rpcTime x a = some (x', o)) :
    Settles x'.deadline x'.kernel := by
  refine Settled.step h ?_ ?_ ?_ hx
  · rintro c op r rfl hex hdl hr
    exact taskOp_settled h ha hdl hex hs.1 hs.2 hr
  · rintro c dl r rfl hdl h - hr
    exact contOp_settled h hdl hr
  · rintro op r rfl hr
    exact linuxOp_settled h ha hs hr

end Step

/-- **A TIMED CALLER KEEPS ITS DEADLINE** in every run in which no receive takes
    the queued message of a task in `rt_rpc_until` and no unblock takes its
    timeout only: whoever waits there to be received or to be answered is
    delayed and linked in the timed list with the time it has passed. -/
theorem callers_keep_deadlines (cfg : Config T S) (x : Deadlined T S)
    (h : Reach (keepTime rpcTime)
      (fun x a => RpcAction x a ∧ SparesTimeouts x a) (untimed cfg) x) :
    DeadlinesKept {.rpc, .ret} x := by
  have hinv : Settles x.deadline x.kernel := by
    refine h.invariant (I := fun x => Settles x.deadline x.kernel)
      (settled_boot (rpcRegime T S) cfg) ?_
    intro x a x' o h ⟨ha, hs⟩ hx
    exact rpcAction_settled h ha hs hx
  -- the regime allows the two bits only to who is delayed
  refine deadlinesKept_of_settled hinv fun s hok hb => hok.2.2 ?_
  by_contra hs
  refine hb (Finset.disjoint_right.mpr fun f hf => ?_)
  rw [not_or] at hs
  rcases Finset.mem_insert.mp hf with rfl | hf
  · exact hs.1
  · rw [Finset.mem_singleton.mp hf]
    exact hs.2

instance (k : Kernel T S) (op : Op T S) : Decidable (RpcOp k op) := by
  induction op using Op.casesOn <;> unfold RpcOp <;> infer_instance

instance (x : Deadlined T S) (a : Action T S) : Decidable (RpcAction x a) := by
  induction a using RtaiSteps.Action.casesOn <;> unfold RpcAction <;>
    infer_instance

instance (x : Deadlined T S) (op : Op T S) : Decidable (UnblocksWhole x op) := by
  induction op using Op.casesOn <;> unfold UnblocksWhole <;> infer_instance

instance (x : Deadlined T S) (a : Action T S) : Decidable (SparesTimeouts x a) := by
  induction a using RtaiSteps.Action.casesOn <;> unfold SparesTimeouts <;>
    infer_instance

/-- A server and a client, both hard. -/
def serverAndClient : Config (Fin 2) (Fin 0) where
  hard := fun _ => true
  priority := fun _ => 0
  receiver := fun _ => none
  schedlat := fun _ => 0
  linuxSchedlat := 0
  sems := nofun
  time := 0

/-- The server receives first, and the client calls it. -/
def deliveredRun : List (RtaiSteps.Action (Fin 2) (Fin 0)) :=
  [.linux (.resume 0), .dispatch 0, .call 0 (.receive none),
    .linux (.resume 1), .dispatch 1, .call 1 (.rpcUntil 0 7 100)]

theorem callers_keep_deadlines_delivered :
    ∃ x : Deadlined (Fin 2) (Fin 0), x.deadline 1 = some 100 ∧
      .ret ∈ x.kernel.state 1 ∧ DeadlinesKept {.rpc, .ret} x := by
  obtain ⟨x, hplay, hd, hs⟩ : ∃ x, play (keepTime rpcTime)
      (fun x a => RpcAction x a ∧ SparesTimeouts x a)
      (untimed serverAndClient) deliveredRun = some x ∧
      x.deadline 1 = some 100 ∧
      x.kernel.state 1 = {.ready, .ret, .delayed} :=
    ⟨_, rfl, rfl, by decide⟩
  exact ⟨x, hd, by rw [hs]; decide,
    callers_keep_deadlines serverAndClient x (reach_of_play hplay)⟩

/-- The client calls first, and the server receives. -/
def queuedRun : List (RtaiSteps.Action (Fin 2) (Fin 0)) :=
  [.linux (.resume 1), .dispatch 1, .call 1 (.rpcUntil 0 7 100),
    .linux (.resume 0), .dispatch 0, .call 0 (.receive none)]

/-- **A QUEUED CALLER LOSES ITS DEADLINE** when its message is received. -/
theorem queued_caller_untimed : ∃ x : Deadlined (Fin 2) (Fin 0),
      Reach (keepTime rpcTime) RpcAction (untimed serverAndClient) x ∧
      ¬ DeadlinesKept {.rpc, .ret} x := by
  obtain ⟨x, hplay, hd, hs⟩ : ∃ x, play (keepTime rpcTime) RpcAction
      (untimed serverAndClient) queuedRun = some x ∧
      x.deadline 1 = some 100 ∧ x.kernel.state 1 = {.ready, .ret} :=
    ⟨_, rfl, rfl, by decide⟩
  refine ⟨x, reach_of_play hplay, fun h => ?_⟩
  have hdel := (h 1 100 hd (by rw [hs]; decide)).1
  rw [hs] at hdel
  exact absurd hdel (by decide)

end RtaiRpcDeadlines
