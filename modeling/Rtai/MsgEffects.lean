import Rtai.Frames
import Rtai.ListFrames

/-! # What the messages do

    For each of `rt_rpc`, `rt_send_if`, `rt_return` and the receives, what it
    does to `msg`, to the `task` fields of `msg_queue` and `ret_queue`, and to
    the bits of a messaging call, once for a caller that finds its receiver
    waiting and once for one that does not.  The receives are those of a
    system without plain sends and without proxies. -/

namespace RtaiMsgEffects

open RtaiKernel RtaiSchedCore RtaiTaskApi RtaiMsg RtaiFrames
  RtaiListFrames

variable {T S : Type}

/-- The bits of a messaging call. -/
def messaging : TaskState := {.send, .receive, .rpc, .ret}

/-- Only a task without a bit of a messaging call is woken up. -/
structure Rouses (k k' : Kernel T S) : Prop where
  isHard : k'.isHard = k.isHard
  awake : ∀ u, Awake k' u → Awake k u ∨ Disjoint (k'.state u) messaging

/-- No message goes anywhere; bits of messaging calls may get lost. -/
structure Calm (k k' : Kernel T S) : Prop where
  rouses : Rouses k k'
  receiver : k'.receiver = k.receiver
  pc : k'.pc = k.pc
  msg : k'.msg = k.msg
  msgTask : k'.msgTask = k.msgTask
  retTask : k'.retTask = k.retTask
  bits : ∀ u f, f ∈ messaging → f ∈ k'.state u → f ∈ k.state u

theorem Rouses.refl (k : Kernel T S) : Rouses k k :=
  ⟨rfl, fun _ h => Or.inl h⟩

theorem Rouses.trans {k₁ k₂ k₃ : Kernel T S} (h : Rouses k₁ k₂) (h' : Rouses k₂ k₃)
    (hbits : ∀ u f, f ∈ messaging → f ∈ k₃.state u → f ∈ k₂.state u) :
    Rouses k₁ k₃ where
  isHard := h'.isHard.trans h.isHard
  awake := by
    intro u hu
    obtain hu | hu := h'.awake u hu
    · refine (h.awake u hu).imp id fun hd => ?_
      refine Finset.disjoint_left.mpr fun f hf hm => ?_
      exact Finset.disjoint_left.mp hd (hbits u f hm hf) hm
    · exact Or.inr hu

theorem Calm.refl (k : Kernel T S) : Calm k k :=
  ⟨Rouses.refl k, rfl, rfl, rfl, rfl, rfl, fun _ _ _ h => h⟩

theorem Calm.trans {k₁ k₂ k₃ : Kernel T S} (h : Calm k₁ k₂) (h' : Calm k₂ k₃) :
    Calm k₁ k₃ where
  rouses := h.rouses.trans h'.rouses h'.bits
  receiver := h'.receiver.trans h.receiver
  pc := h'.pc.trans h.pc
  msg := h'.msg.trans h.msg
  msgTask := h'.msgTask.trans h.msgTask
  retTask := h'.retTask.trans h.retTask
  bits := fun u f hf hu => h.bits u f hf (h'.bits u f hf hu)

theorem Calm.of_relinked {k k' : Kernel T S} (h : Relinked k k') : Calm k k' := by
  obtain ⟨_, _, _, _, _, _, _, _, rfl, hst, haw⟩ := h
  have hne : ∀ f ∈ messaging, f ≠ .sftrdy := by decide
  refine ⟨⟨rfl, fun u hu => ?_⟩, rfl, rfl, rfl, rfl, rfl,
    fun u f hf hu => (hst u f (hne f hf)).mp hu⟩
  refine (haw u hu).imp id fun hsub => Finset.disjoint_left.mpr fun f hf hm => ?_
  have hr := hsub ((hst u f (hne f hm)).mp hf)
  have hd : Disjoint ({.ready, .sftrdy} : TaskState) messaging := by decide
  exact Finset.disjoint_left.mp hd hr hm

/-- Linking wakes up ready tasks only. -/
theorem awake_of_relinked {k k' : Kernel T S} {u : T} (h : Relinked k k')
    (hu : Awake k' u) : Awake k u ∨ k.state u ⊆ {.ready, .sftrdy} := by
  obtain ⟨_, _, _, _, _, _, _, _, rfl, -, haw⟩ := h
  exact haw u hu

theorem Calm.of_still {k k' : Kernel T S} (h : Still k k') : Calm k k' := by
  obtain ⟨_, _, _, _, _, _, _, _, _, _, _, rfl, hst, haw, -⟩ := h
  have hsub : messaging ⊆ blocking := by decide
  refine ⟨⟨rfl, fun u hu => ?_⟩, rfl, rfl, rfl, rfl, rfl, fun u f hf => hst u f (hsub hf)⟩
  exact (haw u hu).imp id fun hd => Disjoint.mono_right hsub hd

variable [decT : DecidableEq T]

theorem Calm.clear (k : Kernel T S) (t : T) (m : TaskState) :
    Calm k { k with state := Function.update k.state t (k.state t \ m) } := by
  refine ⟨⟨rfl, fun _ h => Or.inl h⟩, rfl, rfl, rfl, rfl, rfl, fun u f _ hu => ?_⟩
  have hu : f ∈ Function.update k.state t (k.state t \ m) u := hu
  by_cases hut : u = t
  · rw [hut, Function.update_self] at hu
    exact hut ▸ (Finset.mem_sdiff.mp hu).1
  · rwa [Function.update_of_ne hut] at hu

/-- The call of `c` has returned, or not begun: only its own fields have
    changed. -/
structure Settles (c : T) (k k' : Kernel T S) : Prop where
  rouses : Rouses k k'
  receiver : k'.receiver = k.receiver
  pc : k'.pc = k.pc
  msg : k'.msg = k.msg
  msgTask : ∀ u, u ≠ c → k'.msgTask u = k.msgTask u
  retTask : ∀ u, u ≠ c → k'.retTask u = k.retTask u
  retSelf : k'.retTask c = .null ∨ k'.retTask c = k.retTask c
  bits : ∀ u f, f ∈ messaging → f ∈ k'.state u → f ∈ k.state u

omit decT in
theorem Settles.of_calm {c : T} {k k' : Kernel T S} (h : Calm k k') :
    Settles c k k' :=
  ⟨h.rouses, h.receiver, h.pc, h.msg, fun _ _ => by rw [h.msgTask],
    fun _ _ => by rw [h.retTask], Or.inr (by rw [h.retTask]), h.bits⟩

omit decT in
theorem Settles.calm {c : T} {k k₁ k₂ : Kernel T S} (h : Calm k k₁)
    (h' : Settles c k₁ k₂) : Settles c k k₂ where
  rouses := h.rouses.trans h'.rouses h'.bits
  receiver := h'.receiver.trans h.receiver
  pc := h'.pc.trans h.pc
  msg := h'.msg.trans h.msg
  msgTask := fun u hu => by rw [h'.msgTask u hu, h.msgTask]
  retTask := fun u hu => by rw [h'.retTask u hu, h.retTask]
  retSelf := by rw [← h.retTask]; exact h'.retSelf
  bits := fun u f hf hu => h.bits u f hf (h'.bits u f hf hu)

/-- `msg_queue.task` of the caller is set. -/
theorem Settles.setMsgTask (k : Kernel T S) (c : T) (p : TaskPtr T) :
    Settles c k { k with msgTask := Function.update k.msgTask c p } :=
  ⟨⟨rfl, fun _ h => Or.inl h⟩, rfl, rfl, rfl,
    fun _ hu => Function.update_of_ne hu _ _, fun _ _ => rfl, Or.inr rfl,
    fun _ _ _ h => h⟩

variable [decS : DecidableEq S] [finT : Fintype T] [finS : Fintype S] {k k' : Kernel T S}
  {c dest t : T}

/-! ## Handing a message over -/

/-- The message is put into the waiting receiver. -/
structure Hands (k : Kernel T S) (c dest : T) (w : Word) (k' : Kernel T S) :
    Prop where
  rouses : Rouses k k'
  receiver : k'.receiver = k.receiver
  pc : k'.pc = k.pc
  msg : k'.msg = Function.update k.msg dest w
  msgTask : k'.msgTask = Function.update k.msgTask dest (.task c)
  retTask : k'.retTask = Function.update k.retTask dest .null
  bits : ∀ u f, f ∈ messaging → f ∈ k'.state u → f ∈ k.state u ∧ ¬ (u = dest ∧ f = .receive)

omit decS finT finS in
theorem Hands.calm {w : Word} {k₁ k₂ : Kernel T S} (h : Hands k c dest w k₁)
    (h' : Calm k₁ k₂) : Hands k c dest w k₂ where
  rouses := h.rouses.trans h'.rouses h'.bits
  receiver := h'.receiver.trans h.receiver
  pc := h'.pc.trans h.pc
  msg := h'.msg.trans h.msg
  msgTask := h'.msgTask.trans h.msgTask
  retTask := h'.retTask.trans h.retTask
  bits := fun u f hf hu => h.bits u f hf (h'.bits u f hf hu)

omit decS finS in
theorem deliver_hands {w : Word} {b : Bool}
    (h : deliver k c dest w = some (k', b)) : Hands k c dest w k' := by
  simp only [deliver] at h
  generalize hk₁ : remTimedTask { k with
    msg := Function.update k.msg dest w
    msgTask := Function.update k.msgTask dest (.task c)
    retTask := Function.update k.retTask dest .null } dest = k₁ at h
  have h₁ : Calm { k with
      msg := Function.update k.msg dest w
      msgTask := Function.update k.msgTask dest (.task c)
      retTask := Function.update k.retTask dest .null } k₁ :=
    hk₁ ▸ .of_relinked (remTimedTask_relinked _ dest)
  have hhands : ∀ {k₂ : Kernel T S}, Calm k₁ k₂ → .receive ∉ k₂.state dest →
      Hands k c dest w k₂ := by
    intro k₂ h₂ hn
    have h₃ := h₁.trans h₂
    refine ⟨⟨h₃.rouses.isHard, h₃.rouses.awake⟩, h₃.receiver, h₃.pc, h₃.msg,
      h₃.msgTask, h₃.retTask, ?_⟩
    intro u f hf hu
    refine ⟨h₃.bits u f hf hu, ?_⟩
    rintro ⟨rfl, rfl⟩
    exact hn hu
  split at h
  · next hready =>
    cases h
    exact hhands (Calm.refl _) (by rw [hready]; decide)
  · have hclear := Calm.clear k₁ dest {.receive, .delayed}
    have hn : .receive ∉ Function.update k₁.state dest
        (k₁.state dest \ {.receive, .delayed}) dest := by
      rw [Function.update_self]
      simp
    split at h
    · next hready =>
      obtain ⟨k₂, he, h⟩ := Option.bind_eq_some_iff.mp h
      cases h
      have h₂ := Calm.of_relinked (enqReadyTask_relinked he hready)
      exact hhands (hclear.trans h₂) fun hm => hn (h₂.bits dest _ (by decide) hm)
    · cases h
      exact hhands hclear hn

/-- The message makes the receiver ready. -/
def wakes (k : Kernel T S) (dest : T) : Prop :=
  k.state dest \ {.receive, .delayed} = {.ready}

omit decS finS in
theorem deliver_wakes {w : Word} {b : Bool} (ha : accepts k c dest = true)
    (h : deliver k c dest w = some (k', b)) : b = true ↔ wakes k dest := by
  have hst : ∀ k₁ : Kernel T S, (remTimedTask k₁ dest).state = k₁.state := by
    intro k₁
    simp only [remTimedTask]
    split
    · rfl
    · rfl
  have hin : .receive ∈ k.state dest := by
    simp only [accepts, Bool.and_eq_true, decide_eq_true_eq] at ha
    exact ha.1
  simp only [deliver, hst] at h
  split at h
  · next hready =>
    rw [hready] at hin
    exact absurd hin (by decide)
  · rw [Function.update_self] at h
    split at h
    · next hw =>
      obtain ⟨k₂, -, h⟩ := Option.bind_eq_some_iff.mp h
      cases h
      exact iff_of_true rfl hw
    · next hw =>
      cases h
      exact iff_of_false (by rintro ⟨⟩) hw

omit decS finT finS in
theorem rtSendIfTail_settles {r : Outcome T S} (h : rtSendIfTail k c dest = some r) :
    Settles c k r.1 ∧ ∃ v, r.2 = some v := by
  simp only [rtSendIfTail] at h
  split at h
  · cases h
    exact ⟨Settles.setMsgTask k c _, _, rfl⟩
  · cases h
    exact ⟨.of_calm (Calm.refl k), _, rfl⟩

/-- `rt_send_if` either does nothing, or hands its message over. -/
theorem rtSendIf_effect {w : Word} {r : Outcome T S} (h : rtSendIf k c dest w = some r) :
    ((k.magic dest && accepts k c dest) = false ∧ ∃ v, r = (k, some v)) ∨
    (k.magic dest && accepts k c dest) = true ∧ ∃ k₁, Hands k c dest w k₁ ∧ (wakes k dest ∧
        r = ({ k₁ with pc := Function.update k₁.pc c (.sendIf dest) }, none) ∨
       ¬ wakes k dest ∧ Settles c k₁ r.1 ∧ ∃ v, r.2 = some v) := by
  simp only [rtSendIf] at h
  split at h
  · next hm =>
    cases h
    refine Or.inl ⟨?_, _, rfl⟩
    rw [Bool.not_eq_true'] at hm
    rw [hm]
    rfl
  · next hm =>
    rw [Bool.not_eq_true', Bool.not_eq_false] at hm
    split at h
    · next ha =>
      refine Or.inr ⟨by rw [hm, ha]; rfl, ?_⟩
      obtain ⟨⟨k₁, b⟩, h₁, h⟩ := Option.bind_eq_some_iff.mp h
      refine ⟨k₁, deliver_hands h₁, ?_⟩
      have hb := deliver_wakes ha h₁
      cases b with
      | true =>
        cases h
        exact Or.inl ⟨hb.mp rfl, rfl⟩
      | false =>
        refine Or.inr ⟨fun hw => (nomatch hb.mpr hw), ?_⟩
        exact rtSendIfTail_settles h
    · next ha =>
      cases h
      refine Or.inl ⟨?_, _, rfl⟩
      rw [Bool.not_eq_true] at ha
      rw [ha, Bool.and_false]

/-! ## Remote procedure calls -/

/-- The caller has gone to sleep; of the others, only a task without a bit of
    a messaging call is woken up. -/
structure Dozes (c : T) (k k' : Kernel T S) : Prop where
  isHard : k'.isHard = k.isHard
  awake : ∀ u, k.isHard u = false → Awake k' u →
    u ≠ c ∧ (Awake k u ∨ Disjoint (k'.state u) messaging)

/-- A call has begun: its message has been handed over, or is queued. -/
structure Calls (k : Kernel T S) (c dest : T) (w : Word) (k' : Kernel T S) :
    Prop where
  dozes : Dozes c k k'
  receiver : k'.receiver = k.receiver
  pc : k'.pc = Function.update k.pc c (.rpc dest)
  msg : k'.msg = if accepts k c dest
    then Function.update (Function.update k.msg c w) dest w
    else Function.update k.msg c w
  msgTask : k'.msgTask = Function.update
    (if accepts k c dest then Function.update k.msgTask dest (.task c)
     else k.msgTask) c (.task dest)
  retTask : k'.retTask = if accepts k c dest
    then Function.update k.retTask dest .null else k.retTask
  bits : ∀ u f, f ∈ messaging → f ∈ k'.state u →
    f ∈ k.state u ∧ ¬ (accepts k c dest = true ∧ u = dest ∧ f = .receive) ∨
    u = c ∧ f = (if accepts k c dest then .ret else .rpc)

omit decS finT finS in
/-- The bits of the call are set. -/
theorem mem_set_bit {f b : Flag} {F : TaskState} {u : T} (hf : f ∈ messaging)
    (hF : ∀ f ∈ messaging, f ∈ insert b F → f = b)
    (hu : f ∈ Function.update k.state c (k.state c ∪ insert b F) u) :
    f ∈ k.state u ∨ u = c ∧ f = b := by
  by_cases huc : u = c
  · rw [huc, Function.update_self, Finset.mem_union] at hu
    rw [huc]
    exact hu.imp id fun hb => ⟨rfl, hF f hf hb⟩
  · rw [Function.update_of_ne huc] at hu
    exact Or.inl hu

/-- The place of the message before `pass_prio`. -/
theorem rpc_placed {w : Word} {F : TaskState} {k₁ : Kernel T S} (hF : F = ∅ ∨ F = {.delayed})
    (h : (if accepts k c dest then rpcDeliver k c dest w F
      else rpcQueue k c dest w F) = some k₁) :
    (k₁.isHard = k.isHard ∧ ∀ u, u ≠ c → Awake k₁ u →
      Awake k u ∨ Disjoint (k₁.state u) messaging) ∧
    k₁.receiver = k.receiver ∧ k₁.pc = k.pc ∧
    (k₁.msg = if accepts k c dest
      then Function.update (Function.update k.msg c w) dest w
      else Function.update k.msg c w) ∧
    (k₁.msgTask = if accepts k c dest
      then Function.update k.msgTask dest (.task c) else k.msgTask) ∧
    (k₁.retTask = if accepts k c dest
      then Function.update k.retTask dest .null else k.retTask) ∧
    ∀ u f, f ∈ messaging → f ∈ k₁.state u →
      f ∈ k.state u ∧ ¬ (accepts k c dest = true ∧ u = dest ∧ f = .receive) ∨
      u = c ∧ f = (if accepts k c dest then .ret else .rpc) := by
  have hbit : ∀ b, ∀ f ∈ messaging, f ∈ insert b F → f = b := by
    intro b f hf hb
    obtain hb | hb := Finset.mem_insert.mp hb
    · exact hb
    · obtain rfl | rfl := hF
      · exact absurd hb (Finset.notMem_empty f)
      · rw [Finset.mem_singleton.mp hb] at hf
        exact absurd hf (by decide)
  have hothers : ∀ {k₂ : Kernel T S} {st : TaskState}, Rouses k k₂ → ∀ u, u ≠ c →
      Awake k₂ u → Awake k u ∨ Disjoint (Function.update k₂.state c st u) messaging := by
    intro k₂ st hr u hu ha
    rw [Function.update_of_ne hu]
    exact hr.awake u ha
  by_cases ha : accepts k c dest = true
  · simp only [if_pos ha] at h ⊢
    obtain ⟨⟨k₂, b⟩, h₂, h⟩ := Option.bind_eq_some_iff.mp h
    obtain ⟨k₃, h₃, h⟩ := Option.bind_eq_some_iff.mp h
    cases h
    have hh := (deliver_hands h₂).calm (.of_relinked (enqueueBlocked_relinked h₃))
    refine ⟨⟨hh.rouses.isHard, hothers ⟨hh.rouses.isHard, hh.rouses.awake⟩⟩,
      hh.receiver, hh.pc, hh.msg, hh.msgTask, hh.retTask, ?_⟩
    intro u f hf hu
    obtain hu | hu := mem_set_bit hf (hbit .ret) hu
    · obtain ⟨hu, hn⟩ := hh.bits u f hf hu
      exact Or.inl ⟨hu, fun h => hn h.2⟩
    · exact Or.inr hu
  · simp only [if_neg ha] at h ⊢
    obtain ⟨k₂, h₂, h⟩ := Option.bind_eq_some_iff.mp h
    cases h
    have hc := Calm.of_relinked (enqueueBlocked_relinked h₂)
    refine ⟨⟨hc.rouses.isHard, hothers ⟨hc.rouses.isHard, hc.rouses.awake⟩⟩,
      hc.receiver, hc.pc, hc.msg, hc.msgTask, hc.retTask, ?_⟩
    intro u f hf hu
    obtain hu | hu := mem_set_bit hf (hbit .rpc) hu
    · exact Or.inl ⟨hc.bits u f hf hu, fun h => ha h.1⟩
    · exact Or.inr hu

theorem rpcBlock_effect (h : rpcBlock k c dest = some k') :
    ∃ k₁, Calm k k₁ ∧ (k₁.isHard c = false → ¬ Awake k₁ c) ∧
      k' = { k₁ with msgTask := Function.update k₁.msgTask c (.task dest) } := by
  simp only [rpcBlock] at h
  obtain ⟨k₁, h₁, h⟩ := Option.bind_eq_some_iff.mp h
  cases h
  refine ⟨_, .of_relinked ((passLoop_relinked h₁).trans
    (remReadyCurrent_relinked k₁ c)), fun hs => remReadyCurrent_asleep k₁ ?_, rfl⟩
  rw [← hs]
  simp only [remReadyCurrent]
  split
  · rfl
  · rfl

omit decT decS finT finS in
/-- What the caller did before it went to sleep. -/
theorem Calm.dozes {k₁ k₃ : Kernel T S} (h : Calm k₁ k₃)
    (hcalls : k₁.isHard = k.isHard ∧ ∀ u, u ≠ c → Awake k₁ u →
      Awake k u ∨ Disjoint (k₁.state u) messaging)
    (hc : k₃.isHard c = false → ¬ Awake k₃ c) : Dozes c k k₃ where
  isHard := h.rouses.isHard.trans hcalls.1
  awake := by
    intro u hs hu
    have hne : u ≠ c := by
      rintro rfl
      exact hc (by rw [h.rouses.isHard, hcalls.1, hs]) hu
    refine ⟨hne, ?_⟩
    obtain hu | hu := h.rouses.awake u hu
    · refine (hcalls.2 u hne hu).imp id fun hd => ?_
      refine Finset.disjoint_left.mpr fun f hf hm => ?_
      exact Finset.disjoint_left.mp hd (h.bits u f hm hf) hm
    · exact Or.inr hu

theorem rtRpc_effect {w : Word} {r : Outcome T S} (h : rtRpc k c dest w = some r) :
    (∃ v, r = (k, some v)) ∨ r.2 = none ∧ Calls k c dest w r.1 := by
  simp only [rtRpc] at h
  split at h
  · cases h
    exact Or.inl ⟨_, rfl⟩
  · refine Or.inr ?_
    have hplace : ∀ {k₁ : Kernel T S}, (if accepts k c dest then
        rpcDeliver k c dest w ∅ else rpcQueue k c dest w ∅) = some k₁ →
        (do
          let k ← rpcBlock k₁ c dest
          stay k c (.rpc dest)) = some r →
        r.2 = none ∧ Calls k c dest w r.1 := by
      intro k₁ h₁ h
      obtain ⟨hrouse, hrec, hpc, hmsg, hmt, hrt, hbits⟩ :=
        rpc_placed (Or.inl rfl) h₁
      obtain ⟨k₂, h₂, h⟩ := Option.bind_eq_some_iff.mp h
      obtain ⟨k₃, hc, hasleep, rfl⟩ := rpcBlock_effect h₂
      cases h
      have hdoze := hc.dozes hrouse hasleep
      refine ⟨rfl, ⟨hdoze.isHard, hdoze.awake⟩, hc.receiver.trans hrec, ?_,
        hc.msg.trans hmsg, ?_, hc.retTask.trans hrt, fun u f hf hu => hbits u f hf (hc.bits u f hf hu)⟩
      · show Function.update k₃.pc c _ = _
        rw [hc.pc, hpc]
      · show Function.update k₃.msgTask c _ = _
        rw [hc.msgTask, hmt]
    split at h
    · next ha =>
      obtain ⟨k₁, h₁, h⟩ := Option.bind_eq_some_iff.mp h
      exact hplace (by rw [if_pos ha]; exact h₁) h
    · next ha =>
      obtain ⟨k₁, h₁, h⟩ := Option.bind_eq_some_iff.mp h
      exact hplace (by rw [if_neg ha]; exact h₁) h

omit decS finT finS in
/-- The time of a call is no messaging matter. -/
theorem Calls.of_time {w : Word} {rt : T → Int}
    (h : Calls { k with resumeTime := rt } c dest w k') : Calls k c dest w k' :=
  ⟨⟨h.dozes.isHard, h.dozes.awake⟩, h.receiver, h.pc, h.msg, h.msgTask, h.retTask, h.bits⟩

omit decS finS in
theorem enqTimedTask_awake (h : enqTimedTask k c = some k') (u : T) :
    Awake k' u ↔ Awake k u := by
  obtain ⟨pos, -, h⟩ := Option.bind_eq_some_iff.mp h
  cases h
  exact Iff.rfl

theorem rtRpcUntil_effect {w : Word} {time : Int} {r : Outcome T S}
    (h : rtRpcUntil k c dest w time = some r) :
    (∃ v, r.2 = some v ∧ Calm k r.1) ∨ r.2 = none ∧ Calls k c dest w r.1 := by
  simp only [rtRpcUntil] at h
  split at h
  · cases h
    exact Or.inl ⟨_, rfl, Calm.refl k⟩
  split at h
  · cases h
    exact Or.inl ⟨_, rfl, ⟨rfl, fun _ h => Or.inl h⟩, rfl, rfl, rfl, rfl, rfl,
      fun _ _ _ h => h⟩
  · refine Or.inr ?_
    generalize hk₀ : ({ k with
      resumeTime := Function.update k.resumeTime c time } : Kernel T S) = k₀ at h
    suffices hcalls : r.2 = none ∧ Calls k₀ c dest w r.1 by
      subst hk₀
      exact ⟨hcalls.1, hcalls.2.of_time⟩
    have hplace : ∀ {k₁ : Kernel T S}, (if accepts k₀ c dest then
        rpcDeliver k₀ c dest w {.delayed} else rpcQueue k₀ c dest w {.delayed}) = some k₁ →
        (do
          let k ← rpcBlock k₁ c dest
          let k ← enqTimedTask k c
          stay k c (.rpc dest)) = some r →
        r.2 = none ∧ Calls k₀ c dest w r.1 := by
      intro k₁ h₁ h
      obtain ⟨hrouse, hrec, hpc, hmsg, hmt, hrt, hbits⟩ :=
        rpc_placed (Or.inr rfl) h₁
      obtain ⟨k₂, h₂, h⟩ := Option.bind_eq_some_iff.mp h
      obtain ⟨k₄, h₄, hstay⟩ := Option.bind_eq_some_iff.mp h
      obtain ⟨k₃, hc, hasleep, rfl⟩ := rpcBlock_effect h₂
      have hlink := enqTimedTask_relinked h₄
      have hc' := Calm.of_relinked hlink
      cases hstay
      have hrouses : Rouses k₃ { k₄ with pc := k₁.pc, msgTask := k₁.msgTask } :=
        ⟨hc'.rouses.isHard, hc'.rouses.awake⟩
      have hcalm : Calm k₁ { k₄ with pc := k₁.pc, msgTask := k₁.msgTask } :=
        ⟨hc.rouses.trans hrouses hc'.bits, hc'.receiver.trans hc.receiver, rfl,
          hc'.msg.trans hc.msg, rfl, hc'.retTask.trans hc.retTask,
          fun u f hf hu => hc.bits u f hf (hc'.bits u f hf hu)⟩
      have hdoze := hcalm.dozes hrouse (c := c) fun hs ha => hasleep
        (by rw [← hs]; exact (congrFun hc'.rouses.isHard c).symm)
        ((enqTimedTask_awake h₄ c).mp ha)
      refine ⟨rfl, ⟨hdoze.isHard, hdoze.awake⟩,
        (hc'.receiver.trans hc.receiver).trans hrec, ?_,
        (hc'.msg.trans hc.msg).trans hmsg, ?_,
        (hc'.retTask.trans hc.retTask).trans hrt, fun u f hf hu =>
          hbits u f hf (hc.bits u f hf (hc'.bits u f hf hu))⟩
      · show Function.update k₄.pc c _ = _
        rw [hc'.pc]
        show Function.update k₃.pc c _ = _
        rw [hc.pc, hpc]
      · show k₄.msgTask = _
        rw [hc'.msgTask]
        show Function.update k₃.msgTask c _ = _
        rw [hc.msgTask, hmt]
    split at h
    · next ha =>
      obtain ⟨k₁, h₁, h⟩ := Option.bind_eq_some_iff.mp h
      exact hplace (by rw [if_pos ha]; exact h₁) h
    · next ha =>
      obtain ⟨k₁, h₁, h⟩ := Option.bind_eq_some_iff.mp h
      exact hplace (by rw [if_neg ha]; exact h₁) h

theorem msgNotSent_settles {r : Outcome T S} (h : msgNotSent k c dest = some r) :
    Settles c k r.1 ∧ ∃ v, r.2 = some v := by
  simp only [msgNotSent] at h
  split at h
  · obtain ⟨k₁, h₁, h⟩ := Option.bind_eq_some_iff.mp h
    cases h
    exact ⟨(Settles.setMsgTask (dequeueBlocked k₁ c) c _).calm (.of_relinked
      ((setTaskPrioFromResq_relinked h₁).trans (dequeueBlocked_relinked k₁ c))),
      _, rfl⟩
  · cases h
    exact ⟨Settles.setMsgTask k c _, _, rfl⟩

theorem rtRpcTail_settles {r : Outcome T S} (h : rtRpcTail k c dest = some r) :
    Settles c k r.1 ∧ ∃ v, r.2 = some v := by
  simp only [rtRpcTail] at h
  split at h
  · cases h
    exact ⟨.of_calm (Calm.refl k), _, rfl⟩
  · exact msgNotSent_settles h

/-! ## Returns -/

/-- The task is in a call that the caller may answer. -/
def answerable (k : Kernel T S) (c dest : T) : Prop :=
  k.magic dest = true ∧ .ret ∈ k.state dest ∧ k.msgTask dest = .task c

/-- The result is given to the task. -/
structure Returns (k : Kernel T S) (dest : T) (result : Word)
    (k' : Kernel T S) : Prop where
  rouses : Rouses k k'
  receiver : k'.receiver = k.receiver
  pc : k'.pc = k.pc
  msg : k'.msg = Function.update k.msg dest result
  msgTask : k'.msgTask = Function.update k.msgTask dest (.task dest)
  retTask : k'.retTask = k.retTask
  bits : ∀ u f, f ∈ messaging → f ∈ k'.state u → f ∈ k.state u ∧ ¬ (u = dest ∧ f = .ret)

theorem rtReturn_effect {result : Word} {r : Outcome T S}
    (h : rtReturn k c dest result = some r) : (∃ v, r.2 = some v) ∧
    (¬ answerable k c dest ∧ r.1 = k ∨ answerable k c dest ∧ Returns k dest result r.1) := by
  simp only [rtReturn] at h
  split at h
  · next hm =>
    cases h
    refine ⟨⟨_, rfl⟩, Or.inl ⟨?_, rfl⟩⟩
    rintro ⟨hm', -⟩
    rw [hm'] at hm
    exact nomatch hm
  · next hm =>
    rw [Bool.not_eq_true', Bool.not_eq_false] at hm
    split at h
    · next ha =>
      obtain ⟨k₁, h₁, h⟩ := Option.bind_eq_some_iff.mp h
      have hc₁ := Calm.of_relinked ((dequeueBlocked_relinked k dest).trans
        (setTaskPrioFromResq_relinked h₁))
      generalize hk₂ : remTimedTask { k₁ with
        msg := Function.update k₁.msg dest result
        msgTask := Function.update k₁.msgTask dest (.task dest) } dest = k₂ at h
      have hc₂ : Calm { k₁ with
          msg := Function.update k₁.msg dest result
          msgTask := Function.update k₁.msgTask dest (.task dest) } k₂ :=
        hk₂ ▸ .of_relinked (remTimedTask_relinked _ dest)
      have hreturns : ∀ {k₃ : Kernel T S}, Calm k₂ k₃ → .ret ∉ k₃.state dest →
          Returns k dest result k₃ := by
        intro k₃ hc₃ hn
        have hc := hc₂.trans hc₃
        have hr : Rouses k₁ k₃ := ⟨hc.rouses.isHard, hc.rouses.awake⟩
        refine ⟨hc₁.rouses.trans hr hc.bits, hc.receiver.trans hc₁.receiver,
          hc.pc.trans hc₁.pc, ?_, ?_, hc.retTask.trans hc₁.retTask, ?_⟩
        · rw [hc.msg, ← hc₁.msg]
        · rw [hc.msgTask, ← hc₁.msgTask]
        · intro u f hf hu
          refine ⟨hc₁.bits u f hf (hc.bits u f hf hu), ?_⟩
          rintro ⟨rfl, rfl⟩
          exact hn hu
      split at h
      · next hready =>
        cases h
        exact ⟨⟨_, rfl⟩, Or.inr ⟨⟨hm, ha⟩, hreturns (Calm.refl _) (by rw [hready]; decide)⟩⟩
      · have hclear := Calm.clear k₂ dest {.ret, .delayed}
        have hn : .ret ∉ Function.update k₂.state dest
            (k₂.state dest \ {.ret, .delayed}) dest := by
          rw [Function.update_self]
          simp
        split at h
        · next hready =>
          obtain ⟨k₃, he, h⟩ := Option.bind_eq_some_iff.mp h
          cases h
          have hc₃ := Calm.of_relinked (enqReadyTask_relinked he hready)
          exact ⟨⟨_, rfl⟩, Or.inr ⟨⟨hm, ha⟩, hreturns (hclear.trans hc₃)
            fun hm => hn (hc₃.bits dest _ (by decide) hm)⟩⟩
        · cases h
          exact ⟨⟨_, rfl⟩, Or.inr ⟨⟨hm, ha⟩, hreturns hclear hn⟩⟩
    · next ha =>
      cases h
      exact ⟨⟨_, rfl⟩, Or.inl ⟨fun hh => ha hh.2, rfl⟩⟩

/-! ## Receives -/

/-- A receive of `c` has returned no message. -/
def noMessage : Ret T → Prop
  | .received _ _ => False
  | _ => True

/-- The message of a queued caller has been taken: the caller waits for the
    answer. -/
structure Takes (k : Kernel T S) (c t : T) (k' : Kernel T S) : Prop where
  rouses : Rouses k k'
  receiver : k'.receiver = k.receiver
  pc : k'.pc = k.pc
  msg : k'.msg = k.msg
  msgTask : ∀ u, u ≠ c → k'.msgTask u = k.msgTask u
  retTask : ∀ u, u ≠ c → k'.retTask u = k.retTask u
  retSelf : k'.retTask c = .null
  bits : ∀ u f, f ∈ messaging → f ∈ k'.state u →
    f ∈ k.state u ∧ ¬ (u = t ∧ f = .rpc) ∨ u = t ∧ f = .ret

/-- The caller waits for a message. -/
structure Awaits (k : Kernel T S) (c : T) (k' : Kernel T S) : Prop where
  dozes : Dozes c k k'
  receiver : k'.receiver = k.receiver
  pc : k'.pc = Function.update k.pc c (.receive none)
  msg : k'.msg = k.msg
  msgTask : ∀ u, u ≠ c → k'.msgTask u = k.msgTask u
  retTask : k'.retTask = Function.update k.retTask c .higerr
  bits : ∀ u f, f ∈ messaging → f ∈ k'.state u → f ∈ k.state u ∨ u = c ∧ f = .receive

/-- What a receive does in its first section. -/
inductive Receives (k : Kernel T S) (c : T) (src : Option T) : Outcome T S → Prop
  | fails {k₁ v} (hv : noMessage v) (hk : Settles c k k₁) : Receives k c src (k₁, some v)
  | takes {u k₁} (hsrc : receiveSource k c src = some u)
      (hm : hasMessage k c u = true) (hr : .rpc ∈ k.state u)
      (hk : Takes k c u k₁) : Receives k c src (k₁, some (.received u (k.msg u)))
  | waits {k₁} (hk : Awaits k c k₁) : Receives k c src (k₁, none)

theorem takeMessage_takes {b : Bool} (hsend : .send ∉ k.state t)
    (hrpc : .rpc ∈ k.state t) (h : takeMessage k c t = some (k', b)) :
    b = false ∧ Rouses k k' ∧ k'.receiver = k.receiver ∧ k'.pc = k.pc ∧
    k'.msg = k.msg ∧ k'.msgTask = Function.update k.msgTask c (.task t) ∧
    k'.retTask = k.retTask ∧
    ∀ u f, f ∈ messaging → f ∈ k'.state u →
      f ∈ k.state u ∧ ¬ (u = t ∧ f = .rpc) ∨ u = t ∧ f = .ret := by
  simp only [takeMessage] at h
  have hst : (remTimedTask (dequeueBlocked k t) t).state = k.state := by
    simp only [remTimedTask]
    split
    · rfl
    · rfl
  have hlink := (dequeueBlocked_relinked k t).trans (remTimedTask_relinked _ t)
  have hc := Calm.of_relinked hlink
  rw [hst, if_neg hsend, if_pos hrpc] at h
  obtain ⟨k₁, h₁, h⟩ := Option.bind_eq_some_iff.mp h
  cases h
  have hlink₁ := enqueueBlocked_relinked h₁
  have hc₁ := Calm.of_relinked hlink₁
  have hnot : ¬ k.state t ⊆ {.ready, .sftrdy} :=
    fun hsub => absurd (hsub hrpc) (by decide)
  refine ⟨rfl, ⟨hc₁.rouses.isHard.trans hc.rouses.isHard, ?_⟩,
    hc₁.receiver.trans hc.receiver, hc₁.pc.trans hc.pc, hc₁.msg.trans hc.msg, ?_, hc₁.retTask.trans hc.retTask, ?_⟩
  · -- the caller of the rpc gets a bit, and is not woken up
    intro u hu
    by_cases hut : u = t
    · subst hut
      obtain hu | hsub := awake_of_relinked hlink₁ hu
      · exact Or.inl ((awake_of_relinked hlink hu).resolve_right hnot)
      · exact absurd hsub hnot
    · show _ ∨ Disjoint (Function.update k₁.state t _ u) _
      rw [Function.update_of_ne hut]
      obtain hu | hd := hc₁.rouses.awake u hu
      · refine (hc.rouses.awake u hu).imp id fun hd => ?_
        refine Finset.disjoint_left.mpr fun f hf hm => ?_
        have hf := hc₁.bits u f hm hf
        exact Finset.disjoint_left.mp hd (by rw [hst]; exact hf) hm
      · exact Or.inr hd
  · rw [hc₁.msgTask, ← hc.msgTask]
  · intro u f hf hu
    have hu : f ∈ Function.update k₁.state t (k₁.state t \ {.rpc, .delayed} ∪ {.ret}) u := hu
    by_cases hut : u = t
    · rw [hut, Function.update_self, Finset.mem_union, Finset.mem_sdiff,
        Finset.mem_singleton] at hu
      rw [hut]
      obtain ⟨hu, hn⟩ | rfl := hu
      · refine Or.inl ⟨hc₁.bits t f hf hu, ?_⟩
        rintro ⟨-, rfl⟩
        exact hn (by decide)
      · exact Or.inr ⟨rfl, rfl⟩
    · rw [Function.update_of_ne hut] at hu
      exact Or.inl ⟨hc₁.bits u f hf hu, fun h => hut h.1⟩

omit decS finT finS in
/-- Without plain sends, a message that can be received is that of a call. -/
theorem rpc_of_hasMessage (hsend : ∀ t, .send ∉ k.state t)
    (hm : hasMessage k c t = true) : .rpc ∈ k.state t := by
  simp only [hasMessage, Bool.and_eq_true, Bool.or_eq_true,
    decide_eq_true_eq] at hm
  exact hm.1.resolve_left (hsend t)

omit decS finT finS in
theorem receiveResult_got {got : Word} (hproxy : k.receiver = fun _ => none) :
    receiveResult k c got (.task t) = some (k, some (.received t got)) := by
  simp only [receiveResult, hproxy]
  rw [if_neg nofun]
  rfl

/-- The end of a receive that has taken a message. -/
theorem receiveEnd_takes {got : Word} {k₁ : Kernel T S} {r : Outcome T S}
    (hproxy : k.receiver = fun _ => none) (hret : k.retTask c = .null)
    (hk₁ : Rouses k k₁ ∧ k₁.receiver = k.receiver ∧ k₁.pc = k.pc ∧ k₁.msg = k.msg ∧
      k₁.msgTask = Function.update k.msgTask c (.task t) ∧
      k₁.retTask = k.retTask ∧
      ∀ u f, f ∈ messaging → f ∈ k₁.state u →
        f ∈ k.state u ∧ ¬ (u = t ∧ f = .rpc) ∨ u = t ∧ f = .ret)
    (h : receiveEnd k₁ c got = some r) :
    ∃ k', r = (k', some (.received t got)) ∧ Takes k c t k' := by
  obtain ⟨hrouses, hrec, hpc, hmsg, hmt, hrt, hbits⟩ := hk₁
  simp only [receiveEnd] at h
  have hgot : k₁.msgTask c = .task t := by
    rw [hmt, Function.update_self]
  rw [if_neg (by rw [hrt, hret]; exact fun hn => hn rfl), hgot,
    receiveResult_got (by exact hrec.trans hproxy)] at h
  cases h
  refine ⟨_, rfl, ⟨hrouses.isHard, hrouses.awake⟩, hrec, hpc, hmsg, ?_,
    fun u _ => by rw [hrt], ?_, hbits⟩
  · intro u hu
    show Function.update k₁.msgTask c _ u = _
    rw [Function.update_of_ne hu, hmt, Function.update_of_ne hu]
  · show k₁.retTask c = _
    rw [hrt, hret]

omit finT finS in
theorem receiveEnd_timeout {got : Word} {r : Outcome T S}
    (hret : k.retTask c ≠ .null) (h : receiveEnd k c got = some r) :
    ∃ v, r.2 = some v ∧ noMessage v ∧ Settles c k r.1 ∧ r.1.retTask c = .null := by
  simp only [receiveEnd, if_pos hret] at h
  cases h
  refine ⟨_, rfl, ?_, ⟨⟨rfl, fun _ h => Or.inl h⟩, rfl, rfl, rfl,
    fun _ hu => Function.update_of_ne hu _ _,
    fun _ hu => Function.update_of_ne hu _ _, Or.inl (Function.update_self ..),
    fun _ _ _ h => h⟩, Function.update_self ..⟩
  split
  · trivial
  · trivial

/-- The first section of `rt_receive` once a message is there. -/
theorem received_effect {src : Option T} {r : Outcome T S}
    (hsend : ∀ t, .send ∉ k.state t) (hproxy : k.receiver = fun _ => none)
    (hret : k.retTask c = .null) (hsrc : receiveSource k c src = some t)
    (hm : hasMessage k c t = true)
    (h : (do
      let (k₁, ready) ← takeMessage k c t
      if ready then stay k₁ c (.receive (some (k.msg t)))
      else receiveEnd k₁ c (k.msg t)) = some r) : Receives k c src r := by
  have hrpc := rpc_of_hasMessage hsend hm
  obtain ⟨⟨k₁, b⟩, h₁, h⟩ := Option.bind_eq_some_iff.mp h
  obtain ⟨rfl, hk₁⟩ := takeMessage_takes (hsend t) hrpc h₁
  obtain ⟨k', rfl, hk'⟩ := receiveEnd_takes hproxy hret hk₁ h
  exact .takes hsrc hm hrpc hk'

/-- The caller goes to sleep in a receive. -/
theorem awaits {F : TaskState} {k₀ : Kernel T S}
    (hF : F = {.receive} ∨ F = {.receive, .delayed})
    (hk₀ : remReadyCurrent { k with
      retTask := Function.update k.retTask c .higerr
      state := Function.update k.state c (k.state c ∪ F) } c = k₀)
    (hk : Calm k₀ { k' with pc := k₀.pc, msgTask := k₀.msgTask })
    (hpc : k'.pc = Function.update k₀.pc c (.receive none))
    (hmt : ∀ u, u ≠ c → k'.msgTask u = k₀.msgTask u)
    (haw : Awake k' c → Awake k₀ c) : Awaits k c k' := by
  have hc := Calm.of_relinked (remReadyCurrent_relinked { k with
    retTask := Function.update k.retTask c .higerr
    state := Function.update k.state c (k.state c ∪ F) } c)
  rw [hk₀] at hc
  have hrouses : Rouses k₀ k' := ⟨hk.rouses.isHard, hk.rouses.awake⟩
  have hcalm : Calm { k with
      retTask := Function.update k.retTask c .higerr
      state := Function.update k.state c (k.state c ∪ F) }
      { k' with pc := k.pc, msgTask := k.msgTask } :=
    ⟨hc.rouses.trans ⟨hrouses.isHard, hrouses.awake⟩ hk.bits,
      hk.receiver.trans hc.receiver, rfl, hk.msg.trans hc.msg, rfl,
      hk.retTask.trans hc.retTask,
      fun u f hf hu => hc.bits u f hf (hk.bits u f hf hu)⟩
  have hdoze : Dozes c k { k' with pc := k.pc, msgTask := k.msgTask } := by
    refine hcalm.dozes ⟨rfl, fun u hu ha => Or.inl ha⟩ fun hs ha => ?_
    refine remReadyCurrent_asleep { k with
      retTask := Function.update k.retTask c .higerr
      state := Function.update k.state c (k.state c ∪ F) } ?_ (hk₀ ▸ haw ha)
    exact (congrFun hcalm.rouses.isHard c).symm.trans hs
  refine ⟨⟨hdoze.isHard, hdoze.awake⟩, hk.receiver.trans hc.receiver, ?_,
    hk.msg.trans hc.msg, ?_, hk.retTask.trans hc.retTask, ?_⟩
  · rw [hpc, hc.pc]
  · intro u hu
    rw [hmt u hu, hc.msgTask]
  · intro u f hf hu
    have hu := hc.bits u f hf (hk.bits u f hf hu)
    have hu : f ∈ Function.update k.state c (k.state c ∪ F) u := hu
    by_cases huc : u = c
    · rw [huc, Function.update_self, Finset.mem_union] at hu
      rw [huc]
      refine hu.imp id fun hm => ⟨rfl, ?_⟩
      have hsub : ∀ f ∈ messaging, f ∈ F → f = .receive := by
        obtain rfl | rfl := hF
        · decide
        · decide
      exact hsub f hf hm
    · rw [Function.update_of_ne huc] at hu
      exact Or.inl hu

/-- The caller goes to sleep in a receive with a deadline. -/
theorem awaits_until {k₀ k₁ : Kernel T S} {time : Int} {mt : T → TaskPtr T}
    (hk₀ : remReadyCurrent { k with
      retTask := Function.update k.retTask c .higerr
      resumeTime := Function.update k.resumeTime c time
      state := Function.update k.state c (k.state c ∪ {.receive, .delayed}) } c = k₀)
    (hmt : ∀ u, u ≠ c → mt u = k₀.msgTask u)
    (h₁ : enqTimedTask { k₀ with msgTask := mt } c = some k₁) :
    Awaits k c { k₁ with pc := Function.update k₁.pc c (.receive none) } := by
  have hc := Calm.of_relinked (enqTimedTask_relinked h₁)
  have hw : Awaits { k with
      resumeTime := Function.update k.resumeTime c time } c
      { k₁ with pc := Function.update k₁.pc c (.receive none) } := by
    refine awaits (F := {.receive, .delayed}) (Or.inr rfl) hk₀ ?_ (by rw [hc.pc]) ?_ ?_
    · exact ⟨⟨hc.rouses.isHard, hc.rouses.awake⟩, hc.receiver, rfl, hc.msg,
        rfl, hc.retTask, hc.bits⟩
    · intro u hu
      show k₁.msgTask u = _
      rw [hc.msgTask]
      exact hmt u hu
    · intro ha
      exact (enqTimedTask_awake h₁ c).mp ha
  exact ⟨⟨hw.dozes.isHard, hw.dozes.awake⟩, hw.receiver, hw.pc, hw.msg,
    hw.msgTask, hw.retTask, hw.bits⟩

theorem rtReceive_effect {src : Option T} {r : Outcome T S}
    (hsend : ∀ t, .send ∉ k.state t) (hproxy : k.receiver = fun _ => none)
    (hret : k.retTask c = .null) (h : rtReceive k c src = some r) :
    Receives k c src r := by
  simp only [rtReceive] at h
  split at h
  · cases h
    exact .fails trivial (.of_calm (Calm.refl k))
  · obtain ⟨t, hsrc, h⟩ := Option.bind_eq_some_iff.mp h
    split at h
    · next hm => exact received_effect hsend hproxy hret hsrc hm h
    · cases h
      exact .waits (awaits (F := {.receive}) (k := k) (Or.inl rfl) rfl
        (Calm.refl _) rfl (fun _ hu => Function.update_of_ne hu _ _) fun ha => ha)

omit finT finS in
/-- With nothing to time out, `rt_receive_if` ends as `rt_receive` does. -/
theorem rtReceiveIfTail_eq {got : Word} (hret : k.retTask c = .null) :
    rtReceiveIfTail k c got = receiveEnd k c got := by
  simp only [rtReceiveIfTail, receiveEnd, hret, ne_eq, not_true_eq_false, if_false]

theorem rtReceiveIf_effect {src : Option T} {r : Outcome T S}
    (hsend : ∀ t, .send ∉ k.state t) (hproxy : k.receiver = fun _ => none)
    (hret : k.retTask c = .null) (h : rtReceiveIf k c src = some r) :
    Receives k c src r := by
  simp only [rtReceiveIf] at h
  split at h
  · cases h
    exact .fails trivial (.of_calm (Calm.refl k))
  · obtain ⟨t, hsrc, h⟩ := Option.bind_eq_some_iff.mp h
    split at h
    · next hm =>
      obtain ⟨⟨k₁, b⟩, h₁, h⟩ := Option.bind_eq_some_iff.mp h
      have hrpc := rpc_of_hasMessage hsend hm
      obtain ⟨rfl, hk₁⟩ := takeMessage_takes (hsend t) hrpc h₁
      simp only [Bool.false_eq_true, if_false] at h
      rw [rtReceiveIfTail_eq (by rw [hk₁.2.2.2.2.2.1, hret])] at h
      obtain ⟨k', rfl, hk'⟩ := receiveEnd_takes hproxy hret hk₁ h
      exact .takes hsrc hm hrpc hk'
    · cases h
      exact .fails trivial (.of_calm (Calm.refl k))

theorem rtReceiveUntil_effect {src : Option T} {time : Int} {r : Outcome T S}
    (hsend : ∀ t, .send ∉ k.state t) (hproxy : k.receiver = fun _ => none)
    (hret : k.retTask c = .null) (h : rtReceiveUntil k c src time = some r) :
    Receives k c src r := by
  simp only [rtReceiveUntil] at h
  split at h
  · cases h
    exact .fails trivial (.of_calm (Calm.refl k))
  · obtain ⟨t, hsrc, h⟩ := Option.bind_eq_some_iff.mp h
    split at h
    · next hm => exact received_effect hsend hproxy hret hsrc hm h
    · split at h
      · obtain ⟨k₁, h₁, hstay⟩ := Option.bind_eq_some_iff.mp h
        cases hstay
        exact .waits (awaits_until rfl (fun _ hu => Function.update_of_ne hu _ _) h₁)
      · -- the time is over before the caller sleeps
        obtain ⟨v, hv, hno, hs, hnull⟩ := receiveEnd_timeout
          (by
            show Function.update k.retTask c .higerr c ≠ _
            rw [Function.update_self]
            exact nofun) h
        obtain ⟨k', o⟩ := r
        cases hv
        refine .fails hno ⟨⟨hs.rouses.isHard, hs.rouses.awake⟩, hs.receiver, hs.pc,
          hs.msg, hs.msgTask, ?_, Or.inl hnull, hs.bits⟩
        intro u hu
        rw [hs.retTask u hu]
        exact Function.update_of_ne hu _ _

/-- The end of a receive that has slept. -/
theorem rtReceiveTail_effect {r : Outcome T S} (hproxy : k.receiver = fun _ => none)
    (h : rtReceiveTail k c none = some r) :
    Settles c k r.1 ∧ r.1.retTask c = .null ∧ ∃ v, r.2 = some v ∧
      (noMessage v ∨ k.retTask c = .null ∧ ∃ t, k.msgTask c = .task t ∧
        v = .received t (k.msg c)) := by
  simp only [rtReceiveTail, Option.getD_none] at h
  by_cases hret : k.retTask c = .null
  · simp only [receiveEnd, hret, ne_eq, not_true_eq_false, if_false] at h
    have hself := Settles.setMsgTask k c (.task c)
    cases hmt : k.msgTask c with
    | task t =>
      rw [hmt, receiveResult_got (by exact hproxy)] at h
      cases h
      exact ⟨hself, hret, _, rfl, Or.inr ⟨hret, t, rfl, rfl⟩⟩
    | null =>
      rw [hmt] at h
      cases h
      exact ⟨hself, hret, _, rfl, Or.inl trivial⟩
    | higerr =>
      rw [hmt] at h
      cases h
      exact ⟨hself, hret, _, rfl, Or.inl trivial⟩
  · obtain ⟨v, hv, hno, hs, hnull⟩ := receiveEnd_timeout hret h
    exact ⟨hs, hnull, v, hv, Or.inl hno⟩

end RtaiMsgEffects
