import Rtai.MsgLinks

/-! # What a task may rely on while others send messages

    A task that waits in a messaging call keeps its place, gets no bit of a
    messaging call but the one of an rpc whose message is taken, and its `msg`
    is written only while it receives or when it is released.  Here any task
    may send, receive and return, and any task may be a proxy. -/

namespace RtaiBystanders

open RtaiRings RtaiKernel RtaiSchedCore RtaiTaskApi RtaiSched RtaiMsg
  RtaiSteps RtaiServices RtaiFrames RtaiListFrames RtaiMsgEffects
  RtaiMsgLinks

section Relations

variable {T S : Type}

/-- What happens to a task that does nothing. -/
structure Spares (t : T) (k k' : Kernel T S) : Prop where
  pc : k'.pc t = k.pc t ∨ Aside (k.pc t) ∧ Aside (k'.pc t)
  awake : k.isHard t = false → Awake k' t → Awake k t ∨ Disjoint (k'.state t) messaging
  bits : ∀ f ∈ messaging, f ∈ k'.state t → f ∈ k.state t ∨ f = .ret ∧ .rpc ∈ k.state t
  msg : .receive ∈ k.state t ∨ k'.msgTask t = .task t ∨
    k'.msg t = k.msg t ∧ k'.msgTask t = k.msgTask t
  retTask : k'.retTask t = .null ∨ k'.retTask t = k.retTask t

/-- A section of `c` in which it does not go to sleep. -/
structure Light (c : T) (k k' : Kernel T S) : Prop where
  isHard : k'.isHard = k.isHard
  others : ∀ t, t ≠ c → Spares t k k'
  awake : k.isHard c = false → Awake k' c → Awake k c ∨ Disjoint (k'.state c) messaging
  bits : ∀ f ∈ messaging, f ∈ k'.state c → f ∈ k.state c
  retTask : k'.retTask c = .null ∨ k'.retTask c = k.retTask c

/-- A section of `c` at whose end it sleeps. -/
structure Blocks (c : T) (k k' : Kernel T S) : Prop where
  isHard : k'.isHard = k.isHard
  others : ∀ t, t ≠ c → Spares t k k'
  asleep : k.isHard c = false → ¬Awake k' c

variable {k k₁ k₂ k' : Kernel T S} {c t : T}

theorem Spares.refl (t : T) (k : Kernel T S) : Spares t k k :=
  ⟨.inl rfl, fun _ h => .inl h, fun _ _ h => .inl h, .inr (.inr ⟨rfl, rfl⟩), .inr rfl⟩

theorem Spares.trans (h : Spares t k k₁) (h' : Spares t k₁ k₂)
    (hard : k₁.isHard = k.isHard) : Spares t k k₂ := by
  have hret : (.ret : Flag) ≠ .receive ∧ (.ret : Flag) ≠ .rpc := by decide
  have hback : ∀ f ∈ messaging, f ∈ k₂.state t →
      f ∈ k.state t ∨ f = .ret ∧ .rpc ∈ k.state t := by
    intro f hf hm
    rcases h'.bits f hf hm with hm₁ | ⟨rfl, hr⟩
    · exact h.bits f hf hm₁
    · rcases h.bits .rpc (by decide) hr with hr₀ | ⟨he, -⟩
      · exact .inr ⟨rfl, hr₀⟩
      · exact absurd he.symm hret.2
  refine ⟨?_, fun hs ha => ?_, hback, ?_, ?_⟩
  · rcases h'.pc with hp' | ⟨hp', hp''⟩
    · rw [hp']
      exact h.pc
    · rcases h.pc with hp | ⟨hp, -⟩
      · rw [hp] at hp'
        exact .inr ⟨hp', hp''⟩
      · exact .inr ⟨hp, hp''⟩
  · rcases h'.awake (by rw [hard]; exact hs) ha with ha₁ | hd
    · rcases h.awake hs ha₁ with ha₀ | hd
      · exact .inl ha₀
      · refine .inr (Finset.disjoint_left.mpr fun f hf hm => ?_)
        rcases h'.bits f hm hf with hf₁ | ⟨-, hr⟩
        · exact Finset.disjoint_left.mp hd hf₁ hm
        · exact Finset.disjoint_left.mp hd hr (by decide)
    · exact .inr hd
  · rcases h'.msg with hm | hm | ⟨hm, hmt⟩
    · rcases h.bits .receive (by decide) hm with hm₀ | ⟨he, -⟩
      · exact .inl hm₀
      · exact absurd he.symm hret.1
    · exact .inr (.inl hm)
    · rcases h.msg with h₁ | h₁ | ⟨h₁, h₂⟩
      · exact .inl h₁
      · exact .inr (.inl (hmt.trans h₁))
      · exact .inr (.inr ⟨hm.trans h₁, hmt.trans h₂⟩)
  · rcases h'.retTask with hr | hr
    · exact .inl hr
    · rw [hr]
      exact h.retTask

theorem Spares.of_calm (h : Calm k k') (t : T) : Spares t k k' :=
  ⟨.inl (congrFun h.pc t), fun _ ha => h.rouses.awake t ha, fun f hf hm => .inl (h.bits t f hf hm),
    .inr (.inr ⟨congrFun h.msg t, congrFun h.msgTask t⟩), .inr (congrFun h.retTask t)⟩

theorem Light.refl (c : T) (k : Kernel T S) : Light c k k :=
  ⟨rfl, fun t _ => Spares.refl t k, fun _ h => .inl h, fun _ _ h => h, .inr rfl⟩

theorem Light.trans (h : Light c k k₁) (h' : Light c k₁ k₂) : Light c k k₂ := by
  refine ⟨h'.isHard.trans h.isHard,
    fun t ht => (h.others t ht).trans (h'.others t ht) h.isHard, fun hs ha => ?_,
    fun f hf hm => h.bits f hf (h'.bits f hf hm), ?_⟩
  · rcases h'.awake (by rw [h.isHard]; exact hs) ha with ha₁ | hd
    · refine (h.awake hs ha₁).imp id fun hd => ?_
      exact Finset.disjoint_left.mpr fun f hf hm =>
        Finset.disjoint_left.mp hd (h'.bits f hm hf) hm
    · exact .inr hd
  · rcases h'.retTask with hr | hr
    · exact .inl hr
    · rw [hr]
      exact h.retTask

theorem Light.blocks (h : Light c k k₁) (h' : Blocks c k₁ k₂) : Blocks c k k₂ :=
  ⟨h'.isHard.trans h.isHard, fun t ht => (h.others t ht).trans (h'.others t ht) h.isHard,
    fun hs => h'.asleep (by rw [h.isHard]; exact hs)⟩

/-- A sleeping task moves. -/
theorem Blocks.then_light (h : Blocks c k k₁) (h' : Light c k₁ k₂)
    (ha : Awake k₂ c → Awake k₁ c) : Blocks c k k₂ :=
  ⟨h'.isHard.trans h.isHard, fun t ht => (h.others t ht).trans (h'.others t ht) h.isHard,
    fun hs hw => h.asleep hs (ha hw)⟩

theorem Light.of_calm (h : Calm k k') (c : T) : Light c k k' :=
  ⟨h.rouses.isHard, fun t _ => Spares.of_calm h t, fun _ ha => h.rouses.awake c ha,
    h.bits c, .inr (congrFun h.retTask c)⟩

theorem Light.of_relinked (h : Relinked k k') (c : T) : Light c k k' :=
  .of_calm (.of_relinked h) c

theorem Light.of_settles (h : Settles c k k') : Light c k k' := by
  refine ⟨h.rouses.isHard, fun t ht => ⟨.inl (congrFun h.pc t), fun _ ha => h.rouses.awake t ha,
    fun f hf hm => .inl (h.bits t f hf hm),
    .inr (.inr ⟨congrFun h.msg t, h.msgTask t ht⟩), .inr (h.retTask t ht)⟩,
    fun _ ha => h.rouses.awake c ha, h.bits c, h.retSelf⟩

variable [decT : DecidableEq T]

/-- A task writes its own fields. -/
theorem Light.own (c : T) (k : Kernel T S) (w : Word) (p q : TaskPtr T) (place : Pc T S)
    (time : Int) (hq : q = .null ∨ q = k.retTask c) :
    Light c k { k with
      msg := Function.update k.msg c w
      msgTask := Function.update k.msgTask c p
      retTask := Function.update k.retTask c q
      resumeTime := Function.update k.resumeTime c time
      pc := Function.update k.pc c place } := by
  refine ⟨rfl, fun t ht => ?_, fun _ h => .inl h, fun _ _ h => h, ?_⟩
  · refine ⟨.inl (Function.update_of_ne ht _ _), fun _ h => .inl h, fun _ _ h => .inl h,
      .inr (.inr ⟨Function.update_of_ne ht _ _, Function.update_of_ne ht _ _⟩),
      .inr (Function.update_of_ne ht _ _)⟩
  · show Function.update k.retTask c q c = _ ∨ Function.update k.retTask c q c = _
    rw [Function.update_self]
    exact hq

/-- A task moves. -/
theorem Light.moves (c : T) (k : Kernel T S) (place : Pc T S) :
    Light c k { k with pc := Function.update k.pc c place } :=
  ⟨rfl, fun _ ht => ⟨.inl (Function.update_of_ne ht _ _), fun _ h => .inl h, fun _ _ h => .inl h,
    .inr (.inr ⟨rfl, rfl⟩), .inr rfl⟩, fun _ h => .inl h, fun _ _ h => h, .inr rfl⟩

omit decT in
theorem Light.queued (c : T) (k : Kernel T S) (q : Links (Node T (Head T S))) :
    Light c k { k with queue := q } :=
  ⟨rfl, fun _ _ => ⟨.inl rfl, fun _ h => .inl h, fun _ _ h => .inl h,
    .inr (.inr ⟨rfl, rfl⟩), .inr rfl⟩, fun _ h => .inl h, fun _ _ h => h, .inr rfl⟩

/-- A task is told something. -/
theorem Light.hears (c : T) (k : Kernel T S) (p : TaskPtr T) :
    Light c k { k with msgTask := Function.update k.msgTask c p } :=
  ⟨rfl, fun _ ht => ⟨.inl rfl, fun _ h => .inl h, fun _ _ h => .inl h,
    .inr (.inr ⟨rfl, Function.update_of_ne ht _ _⟩), .inr rfl⟩, fun _ h => .inl h,
    fun _ _ h => h, .inr rfl⟩

end Relations

variable {T S : Type} [decT : DecidableEq T] [decS : DecidableEq S] [finT : Fintype T]
  [finS : Fintype S] {k k' : Kernel T S} {c dest t : T} {w : Word}

/-! ## Sends and returns -/

omit decS finT finS in
theorem receive_of_accepts (h : accepts k c dest = true) : .receive ∈ k.state dest := by
  unfold accepts at h
  rw [Bool.and_eq_true, decide_eq_true_eq] at h
  exact h.1

theorem Light.of_hands (ha : accepts k c dest = true) (h : Hands k c dest w k') :
    Light c k k' := by
  have hret : ∀ u, k'.retTask u = .null ∨ k'.retTask u = k.retTask u := by
    intro u
    rw [h.retTask]
    by_cases hu : u = dest
    · rw [hu, Function.update_self]
      exact .inl rfl
    · rw [Function.update_of_ne hu]
      exact .inr rfl
  refine ⟨h.rouses.isHard, fun u _ => ⟨.inl (congrFun h.pc u), fun _ hw => h.rouses.awake u hw,
    fun f hf hm => .inl (h.bits u f hf hm).1, ?_, hret u⟩,
    fun _ hw => h.rouses.awake c hw, fun f hf hm => (h.bits c f hf hm).1, hret c⟩
  by_cases hu : u = dest
  · rw [hu]
    exact .inl (receive_of_accepts ha)
  · rw [h.msg, h.msgTask, Function.update_of_ne hu, Function.update_of_ne hu]
    exact .inr (.inr ⟨rfl, rfl⟩)

omit decS finT finS in
theorem Light.of_returns (h : Returns k dest w k') : Light c k k' := by
  refine ⟨h.rouses.isHard, fun u _ => ⟨.inl (congrFun h.pc u), fun _ hw => h.rouses.awake u hw,
    fun f hf hm => .inl (h.bits u f hf hm).1, ?_, .inr (congrFun h.retTask u)⟩,
    fun _ hw => h.rouses.awake c hw, fun f hf hm => (h.bits c f hf hm).1,
    .inr (congrFun h.retTask c)⟩
  by_cases hu : u = dest
  · rw [hu, h.msgTask, Function.update_self]
    exact .inr (.inl rfl)
  · rw [h.msg, h.msgTask, Function.update_of_ne hu, Function.update_of_ne hu]
    exact .inr (.inr ⟨rfl, rfl⟩)

theorem Blocks.of_calls (h : Calls k c dest w k') : Blocks c k k' := by
  have hret : ∀ u, k'.retTask u = .null ∨ k'.retTask u = k.retTask u := by
    intro u
    rw [h.retTask]
    split
    · by_cases hu : u = dest
      · rw [hu, Function.update_self]
        exact .inl rfl
      · rw [Function.update_of_ne hu]
        exact .inr rfl
    · exact .inr rfl
  refine ⟨h.dozes.isHard, fun u hu => ⟨?_, fun hs hw => (h.dozes.awake u hs hw).2,
    fun f hf hm => ?_, ?_, hret u⟩, fun hs hw => (h.dozes.awake c hs hw).1 rfl⟩
  · rw [h.pc, Function.update_of_ne hu]
    exact .inl rfl
  · rcases h.bits u f hf hm with hm | ⟨he, -⟩
    · exact .inl hm.1
    · exact absurd he hu
  · rw [h.msgTask, Function.update_of_ne hu, h.msg]
    split
    · next ha =>
      by_cases hud : u = dest
      · rw [hud]
        exact .inl (receive_of_accepts ha)
      · rw [Function.update_of_ne hud, Function.update_of_ne hud, Function.update_of_ne hu]
        exact .inr (.inr ⟨rfl, rfl⟩)
    · rw [Function.update_of_ne hu]
      exact .inr (.inr ⟨rfl, rfl⟩)

/-- A section of `c` ends, or `c` goes to sleep at its end. -/
def Sections (c : T) (k : Kernel T S) (r : Outcome T S) : Prop :=
  Light c k r.1 ∨ Blocks c k r.1 ∧ r.2 = none ∧
    (r.1.retTask c = .null ∨ r.1.retTask c = k.retTask c ∨ r.1.pc c = .receive none)

theorem rtSendTail_light {r : Outcome T S} (h : rtSendTail k c dest = some r) :
    Light c k r.1 := by
  unfold rtSendTail at h
  split at h
  · exact .of_settles (msgNotSent_settles h).1
  · cases h
    exact Light.refl c k

/-- A message is put into a receiver that waits. -/
theorem deliver_light {r : Outcome T S} {place : Pc T S}
    {tail : Kernel T S → Option (Outcome T S)} (ha : accepts k c dest = true)
    (htail : ∀ {k₁ r}, tail k₁ = some r → Light c k₁ r.1)
    (h : (do
      let (k, ready) ← deliver k c dest w
      if ready then stay k c place else tail k) = some r) : Light c k r.1 := by
  obtain ⟨⟨k₁, b⟩, h₁, h⟩ := Option.bind_eq_some_iff.mp h
  have hh := Light.of_hands ha (deliver_hands h₁)
  cases b with
  | true =>
    cases h
    exact hh.trans (Light.moves c k₁ _)
  | false => exact hh.trans (htail h)

/-- The caller of a plain send is queued and goes to sleep. -/
theorem send_blocks {F : TaskState} {k₀ k₁ : Kernel T S}
    (h₀ : enqueueBlocked k c (.msg dest) 0 = some k₀)
    (h₁ : passPrio { k₀ with
      state := Function.update k₀.state c (k₀.state c ∪ F) } (.task dest) c = some k₁) :
    Blocks c k (remReadyCurrent k₁ c) ∧ (remReadyCurrent k₁ c).retTask = k.retTask := by
  have hc₀ := Calm.of_relinked (enqueueBlocked_relinked h₀)
  have hc₁ := Calm.of_relinked ((passLoop_relinked h₁).trans (remReadyCurrent_relinked k₁ c))
  refine ⟨(Light.of_calm hc₀ c).blocks ⟨hc₁.rouses.isHard, fun u hu => ?_, fun hs => ?_⟩,
    hc₁.retTask.trans hc₀.retTask⟩
  · have hsp := Spares.of_calm hc₁ u
    have hst : Function.update k₀.state c (k₀.state c ∪ F) u = k₀.state u :=
      Function.update_of_ne hu _ _
    refine ⟨hsp.pc, hsp.awake, fun f hf hm => ?_, ?_, hsp.retTask⟩
    · rw [← hst]
      exact hsp.bits f hf hm
    · rw [← hst]
      exact hsp.msg
  · have hhard := (Calm.of_relinked (passLoop_relinked h₁)).rouses.isHard
    exact remReadyCurrent_asleep k₁ (by rw [hhard]; exact hs)

theorem rtSend_sections {r : Outcome T S} (h : rtSend k c dest w = some r) :
    Sections c k r := by
  unfold rtSend at h
  split at h
  · cases h
    exact .inl (Light.refl c k)
  · split at h
    · next ha => exact .inl (deliver_light ha rtSendTail_light h)
    · dsimp only at h
      obtain ⟨k₀, h₀, h⟩ := Option.bind_eq_some_iff.mp h
      obtain ⟨k₁, h₁, h⟩ := Option.bind_eq_some_iff.mp h
      cases h
      obtain ⟨hb, hr⟩ := send_blocks h₀ h₁
      have hown := Light.own c k w (.task dest) (k.retTask c) (k.pc c)
        (k.resumeTime c) (.inr rfl)
      rw [Function.update_eq_self, Function.update_eq_self, Function.update_eq_self] at hown
      exact .inr ⟨(hown.blocks hb).then_light (Light.moves c _ _) fun h => h, rfl,
        .inr (.inl (congrFun hr c))⟩

omit decS finT finS in
theorem rtSendIfTail_light {r : Outcome T S} (h : rtSendIfTail k c dest = some r) :
    Light c k r.1 :=
  .of_settles (rtSendIfTail_settles h).1

theorem rtSendIf_light {r : Outcome T S} (h : rtSendIf k c dest w = some r) :
    Light c k r.1 := by
  unfold rtSendIf at h
  split at h
  · cases h
    exact Light.refl c k
  · split at h
    · next ha => exact deliver_light ha rtSendIfTail_light h
    · cases h
      exact Light.refl c k

theorem rtSendUntil_sections {time : Int} {r : Outcome T S}
    (h : rtSendUntil k c dest w time = some r) : Sections c k r := by
  unfold rtSendUntil at h
  split at h
  · cases h
    exact .inl (Light.refl c k)
  · split at h
    · next ha => exact .inl (deliver_light ha rtSendTail_light h)
    · dsimp only at h
      split at h
      · obtain ⟨k₀, h₀, h⟩ := Option.bind_eq_some_iff.mp h
        obtain ⟨k₁, h₁, h⟩ := Option.bind_eq_some_iff.mp h
        obtain ⟨k₂, h₂, h⟩ := Option.bind_eq_some_iff.mp h
        cases h
        obtain ⟨hb, hr⟩ := send_blocks h₀ h₁
        have hc := Calm.of_relinked (enqTimedTask_relinked h₂)
        have hown := Light.own c k w (.task dest) (k.retTask c) (k.pc c) time (.inr rfl)
        rw [Function.update_eq_self, Function.update_eq_self] at hown
        have htimed := (Light.of_calm hc c).trans (Light.moves c k₂ (.send dest))
        exact .inr ⟨(hown.blocks hb).then_light htimed (enqTimedTask_awake h₂ c).mp, rfl,
          .inr (.inl (congrFun (hc.retTask.trans hr) c))⟩
      · -- the time is over before the caller sleeps
        have hown := Light.own c k (k.msg c) (.task dest) (k.retTask c) (k.pc c) time
          (.inr rfl)
        rw [Function.update_eq_self, Function.update_eq_self, Function.update_eq_self] at hown
        exact .inl ((hown.trans (Light.queued c _ _)).trans (rtSendTail_light h))

theorem Sections.of_calls {r : Outcome T S} (hr : r.2 = none)
    (h : Calls k c dest w r.1) : Sections c k r := by
  refine .inr ⟨.of_calls h, hr, ?_⟩
  rw [h.retTask]
  split
  · by_cases hc : c = dest
    · rw [hc, Function.update_self]
      exact .inl rfl
    · rw [Function.update_of_ne hc]
      exact .inr (.inl rfl)
  · exact .inr (.inl rfl)

theorem rtRpc_sections {r : Outcome T S} (h : rtRpc k c dest w = some r) :
    Sections c k r := by
  obtain ⟨v, rfl⟩ | ⟨hr, hk⟩ := rtRpc_effect h
  · exact .inl (Light.refl c k)
  · exact .of_calls hr hk

/-- An rpc that does not wait for the receiver is one to a receiver that
    waits. -/
theorem rtRpcIf_sections {r : Outcome T S} (h : rtRpcIf k c dest w = some r) :
    Sections c k r := by
  unfold rtRpcIf at h
  split at h
  · cases h
    exact .inl (Light.refl c k)
  · next hm =>
    split at h
    · next ha =>
      have hrpc : rtRpc k c dest w = some r := by
        unfold rtRpc
        rw [if_neg hm, if_pos ha]
        exact h
      exact rtRpc_sections hrpc
    · cases h
      exact .inl (Light.refl c k)

theorem rtRpcUntil_sections {time : Int} {r : Outcome T S}
    (h : rtRpcUntil k c dest w time = some r) : Sections c k r := by
  obtain ⟨v, -, hk⟩ | ⟨hr, hk⟩ := rtRpcUntil_effect h
  · exact .inl (Light.of_calm hk c)
  · exact .of_calls hr hk

theorem rtReturn_light {r : Outcome T S} (h : rtReturn k c dest w = some r) :
    Light c k r.1 := by
  obtain ⟨-, ⟨-, hk⟩ | ⟨-, hk⟩⟩ := rtReturn_effect h
  · rw [hk]
    exact Light.refl c k
  · exact .of_returns hk

/-! ## Receives -/

/-- The message of another task is taken. -/
theorem takeMessage_light {b : Bool} (ht : t ≠ c) (hm : hasMessage k c t = true)
    (h : takeMessage k c t = some (k', b)) : Light c k k' := by
  by_cases hsend : .send ∈ k.state t
  · unfold takeMessage at h
    dsimp only at h
    have hlink := (dequeueBlocked_relinked k t).trans (remTimedTask_relinked _ t)
    have hst : (remTimedTask (dequeueBlocked k t) t).state = k.state := by
      unfold remTimedTask
      split
      · rfl
      · rfl
    generalize remTimedTask (dequeueBlocked k t) t = k₀ at h hlink hst
    rw [if_pos (show .send ∈ k₀.state t by rw [hst]; exact hsend)] at h
    obtain ⟨k₁, h₁, h⟩ := Option.bind_eq_some_iff.mp h
    have hc₁ := Calm.of_relinked (setTaskPrioFromResq_relinked h₁)
    have hheard : Light c k₀ { k₀ with
        msgTask := Function.update (Function.update k₀.msgTask c (.task t)) t (.task t) } := by
      refine ⟨rfl, fun u hu => ⟨.inl rfl, fun _ h => .inl h, fun _ _ h => .inl h, ?_, .inr rfl⟩,
        fun _ h => .inl h, fun _ _ h => h, .inr rfl⟩
      by_cases hut : u = t
      · rw [hut]
        exact .inr (.inl (Function.update_self ..))
      · refine .inr (.inr ⟨rfl, ?_⟩)
        show Function.update (Function.update k₀.msgTask c _) t _ u = _
        rw [Function.update_of_ne hut, Function.update_of_ne hu]
    have hl := (Light.of_relinked hlink c).trans (hheard.trans (.of_calm hc₁ c))
    split at h
    · cases h
      exact hl
    · have hclear := Calm.clear k₁ t {.send, .delayed}
      split at h
      · next hready =>
        obtain ⟨k₂, h₂, h⟩ := Option.bind_eq_some_iff.mp h
        cases h
        exact hl.trans (.of_calm (hclear.trans
          (Calm.of_relinked (enqReadyTask_relinked h₂ hready))) c)
      · cases h
        exact hl.trans (.of_calm hclear c)
  · have hrpc : .rpc ∈ k.state t := by
      unfold hasMessage at hm
      rw [Bool.and_eq_true, Bool.or_eq_true, decide_eq_true_eq, decide_eq_true_eq] at hm
      exact hm.1.resolve_left hsend
    obtain ⟨-, hro, -, hpc, hmsg, hmt, hrt, hbits⟩ := takeMessage_takes hsend hrpc h
    refine ⟨hro.isHard, fun u hu => ⟨.inl (congrFun hpc u), fun _ ha => hro.awake u ha,
      fun f hf hu' => ?_, ?_, .inr (congrFun hrt u)⟩, fun _ ha => hro.awake c ha,
      fun f hf hc => ?_, .inr (congrFun hrt c)⟩
    · obtain ⟨hf', -⟩ | ⟨rfl, rfl⟩ := hbits u f hf hu'
      · exact .inl hf'
      · exact .inr ⟨rfl, hrpc⟩
    · rw [hmsg, hmt, Function.update_of_ne hu]
      exact .inr (.inr ⟨rfl, rfl⟩)
    · obtain ⟨hf', -⟩ | ⟨he, -⟩ := hbits c f hf hc
      · exact hf'
      · exact absurd he.symm ht

omit decS finT finS in
theorem receiveResult_light {got : Word} {p : TaskPtr T} {r : Outcome T S}
    (h : receiveResult k c got p = some r) : Light c k r.1 := by
  unfold receiveResult at h
  split at h
  · split at h
    · cases h
      exact Light.moves c k _
    · cases h
      exact Light.refl c k
  · cases h
    exact Light.refl c k

omit decS finT finS in
/-- The receiver is told nothing any more. -/
theorem forgets_light (k : Kernel T S) (c : T) :
    Light c k { k with
      retTask := Function.update k.retTask c .null
      msgTask := Function.update k.msgTask c (.task c) } := by
  have h := Light.own c k (k.msg c) (.task c) .null (k.pc c) (k.resumeTime c) (.inl rfl)
  rw [Function.update_eq_self, Function.update_eq_self, Function.update_eq_self] at h
  exact h

theorem receiveEnd_light {got : Word} {r : Outcome T S}
    (h : receiveEnd k c got = some r) : Light c k r.1 ∧ r.1.retTask c = .null := by
  unfold receiveEnd at h
  split at h
  · cases h
    exact ⟨forgets_light k c, Function.update_self ..⟩
  · next hn =>
    have hl := (Light.hears c k (.task c)).trans (receiveResult_light h)
    refine ⟨hl, hl.retTask.elim id fun hr => hr.trans (not_not.mp hn)⟩

theorem rtReceiveIfTail_light {got : Word} {r : Outcome T S}
    (h : rtReceiveIfTail k c got = some r) : Light c k r.1 := by
  unfold rtReceiveIfTail at h
  split at h
  · cases h
    exact forgets_light k c
  · exact (Light.hears c k (.task c)).trans (receiveResult_light h)

theorem proxyReturnTail_light {got : Word} {r : Outcome T S}
    (h : proxyReturnTail k c t got = some r) : Light c k r.1 := by
  obtain ⟨⟨k₁, v⟩, h₁, h⟩ := Option.bind_eq_some_iff.mp h
  cases h
  have hl := rtReturn_light h₁
  exact hl

omit decS finT finS in
/-- A task in no messaging call has no message for itself. -/
theorem ne_of_hasMessage (hd : Disjoint (k.state c) messaging)
    (hm : hasMessage k c t = true) : t ≠ c := by
  rintro rfl
  unfold hasMessage at hm
  rw [Bool.and_eq_true, Bool.or_eq_true, decide_eq_true_eq, decide_eq_true_eq] at hm
  obtain ⟨hs | hr, -⟩ := hm
  · exact Finset.disjoint_left.mp hd hs (by decide)
  · exact Finset.disjoint_left.mp hd hr (by decide)

/-- A message that is there is taken. -/
theorem take_light {place : Pc T S}
    {tail : Kernel T S → Option (Outcome T S)} {r : Outcome T S}
    (hd : Disjoint (k.state c) messaging) (hm : hasMessage k c t = true)
    (htail : ∀ {k₁ r}, tail k₁ = some r → Light c k₁ r.1)
    (h : (do
      let (k, ready) ← takeMessage k c t
      if ready then stay k c place else tail k) = some r) : Light c k r.1 := by
  obtain ⟨⟨k₁, b⟩, h₁, h⟩ := Option.bind_eq_some_iff.mp h
  have hl := takeMessage_light (ne_of_hasMessage hd hm) hm h₁
  cases b with
  | true =>
    cases h
    exact hl.trans (Light.moves c k₁ _)
  | false => exact hl.trans (htail h)

omit decS finT finS in
/-- A receiver goes to sleep. -/
theorem Sections.of_awaits (h : Awaits k c k') : Sections c k (k', none) := by
  refine .inr ⟨⟨h.dozes.isHard, fun u hu => ⟨?_, fun hs hw => (h.dozes.awake u hs hw).2,
    fun f hf hm => ?_, .inr (.inr ⟨congrFun h.msg u, h.msgTask u hu⟩), .inr ?_⟩,
    fun hs hw => (h.dozes.awake c hs hw).1 rfl⟩, rfl, .inr (.inr ?_)⟩
  · rw [h.pc, Function.update_of_ne hu]
    exact .inl rfl
  · exact (h.bits u f hf hm).imp id fun he => absurd he.1 hu
  · rw [h.retTask, Function.update_of_ne hu]
  · show k'.pc c = _
    rw [h.pc, Function.update_self]

theorem rtReceive_sections {src : Option T} {r : Outcome T S}
    (hd : Disjoint (k.state c) messaging) (h : rtReceive k c src = some r) :
    Sections c k r := by
  unfold rtReceive at h
  split at h
  · cases h
    exact .inl (Light.refl c k)
  · obtain ⟨t, -, h⟩ := Option.bind_eq_some_iff.mp h
    split at h
    · next hm => exact .inl (take_light hd hm (fun h => (receiveEnd_light h).1) h)
    · cases h
      exact .of_awaits (awaits (F := {.receive}) (k := k) (Or.inl rfl) rfl
        (Calm.refl _) rfl (fun _ hu => Function.update_of_ne hu _ _) fun ha => ha)

theorem rtReceiveIf_light {src : Option T} {r : Outcome T S}
    (hd : Disjoint (k.state c) messaging) (h : rtReceiveIf k c src = some r) :
    Light c k r.1 := by
  unfold rtReceiveIf at h
  split at h
  · cases h
    exact Light.refl c k
  · obtain ⟨t, -, h⟩ := Option.bind_eq_some_iff.mp h
    split at h
    · next hm => exact take_light hd hm rtReceiveIfTail_light h
    · cases h
      exact Light.refl c k

theorem rtReceiveUntil_sections {src : Option T} {time : Int} {r : Outcome T S}
    (hd : Disjoint (k.state c) messaging)
    (h : rtReceiveUntil k c src time = some r) : Sections c k r := by
  unfold rtReceiveUntil at h
  split at h
  · cases h
    exact .inl (Light.refl c k)
  · obtain ⟨t, -, h⟩ := Option.bind_eq_some_iff.mp h
    split at h
    · next hm => exact .inl (take_light hd hm (fun h => (receiveEnd_light h).1) h)
    · dsimp only at h
      split at h
      · obtain ⟨k₁, h₁, h⟩ := Option.bind_eq_some_iff.mp h
        cases h
        exact .of_awaits (awaits_until rfl (fun _ hu => Function.update_of_ne hu _ _) h₁)
      · -- the time is over before the receiver sleeps
        obtain ⟨hl, hn⟩ := receiveEnd_light h
        refine .inl ⟨hl.isHard, fun u hu => ?_, hl.awake, hl.bits, .inl hn⟩
        have hsp := hl.others u hu
        have hr : Function.update k.retTask c .higerr u = k.retTask u :=
          Function.update_of_ne hu _ _
        exact ⟨hsp.pc, hsp.awake, hsp.bits, hsp.msg, hr ▸ hsp.retTask⟩

/-! ## Sections of the system -/

/-- A service that sends, receives or returns a message. -/
def messagesOp {T S : Type} : Op T S → Bool
  | .send _ _ => true
  | .sendIf _ _ => true
  | .sendUntil _ _ _ => true
  | .rpc _ _ => true
  | .rpcIf _ _ => true
  | .rpcUntil _ _ _ => true
  | .ret _ _ => true
  | .receive _ => true
  | .receiveIf _ => true
  | .receiveUntil _ _ => true
  | _ => false

/-- A task in one of these. -/
def inMessage {T S : Type} : Pc T S → Bool
  | .send _ => true
  | .sendIf _ => true
  | .rpc _ => true
  | .receive _ => true
  | .receiveIf _ => true
  | .proxyReturn _ _ => true
  | _ => false

/-- A task that runs is in no wait for a message, and only one in a receive has
    still to be told whether it has got one. -/
structure Orderly (k : Kernel T S) : Prop where
  awake : ∀ t, k.isHard t = false → Awake k t → Disjoint (k.state t) messaging
  retTask : ∀ t, k.retTask t ≠ .null → k.pc t = .receive none

omit decT decS finT finS in
theorem Orderly.executing (ho : Orderly k) (hex : executes k c = true) :
    Disjoint (k.state c) messaging := by
  unfold executes at hex
  split at hex
  · rw [Bool.and_eq_true, decide_eq_true_eq] at hex
    rw [hex.1]
    decide
  · next hs =>
    rw [Bool.not_eq_true] at hs
    refine ho.awake c hs (Or.inl ?_)
    rw [of_decide_eq_true hex]
    decide

omit decT decS finT finS in
theorem Spares.disjoint (h : Spares t k k') (ho : Orderly k)
    (hs : k.isHard t = false) (hw : Awake k' t) : Disjoint (k'.state t) messaging := by
  rcases h.awake hs hw with hw₀ | hd
  · have hd := ho.awake t hs hw₀
    refine Finset.disjoint_left.mpr fun f hf hm => ?_
    rcases h.bits f hm hf with hf₀ | ⟨-, hf₀⟩
    · exact Finset.disjoint_left.mp hd hf₀ hm
    · exact Finset.disjoint_left.mp hd hf₀ (by decide)
  · exact hd

omit decT decS finT finS in
theorem Spares.told (h : Spares t k k') (ho : Orderly k) (hn : k'.retTask t ≠ .null) :
    k'.pc t = .receive none := by
  rcases h.retTask with hr | hr
  · exact absurd hr hn
  · have hp := ho.retTask t (hr ▸ hn)
    rcases h.pc with hp' | ⟨hp', -⟩
    · exact hp'.trans hp
    · exact absurd hp hp'.ne_receive

theorem Orderly.spared (ho : Orderly k) (hard : k'.isHard = k.isHard)
    (h : ∀ t, t ≠ c → Spares t k k')
    (ha : k.isHard c = false → Awake k' c → Disjoint (k'.state c) messaging)
    (hr : k'.retTask c ≠ .null → k'.pc c = .receive none) : Orderly k' := by
  refine ⟨fun t hs hw => ?_, fun t hn => ?_⟩
  · rw [hard] at hs
    by_cases htc : t = c
    · rw [htc] at hs hw ⊢
      exact ha hs hw
    · exact (h t htc).disjoint ho hs hw
  · by_cases htc : t = c
    · rw [htc] at hn ⊢
      exact hr hn
    · exact (h t htc).told ho hn

theorem Orderly.light (ho : Orderly k) (h : Light c k k')
    (hr : k.retTask c = .null ∨ k'.retTask c = .null) : Orderly k' := by
  refine ho.spared h.isHard h.others (fun hs hw => ?_) fun hn => absurd ?_ hn
  · rcases h.awake hs hw with hw₀ | hd
    · exact Finset.disjoint_left.mpr fun f hf hm =>
        Finset.disjoint_left.mp (ho.awake c hs hw₀) (h.bits f hm hf) hm
    · exact hd
  · rcases hr with hr | hr
    · exact h.retTask.elim id fun h' => h'.trans hr
    · exact hr

theorem Orderly.sections {r : Outcome T S} (ho : Orderly k) (h : Sections c k r)
    (hr : k.retTask c = .null) : Orderly r.1 := by
  rcases h with hl | ⟨hb, -, hret⟩
  · exact ho.light hl (.inl hr)
  · refine ho.spared hb.isHard hb.others (fun hs hw => absurd hw (hb.asleep hs)) fun hn => ?_
    rcases hret with h' | h' | h'
    · exact absurd h' hn
    · exact absurd (h'.trans hr) hn
    · exact h'

theorem taskOp_sections {op : Op T S} {r : Outcome T S} (hop : messagesOp op = true)
    (hd : Disjoint (k.state c) messaging) (h : taskOp k c op = some r) :
    Sections c k r := by
  cases op with
  | send d w => exact rtSend_sections h
  | sendIf d w => exact .inl (rtSendIf_light h)
  | sendUntil d w time => exact rtSendUntil_sections h
  | rpc d w => exact rtRpc_sections h
  | rpcIf d w => exact rtRpcIf_sections h
  | rpcUntil d w time => exact rtRpcUntil_sections h
  | ret d w => exact .inl (rtReturn_light h)
  | receive src => exact rtReceive_sections hd h
  | receiveIf src => exact .inl (rtReceiveIf_light hd h)
  | receiveUntil src time => exact rtReceiveUntil_sections hd h
  | _ => exact nomatch hop

/-- A task goes on with its call. -/
theorem contOp_light {r : Outcome T S} (hp : inMessage (k.pc c) = true)
    (h : contOp k c = some r) :
    Light c k r.1 ∧ (k.pc c = .receive none → r.1.retTask c = .null) := by
  unfold contOp at h
  cases hpc : k.pc c with
  | send d =>
    rw [hpc] at h
    exact ⟨rtSendTail_light h, nofun⟩
  | sendIf d =>
    rw [hpc] at h
    exact ⟨rtSendIfTail_light h, nofun⟩
  | rpc d =>
    rw [hpc] at h
    exact ⟨.of_settles (rtRpcTail_settles h).1, nofun⟩
  | receive got =>
    rw [hpc] at h
    exact ⟨(receiveEnd_light h).1, fun _ => (receiveEnd_light h).2⟩
  | receiveIf got =>
    rw [hpc] at h
    exact ⟨rtReceiveIfTail_light h, nofun⟩
  | proxyReturn src got =>
    rw [hpc] at h
    exact ⟨proxyReturnTail_light h, nofun⟩
  | _ =>
    rw [hpc] at hp
    exact nomatch hp

omit decS finT finS in
theorem Light.finishes {r : Outcome T S} (h : Light c k r.1) : Light c k (finish c r).1 := by
  obtain ⟨k₁, o⟩ := r
  cases o with
  | none => exact h
  | some v => exact h.trans (Light.moves c k₁ .idle)

omit finT finS in
theorem ret_null_of_mayCall (ho : Orderly k) (h : mayCall k c = true) :
    k.retTask c = .null := by
  by_contra hn
  exact (aside_of_mayCall h).ne_receive (ho.retTask c hn)

/-- **A TASK CALLS** for a message service. -/
theorem call_orderly {op : Op T S} {r : Outcome T S} (ho : Orderly k)
    (hop : messagesOp op = true) (h : exec k (.call c op) = some r) :
    Orderly r.1 ∧ Sections c k r := by
  have h : exec k (.call c op) = some (r.1, r.2) := h
  obtain ⟨hc, r₀, h₀, hr⟩ := exec_call h
  have hex : executes k c = true := by
    unfold mayCall at hc
    rw [Bool.and_eq_true] at hc
    exact hc.1
  have hs : Sections c k r := by
    rw [show r = finish c r₀ from hr.symm]
    rcases taskOp_sections hop (ho.executing hex) h₀ with hl | ⟨hb, hn, hret⟩
    · exact .inl hl.finishes
    · obtain ⟨k₁, o⟩ := r₀
      cases hn
      exact .inr ⟨hb, rfl, hret⟩
  exact ⟨ho.sections hs (ret_null_of_mayCall ho hc), hs⟩

/-- **A TASK GOES ON** with such a service. -/
theorem cont_orderly {r : Outcome T S} (ho : Orderly k)
    (hp : inMessage (k.pc c) = true) (h : exec k (.cont c) = some r) :
    Orderly r.1 ∧ Light c k r.1 := by
  have h : exec k (.cont c) = some (r.1, r.2) := h
  obtain ⟨-, r₀, h₀, hr⟩ := exec_cont h
  have hr : finish c r₀ = r := hr
  obtain ⟨hl, hnull⟩ := contOp_light hp h₀
  have hl' : Light c k r.1 := hr ▸ hl.finishes
  refine ⟨ho.light hl' ?_, hl'⟩
  by_cases hpc : k.pc c = .receive none
  · refine .inr ?_
    rw [← hr]
    obtain ⟨k₁, o⟩ := r₀
    cases o with
    | none => exact hnull hpc
    | some v => exact hnull hpc
  · exact .inl (by_contra fun hn => hpc (ho.retTask c hn))

/-- The other services, and the scheduler. -/
theorem delays_orderly {a : Action T S} (ho : Orderly k) (h : Delays k a k') :
    Orderly k' ∧ ∀ t, Spares t k k' := by
  have hc := RtaiMsgLinks.Delays.messages h
  have hsp : ∀ t, Spares t k k' := by
    intro t
    have hs := Spares.of_calm hc t
    exact ⟨RtaiMsgLinks.Delays.aside h t, hs.awake, hs.bits, hs.msg, hs.retTask⟩
  refine ⟨⟨fun t hs hw => ?_, fun t hn => (hsp t).told ho hn⟩, hsp⟩
  exact (hsp t).disjoint ho ((congrFun hc.rouses.isHard t).symm.trans hs) hw

/-! ## Deletion -/

omit finS in
theorem removeWaiters_calm {h₀ : Head T S} {mask : TaskState} {fuel : Nat} :
    ∀ {k k' : Kernel T S} {n : Node T (Head T S)},
      removeWaiters h₀ mask fuel k n = some k' → Calm k k' := by
  induction fuel with
  | zero => intro k k' n h; exact nomatch h
  | succ fuel ih =>
    intro k k' n h
    unfold removeWaiters at h
    split at h
    · cases h
      exact Calm.refl k
    · split at h
      · next u _ =>
          dsimp only at h
          have htold : ∀ k₁ : Kernel T S, Calm k₁ { k₁ with
              blockedOn := Function.update k₁.blockedOn u .objrem } := fun _ =>
            ⟨⟨rfl, fun _ h => .inl h⟩, rfl, rfl, rfl, rfl, rfl, fun _ _ _ h => h⟩
          have hr := Calm.of_relinked (remTimedTask_relinked k u)
          generalize remTimedTask k u = k₀ at h hr
          have hclear := Calm.clear k₀ u mask
          split at h
          · exact (hr.trans (htold k₀)).trans (ih h)
          · split at h
            · next hready =>
              obtain ⟨k₁, hk₁, h⟩ := Option.bind_eq_some_iff.mp h
              have hq := Calm.of_relinked (enqReadyTask_relinked hk₁ hready)
              exact (((hr.trans hclear).trans hq).trans (htold k₁)).trans (ih h)
            · exact ((hr.trans hclear).trans (htold _)).trans (ih h)
      · exact nomatch h

omit finT finS in
theorem leaveQueue_calm (h : leaveQueue k t = some k') : Calm k k' := by
  have hfields : ∀ (q : Links (Node T (Head T S))) (n : S → Int),
      Calm k { k with queue := q, count := n } := fun _ _ =>
    ⟨⟨rfl, fun _ h => .inl h⟩, rfl, rfl, rfl, rfl, rfl, fun _ _ _ h => h⟩
  unfold leaveQueue at h
  split at h
  · cases h
    exact Calm.refl k
  · split at h
    · dsimp only at h
      split at h
      · split at h
        · cases h
          exact hfields _ _
        · exact nomatch h
      · cases h
        exact hfields _ _
    · split at h
      · exact nomatch h
      · cases h
        exact Calm.refl k

/-- Deleting a task sends no message. -/
theorem rtTaskDelete_calm {who : Option T} (h : rtTaskDelete k who t = some k') :
    Calm k k' := by
  unfold rtTaskDelete at h
  split at h
  · cases h
    exact Calm.refl k
  · split at h
    · obtain ⟨k₁, h₁, h⟩ := Option.bind_eq_some_iff.mp h
      obtain ⟨k₂, h₂, h⟩ := Option.bind_eq_some_iff.mp h
      obtain ⟨k₃, h₃, h⟩ := Option.bind_eq_some_iff.mp h
      cases h
      have hc := (((Calm.of_relinked (remTimedTask_relinked k t)).trans
        (leaveQueue_calm h₁)).trans (removeWaiters_calm h₂)).trans
        (removeWaiters_calm h₃)
      have hmagic : Calm k₃ { k₃ with magic := Function.update k₃.magic t false } :=
        ⟨⟨rfl, fun _ h => .inl h⟩, rfl, rfl, rfl, rfl, rfl, fun _ _ _ h => h⟩
      have hrem := Calm.of_still (Still.remReadyTask { k₃ with
        magic := Function.update k₃.magic t false } t)
      refine ((hc.trans hmagic).trans hrem).trans ?_
      generalize remReadyTask _ t = k₄
      refine ⟨⟨rfl, fun u hw => ?_⟩, rfl, rfl, rfl, rfl, rfl, fun u f _ hu => ?_⟩
      · refine hw.imp (fun hl => ?_) id |> .inl
        split at hl
        · by_cases hut : u = t
          · rw [hut] at hl
            exact absurd (Function.update_self ..) hl
          · dsimp only at hl
            rwa [Function.update_of_ne hut] at hl
        · exact hl
      · have hu : f ∈ Function.update k₄.state t ∅ u := hu
        by_cases hut : u = t
        · rw [hut, Function.update_self] at hu
          exact absurd hu (Finset.notMem_empty f)
        · rwa [Function.update_of_ne hut] at hu
    · cases h
      exact ⟨⟨rfl, fun _ h => .inl h⟩, rfl, rfl, rfl, rfl, rfl, fun _ _ _ h => h⟩

end RtaiBystanders
