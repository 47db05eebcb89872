import Rtai.ExtendedMsg

/-! # Links between receives and calls

    A receive that has got an extended message points to the block and the
    buffer of a call: the call is in progress as long as the receive has still
    to read them.  A step keeps this when it keeps it for the tasks that it is
    about; the others are spared. -/

namespace RtaiMsgLinks

open RtaiKernel RtaiSched RtaiSteps RtaiFrames RtaiServices
  RtaiMsgEffects RtaiExtendedMsg

/-! ## Where the tasks are -/

/-- In no messaging call. -/
def Aside {T S : Type} (p : Pc T S) : Prop :=
  p = .idle ∨ p = .start ∨ delayed p = true

theorem Aside.ne_rpc {T S : Type} {p : Pc T S} {d : T} (h : Aside p) : p ≠ .rpc d := by
  rintro rfl
  obtain h | h | h := h
  · exact nomatch h
  · exact nomatch h
  · exact nomatch h

theorem Aside.ne_sendIf {T S : Type} {p : Pc T S} {d : T} (h : Aside p) : p ≠ .sendIf d := by
  rintro rfl
  obtain h | h | h := h
  · exact nomatch h
  · exact nomatch h
  · exact nomatch h

theorem Aside.ne_receive {T S : Type} {p : Pc T S} {w : Option Word}
    (h : Aside p) : p ≠ .receive w := by
  rintro rfl
  obtain h | h | h := h
  · exact nomatch h
  · exact nomatch h
  · exact nomatch h

section Kernels

variable {T S : Type} [decT : DecidableEq T] [decS : DecidableEq S] {k k' : Kernel T S}
  {a : Action T S} {op : Op T S}

theorem aside_of_mayCall {c : T} (h : mayCall k c = true) : Aside (k.pc c) := by
  simp only [mayCall, Bool.and_eq_true, decide_eq_true_eq] at h
  rw [h.2]
  split
  · exact Or.inl rfl
  · exact Or.inr (Or.inl rfl)

omit decS in
/-- A service that is about no message leaves the messages alone. -/
theorem Serves.calm (h : Serves k op k') : Calm k k' := by
  cases h with
  | still hk => exact .of_still hk
  | owed t _ _ hk =>
    rw [hk]
    exact ⟨⟨rfl, fun _ h => Or.inl h⟩, rfl, rfl, rfl, rfl, rfl, fun _ _ _ h => h⟩
  | resumed t _ _ _ hk =>
    have h := Calm.of_still hk
    exact ⟨⟨h.rouses.isHard, h.rouses.awake⟩, h.receiver, h.pc, h.msg, h.msgTask,
      h.retTask, h.bits⟩
  | unblocked t mask _ _ hs hk =>
    have h := Calm.of_still hk
    refine ⟨⟨h.rouses.isHard, h.rouses.awake⟩, h.receiver, h.pc, h.msg, h.msgTask,
      h.retTask, ?_⟩
    intro u f hf hu
    have hu := h.bits u f hf hu
    have hu : f ∈ Function.update k.state t {.ready} u := hu
    by_cases hut : u = t
    · rw [hut, Function.update_self, ← hs] at hu
      exact hut ▸ (Finset.mem_sdiff.mp hu).1
    · rwa [Function.update_of_ne hut] at hu

/-- The other actions leave the messages alone. -/
theorem Delays.messages (h : Delays k a k') : Calm k { k' with pc := k.pc } := by
  have hblocks : ∀ {b : T → BlockedOn T S} {p : T → Pc T S}, Still { k with
      blockedOn := b, pc := p } k' → Calm k { k' with pc := k.pc } := by
    intro b p hk
    have h := Calm.of_still hk
    exact ⟨⟨h.rouses.isHard, h.rouses.awake⟩, h.receiver, rfl, h.msg, h.msgTask,
      h.retTask, h.bits⟩
  cases h with
  | linux op _ hs =>
    have h := Serves.calm hs
    exact ⟨⟨h.rouses.isHard, h.rouses.awake⟩, h.receiver, rfl, h.msg, h.msgTask,
      h.retTask, h.bits⟩
  | call c op k₁ _ _ hs hk =>
    have h := Serves.calm hs
    rw [hk]
    exact ⟨⟨h.rouses.isHard, h.rouses.awake⟩, h.receiver, rfl, h.msg, h.msgTask,
      h.retTask, h.bits⟩
  | blocks c op b p _ _ _ _ hk => exact hblocks hk
  | ends c _ _ _ hk =>
    rw [hk]
    exact ⟨⟨rfl, fun _ h => Or.inl h⟩, rfl, rfl, rfl, rfl, rfl, fun _ _ _ h => h⟩
  | dispatch t _ _ hk =>
    rw [hk]
    exact ⟨⟨rfl, fun _ h => Or.inl h⟩, rfl, rfl, rfl, rfl, rfl, fun _ _ _ h => h⟩
  | starts t _ _ _ hk => exact hblocks (b := k.blockedOn) hk
  | still hk => exact hblocks (b := k.blockedOn) (p := k.pc) hk

/-- They move a task that is in no messaging call to where it is in none. -/
theorem Delays.aside (h : Delays k a k') (t : T) :
    k'.pc t = k.pc t ∨ Aside (k.pc t) ∧ Aside (k'.pc t) := by
  have hmove : ∀ {c : T} {p : Pc T S} {k₁ : Kernel T S}, Aside (k.pc c) →
      k₁.pc = Function.update k.pc c p → Aside p →
      k₁.pc t = k.pc t ∨ Aside (k.pc t) ∧ Aside (k₁.pc t) := by
    intro c p k₁ hq hk hp
    rw [hk]
    by_cases ht : t = c
    · rw [ht, Function.update_self]
      exact Or.inr ⟨hq, hp⟩
    · exact Or.inl (Function.update_of_ne ht ..)
  cases h with
  | linux _ _ hs => exact Or.inl (congrFun (Serves.calm hs).pc t)
  | call c op k₁ _ hc hs hk =>
    refine hmove (c := c) (p := .idle) (aside_of_mayCall hc) ?_ (Or.inl rfl)
    rw [hk]
    show Function.update k₁.pc c _ = _
    rw [(Serves.calm hs).pc]
  | blocks c op b p _ hc _ hp hk =>
    exact hmove (c := c) (p := p) (aside_of_mayCall hc) (Calm.of_still hk).pc
      (Or.inr (Or.inr hp))
  | ends c _ _ hp hk =>
    rw [hk]
    exact hmove (c := c) (p := .idle) (Or.inr (Or.inr hp)) rfl (Or.inl rfl)
  | dispatch _ _ _ hk =>
    rw [hk]
    exact Or.inl rfl
  | starts u _ _ hp hk =>
    exact hmove (c := u) (p := .start) (Or.inl hp) (Calm.of_still hk).pc (Or.inr (Or.inl rfl))
  | still hk => exact Or.inl (congrFun (Calm.of_still hk).pc t)

end Kernels

/-! ## The invariant -/

variable {T S B : Type} (L : Layout T)

/-- What is known of a task and of the call that it is in. -/
structure Caller (s : Xmsg T S B) (t : T) : Prop where
  noSend : .send ∉ s.kernel.state t
  place : Aside (s.kernel.pc t) ∨ (∃ d, s.kernel.pc t = .rpc d) ∨
    (∃ d, s.kernel.pc t = .sendIf d) ∨ s.kernel.pc t = .receive none
  block : ∀ d, s.kernel.pc t = .rpc d → ∃ m g, s.mcb t = some m ∧
    s.sent t = some g ∧ m.sbuf = g.buf ∧ m.sbytes = g.size
  sized : ∀ g, s.sent t = some g → 0 ≤ g.size ∧
    ((∃ d, s.kernel.pc t = .rpc d) ∨ ∃ d, s.kernel.pc t = .sendIf d)
  calls : .rpc ∈ s.kernel.state t ∨ .ret ∈ s.kernel.state t →
    ∃ d, s.kernel.pc t = .rpc d ∧ s.kernel.msg t = L.adr (.stack t) ∧
      s.kernel.msgTask t = .task d
  held : .rpc ∈ s.kernel.state t → ∀ g, s.sent t = some g → s.buf g.buf = g.bytes
  once : .rpc ∈ s.kernel.state t → .ret ∉ s.kernel.state t
  waits : .receive ∈ s.kernel.state t → s.kernel.pc t = .receive none
  awake : s.kernel.isHard t = false → Awake s.kernel t → Disjoint (s.kernel.state t) messaging
  retTask : s.kernel.retTask t ≠ .null → s.kernel.pc t = .receive none
  inside : s.kernel.pc t = .receive none → ∃ x, s.receive t = some x

/-- The block at `a` and the buffer are those of the call `g` of `t`, which is
    in progress. -/
def Points (s : Xmsg T S B) (c t : T) (g : Sent B) (a : McbAdr T) : Prop :=
  s.sent t = some g ∧ s.buf g.buf = g.bytes ∧
  (a = .stack t ∧ s.kernel.pc t = .rpc c ∧ s.kernel.msgTask t = .task c ∨
   a = .own c ∧ s.kernel.pc t = .sendIf c ∧ (s.own c).sbuf = g.buf ∧ (s.own c).sbytes = g.size)

/-- A receive that has read nothing yet. -/
structure Fresh (x : Receive T B) : Prop where
  stage : x.stage = .inside
  msg : x.msg = true
  size : 0 ≤ x.size
  stored : x.stored = []
  late : x.late = false

/-- What the receive has read of the message. -/
def Reads (g : Sent B) (x : Receive T B) : Prop :=
  match x.stage with
  | .inside => False
  | .sbytes _ _ => x.stored = []
  | .sbuf _ _ len => x.stored = [] ∧ x.len = some len ∧ len = min x.size g.size
  | .copy _ _ b len => b = g.buf ∧ x.len = some (min x.size g.size) ∧
      len = (min x.size g.size).toNat ∧ x.stored.length ≤ len ∧
      x.stored = g.firstBytes x.stored.length
  | .test _ _ => x.len = some (min x.size g.size) ∧ x.stored = g.firstBytes (min x.size g.size)
  | .answer _ => x.len = some (min x.size g.size) ∧ x.stored = g.firstBytes (min x.size g.size)

/-- The sender that the receive is going to return. -/
def source {T B : Type} : Stage T B → Option T
  | .inside => none
  | .sbytes t _ => some t
  | .sbuf t _ _ => some t
  | .copy t _ _ _ => some t
  | .test t _ => some t
  | .answer t => some t

/-- The block that the receive reads. -/
def block {T B : Type} : Stage T B → Option (McbAdr T)
  | .inside => none
  | .sbytes _ a => some a
  | .sbuf _ a _ => some a
  | .copy _ a _ _ => some a
  | .test _ a => some a
  | .answer _ => none

/-- A receive waits, has been handed a message, or reads it. -/
inductive Progress (s : Xmsg T S B) (c : T) (x : Receive T B) : Prop
  | waits (hx : Fresh x) (hpc : s.kernel.pc c = .receive none)
      (hret : s.kernel.retTask c ≠ .null)
  | handed {t g a} (hx : Fresh x) (hpc : s.kernel.pc c = .receive none)
      (ht : s.taken c = some (t, g)) (hg : 0 ≤ g.size)
      (hmt : s.kernel.msgTask c = .task t) (hmsg : s.kernel.msg c = L.adr a)
      (hp : Points s c t g a)
  | reads {t g} (hsrc : source x.stage = some t) (hpc : Aside (s.kernel.pc c))
      (ht : s.taken c = some (t, g)) (hg : 0 ≤ g.size) (hsize : 0 ≤ x.size)
      (hlate : x.late = false) (hx : Reads g x)
      (hp : Unread s c → ∀ a, block x.stage = some a → Points s c t g a)

/-- The blocks belong to the calls in progress. -/
structure LinkInv (s : Xmsg T S B) : Prop where
  proxy : s.kernel.receiver = fun _ => none
  delivers : Delivers s
  caller : ∀ t, Caller L s t
  progress : ∀ c x, s.receive c = some x → Progress L s c x

/-! ## What a step spares -/

variable {L} {s s' : Xmsg T S B} {c d t u : T} {g : Sent B} {A : T → Prop}

/-- The step is not about the task. -/
structure Rests (s s' : Xmsg T S B) (u : T) : Prop where
  pc : s'.kernel.pc u = s.kernel.pc u ∨ Aside (s.kernel.pc u) ∧ Aside (s'.kernel.pc u)
  msg : s'.kernel.msg u = s.kernel.msg u
  msgTask : s'.kernel.msgTask u = s.kernel.msgTask u
  retTask : s'.kernel.retTask u = s.kernel.retTask u
  bits : ∀ f, f ∈ messaging → f ∈ s'.kernel.state u → f ∈ s.kernel.state u
  isHard : s'.kernel.isHard u = s.kernel.isHard u
  awake : s.kernel.isHard u = false → Awake s'.kernel u →
    Awake s.kernel u ∨ Disjoint (s'.kernel.state u) messaging
  mcb : s'.mcb u = s.mcb u
  own : s'.own u = s.own u
  receive : s'.receive u = s.receive u
  sent : s'.sent u = s.sent u
  taken : s'.taken u = s.taken u
  buf : ∀ g, s.sent u = some g → s'.buf g.buf = s.buf g.buf

theorem Rests.pc_of (h : Rests s s' u) {p : Pc T S} (hp : ¬ Aside p) :
    s'.kernel.pc u = p ↔ s.kernel.pc u = p := by
  obtain h | ⟨h, h'⟩ := h.pc
  · rw [h]
  · constructor
    · intro hu
      exact absurd (hu ▸ h') hp
    · intro hu
      exact absurd (hu ▸ h) hp

theorem Points.kept {r : T} {a : McbAdr T} (h : Points s r t g a)
    (ht : Rests s s' t) (hown : s'.own r = s.own r) : Points s' r t g a := by
  obtain ⟨hs, hb, hpt⟩ := h
  refine ⟨ht.sent.trans hs, (ht.buf g hs).trans hb, ?_⟩
  obtain ⟨ha, hpc, hmt⟩ | ⟨ha, hpc, hown'⟩ := hpt
  · refine Or.inl ⟨ha, (ht.pc_of fun h => h.ne_rpc rfl).mpr hpc, ?_⟩
    exact ht.msgTask.trans hmt
  · refine Or.inr ⟨ha, (ht.pc_of fun h => h.ne_sendIf rfl).mpr hpc, ?_⟩
    rw [hown]
    exact hown'

theorem Caller.kept (h : Caller L s u) (hr : Rests s s' u) : Caller L s' u where
  noSend := fun hf => h.noSend (hr.bits _ (by decide) hf)
  place := by
    obtain hp | ⟨-, hp⟩ := hr.pc
    · rw [hp]
      exact h.place
    · exact Or.inl hp
  block := by
    intro d hd
    rw [hr.mcb, hr.sent]
    exact h.block d ((hr.pc_of fun h => h.ne_rpc rfl).mp hd)
  sized := by
    intro g hg
    obtain ⟨hsize, hpc⟩ := h.sized g (hr.sent ▸ hg)
    refine ⟨hsize, hpc.imp ?_ ?_⟩
    · rintro ⟨d, hd⟩
      exact ⟨d, (hr.pc_of fun h => h.ne_rpc rfl).mpr hd⟩
    · rintro ⟨d, hd⟩
      exact ⟨d, (hr.pc_of fun h => h.ne_sendIf rfl).mpr hd⟩
  calls := by
    intro hf
    obtain ⟨d, hd, hm, hmt⟩ := h.calls (hf.imp (hr.bits _ (by decide)) (hr.bits _ (by decide)))
    exact ⟨d, (hr.pc_of fun h => h.ne_rpc rfl).mpr hd, hr.msg.trans hm, hr.msgTask.trans hmt⟩
  held := by
    intro hf g hg
    have hg := hr.sent ▸ hg
    rw [hr.buf g hg]
    exact h.held (hr.bits _ (by decide) hf) g hg
  once := fun hf hf' => h.once (hr.bits _ (by decide) hf) (hr.bits _ (by decide) hf')
  waits := fun hf => (hr.pc_of fun h => h.ne_receive rfl).mpr
    (h.waits (hr.bits _ (by decide) hf))
  awake := by
    intro hs ha
    have hs := hr.isHard ▸ hs
    obtain ha | hd := hr.awake hs ha
    · have hd := h.awake hs ha
      refine Finset.disjoint_left.mpr fun f hf hm => ?_
      exact Finset.disjoint_left.mp hd (hr.bits f hm hf) hm
    · exact hd
  retTask := fun hn => (hr.pc_of fun h => h.ne_receive rfl).mpr (h.retTask (hr.retTask ▸ hn))
  inside := by
    intro hp
    rw [hr.receive]
    exact h.inside ((hr.pc_of fun h => h.ne_receive rfl).mp hp)

theorem unread_of_inside {x : Receive T B} (hx : s.receive c = some x)
    (hst : x.stage = .inside) : Unread s c := by
  simp only [Unread, hx, hst]

theorem Progress.kept {x : Receive T B} (h : Progress L s c x)
    (hx : s.receive c = some x) (hr : Rests s s' c)
    (hp : Unread s c → ∀ t g a, s.taken c = some (t, g) → Points s c t g a →
      Points s' c t g a) : Progress L s' c x := by
  have hunread : Unread s' c ↔ Unread s c := by
    simp only [Unread, hr.receive]
  cases h with
  | waits hf hpc hret =>
    exact .waits hf ((hr.pc_of fun h => h.ne_receive rfl).mpr hpc) (hr.retTask ▸ hret)
  | handed hf hpc ht hg hmt hmsg hpt =>
    exact .handed hf ((hr.pc_of fun h => h.ne_receive rfl).mpr hpc)
      (hr.taken.trans ht) hg (hr.msgTask.trans hmt) (hr.msg.trans hmsg)
      (hp (unread_of_inside hx hf.stage) _ _ _ ht hpt)
  | reads hsrc hpc ht hg hsize hlate hrd hpt =>
    refine .reads hsrc ?_ (hr.taken.trans ht) hg hsize hlate hrd ?_
    · obtain h | ⟨-, h⟩ := hr.pc
      · rw [h]
        exact hpc
      · exact h
    · intro hu a ha
      exact hp (hunread.mp hu) _ _ _ ht (hpt (hunread.mp hu) a ha)

/-- **WHOM A STEP SPARES**: it is enough to look at the tasks that the step is
    about, and at the messages of theirs that are still to be read. -/
theorem LinkInv.spared (hi : LinkInv L s) (hrec : s'.kernel.receiver =
      s.kernel.receiver) (hdel : Delivers s')
    (hrests : ∀ u, ¬ A u → Rests s s' u)
    (hcaller : ∀ u, A u → Caller L s' u)
    (hprog : ∀ u x, A u → s'.receive u = some x → Progress L s' u x)
    (hpoints : ∀ r t g a, ¬ A r → A t → Unread s r → s.taken r = some (t, g) →
      Points s r t g a → Points s' r t g a) : LinkInv L s' where
  proxy := hrec.trans hi.proxy
  delivers := hdel
  caller := by
    intro u
    by_cases hu : A u
    · exact hcaller u hu
    · exact (hi.caller u).kept (hrests u hu)
  progress := by
    intro r x hx
    by_cases hr : A r
    · exact hprog r x hr hx
    · have hx := (hrests r hr).receive ▸ hx
      refine (hi.progress r x hx).kept hx (hrests r hr) ?_
      intro hun t g a ht hpt
      by_cases htA : A t
      · exact hpoints r t g a hr htA hun ht hpt
      · exact hpt.kept (hrests t htA) (hrests r hr).own

/-! ## Callers -/

/-- A task outside any messaging call has no bit of one. -/
theorem Caller.bare (h : Caller L s t) (hpc : Aside (s.kernel.pc t)) :
    Disjoint (s.kernel.state t) messaging := by
  refine Finset.disjoint_left.mpr fun f hf hm => ?_
  have hcall : ¬ (.rpc ∈ s.kernel.state t ∨ .ret ∈ s.kernel.state t) := by
    intro hb
    obtain ⟨d, hd, -⟩ := h.calls hb
    exact hpc.ne_rpc hd
  simp only [messaging, Finset.mem_insert, Finset.mem_singleton] at hm
  obtain rfl | rfl | rfl | rfl := hm
  · exact h.noSend hf
  · exact hpc.ne_receive (h.waits hf)
  · exact hcall (Or.inl hf)
  · exact hcall (Or.inr hf)

/-- A task that executes has no bit of a messaging call. -/
theorem Caller.executing (h : Caller L s t) (hex : executes s.kernel t = true) :
    Disjoint (s.kernel.state t) messaging := by
  simp only [executes] at hex
  split at hex
  · simp only [Bool.and_eq_true, decide_eq_true_eq] at hex
    rw [hex.1]
    decide
  · next hs =>
    rw [Bool.not_eq_true] at hs
    refine h.awake hs (Or.inl ?_)
    rw [of_decide_eq_true hex]
    decide

theorem Caller.no_call (h : Caller L s t) (hrpc : ∀ d, s.kernel.pc t ≠ .rpc d)
    (hsend : ∀ d, s.kernel.pc t ≠ .sendIf d) : s.sent t = none := by
  cases hg : s.sent t with
  | none => rfl
  | some g =>
    obtain ⟨-, ⟨d, hd⟩ | ⟨d, hd⟩⟩ := h.sized g hg
    · exact absurd hd (hrpc d)
    · exact absurd hd (hsend d)

theorem Caller.aside_sent (h : Caller L s t) (hpc : Aside (s.kernel.pc t)) : s.sent t = none :=
  h.no_call (fun _ => hpc.ne_rpc) fun _ => hpc.ne_sendIf

variable [DecidableEq T] in
theorem Caller.ret_null (h : Caller L s t)
    (hpc : s.kernel.pc t ≠ .receive none) : s.kernel.retTask t = .null := by
  by_contra hn
  exact hpc (h.retTask hn)

/-- A task outside any messaging call. -/
theorem Caller.of_aside (hpc : Aside (s.kernel.pc t)) (hsent : s.sent t = none)
    (hret : s.kernel.retTask t = .null)
    (hbare : Disjoint (s.kernel.state t) messaging) : Caller L s t := by
  have hnot : ∀ f ∈ messaging, f ∉ s.kernel.state t :=
    fun f hm hf => Finset.disjoint_left.mp hbare hf hm
  constructor
  · exact hnot _ (by decide)
  · exact Or.inl hpc
  · intro d hd
    exact absurd hd hpc.ne_rpc
  · intro g hg
    rw [hsent] at hg
    exact nomatch hg
  · intro hf
    exact hf.elim (fun h => absurd h (hnot _ (by decide)))
      fun h => absurd h (hnot _ (by decide))
  · intro hf
    exact absurd hf (hnot _ (by decide))
  · intro hf
    exact absurd hf (hnot _ (by decide))
  · intro hf
    exact absurd hf (hnot _ (by decide))
  · intro _ _
    exact hbare
  · intro hn
    exact absurd hret hn
  · intro hp
    exact absurd hp hpc.ne_receive

/-- A task in a receive. -/
theorem Caller.of_receive {x : Receive T B}
    (hpc : s.kernel.pc t = .receive none) (hx : s.receive t = some x)
    (hsent : s.sent t = none)
    (hbits : ∀ f ∈ messaging, f ∈ s.kernel.state t → f = .receive)
    (hawake : s.kernel.isHard t = false → Awake s.kernel t →
      Disjoint (s.kernel.state t) messaging) : Caller L s t := by
  constructor
  · intro hf
    exact nomatch hbits _ (by decide) hf
  · exact Or.inr (Or.inr (Or.inr hpc))
  · intro d hd
    rw [hpc] at hd
    exact nomatch hd
  · intro g hg
    rw [hsent] at hg
    exact nomatch hg
  · intro hf
    obtain hf | hf := hf
    · exact nomatch hbits _ (by decide) hf
    · exact nomatch hbits _ (by decide) hf
  · intro hf
    exact nomatch hbits _ (by decide) hf
  · intro hf
    exact nomatch hbits _ (by decide) hf
  · intro _
    exact hpc
  · exact hawake
  · intro _
    exact hpc
  · intro _
    exact ⟨x, hx⟩

theorem Points.not_aside {r : T} {a : McbAdr T} (h : Points s r t g a) :
    ¬ Aside (s.kernel.pc t) := by
  intro hpc
  obtain ⟨-, -, ⟨-, h, -⟩ | ⟨-, h, -⟩⟩ := h
  · exact hpc.ne_rpc h
  · exact hpc.ne_sendIf h

theorem Points.not_receive {r : T} {a : McbAdr T} (h : Points s r t g a) :
    s.kernel.pc t ≠ .receive none := by
  intro hpc
  obtain ⟨-, -, ⟨-, h, -⟩ | ⟨-, h, -⟩⟩ := h
  · exact nomatch hpc.symm.trans h
  · exact nomatch hpc.symm.trans h

/-- The call that is pointed to from a receive of `r` is one to `r`. -/
theorem Points.dest {r : T} {a : McbAdr T} (h : Points s r t g a)
    (hpc : s.kernel.pc t = .rpc d) : r = d := by
  obtain ⟨-, -, ⟨-, h, -⟩ | ⟨-, h, -⟩⟩ := h
  · cases hpc.symm.trans h
    rfl
  · exact nomatch hpc.symm.trans h

/-- A task that is in a send or an rpc is in no receive. -/
theorem LinkInv.receive_none (hi : LinkInv L s) (hpc : ¬ Aside (s.kernel.pc t))
    (hne : s.kernel.pc t ≠ .receive none) : s.receive t = none := by
  cases hx : s.receive t with
  | none => rfl
  | some x =>
    cases hi.progress t x hx with
    | waits _ hp _ => exact absurd hp hne
    | handed _ hp _ _ _ _ _ => exact absurd hp hne
    | reads _ ha _ _ _ _ _ _ => exact absurd ha hpc

/-- The receiver that a message is put into. -/
theorem LinkInv.waiting (hi : LinkInv L s)
    (hbit : .receive ∈ s.kernel.state d) : s.kernel.pc d = .receive none ∧
    s.sent d = none ∧ (∃ x, s.receive d = some x ∧ Fresh x) ∧
    ∀ f ∈ messaging, f ∈ s.kernel.state d → f = .receive := by
  have hc := hi.caller d
  have hpc := hc.waits hbit
  have hcall : ¬ (.rpc ∈ s.kernel.state d ∨ .ret ∈ s.kernel.state d) := by
    intro hb
    obtain ⟨e, he, -⟩ := hc.calls hb
    exact nomatch hpc.symm.trans he
  refine ⟨hpc, hc.no_call ?_ ?_, ?_, ?_⟩
  · intro e he
    exact nomatch hpc.symm.trans he
  · intro e he
    exact nomatch hpc.symm.trans he
  · obtain ⟨x, hx⟩ := hc.inside hpc
    refine ⟨x, hx, ?_⟩
    cases hi.progress d x hx with
    | waits hf _ _ => exact hf
    | handed hf _ _ _ _ _ _ => exact hf
    | reads _ ha _ _ _ _ _ _ => exact absurd hpc ha.ne_receive
  · intro f hm hf
    simp only [messaging, Finset.mem_insert, Finset.mem_singleton] at hm
    obtain rfl | rfl | rfl | rfl := hm
    · exact absurd hf hc.noSend
    · rfl
    · exact absurd (Or.inl hf) hcall
    · exact absurd (Or.inr hf) hcall

/-! ## A call that is over -/

variable [DecidableEq T] in
/-- A step of `c` that leaves it outside any call, or reading. -/
theorem LinkInv.settled {k : Kernel T S} (hi : LinkInv L s)
    (hk : Settles c s.kernel k) (hret : k.retTask c = .null)
    (hbare : Disjoint (k.state c) messaging)
    (hker : s'.kernel = { k with pc := Function.update k.pc c .idle })
    (hwild : s'.wild = s.wild) (hreceipts : s'.receipts = s.receipts)
    (hown : s'.own = s.own) (hbuf : s'.buf = s.buf)
    (hother : ∀ u, u ≠ c → s'.mcb u = s.mcb u ∧ s'.receive u = s.receive u ∧
      s'.sent u = s.sent u ∧ s'.taken u = s.taken u)
    (hsent : s'.sent c = none)
    (hprog : (∀ u, u ≠ c → Rests s s' u) → ∀ x, s'.receive c = some x → Progress L s' c x)
    (hfree : ∀ r g a, r ≠ c → Unread s r → s.taken r = some (c, g) →
      ¬ Points s r c g a) : LinkInv L s' := by
  have hrests : ∀ u, u ≠ c → Rests s s' u := by
    intro u hu
    obtain ⟨hm, hr, hs, ht⟩ := hother u hu
    refine ⟨Or.inl ?_, ?_, ?_, ?_, ?_, ?_, ?_, hm, by rw [hown], hr, hs, ht,
      fun _ _ => by rw [hbuf]⟩
    · rw [hker]
      show Function.update k.pc c _ u = _
      rw [Function.update_of_ne hu, hk.pc]
    · rw [hker]
      exact congrFun hk.msg u
    · rw [hker]
      exact hk.msgTask u hu
    · rw [hker]
      exact hk.retTask u hu
    · rw [hker]
      exact hk.bits u
    · rw [hker]
      exact congrFun hk.rouses.isHard u
    · rw [hker]
      exact fun _ => hk.rouses.awake u
  refine hi.spared (A := (· = c)) ?_ ?_ (fun u hu => hrests u hu) ?_ ?_ ?_
  · rw [hker]
    exact hk.receiver
  · exact ⟨hwild.trans hi.delivers.sound, hreceipts ▸ hi.delivers.faithful⟩
  · rintro u rfl
    refine .of_aside ?_ hsent ?_ ?_
    · rw [hker]
      show Aside (Function.update k.pc u _ u)
      rw [Function.update_self]
      exact Or.inl rfl
    · rw [hker]
      exact hret
    · rw [hker]
      exact hbare
  · rintro u x rfl hx
    exact hprog hrests x hx
  · rintro r t g a hr rfl hu ht hp
    exact absurd hp (hfree r g a hr hu ht)

variable [DecidableEq T] in
/-- A task outside any messaging call does something that is about no message
    of its own. -/
theorem LinkInv.returned {k : Kernel T S} (hi : LinkInv L s)
    (hpc : Aside (s.kernel.pc c)) (hk : Settles c s.kernel k)
    (hker : s'.kernel = { k with pc := Function.update k.pc c .idle })
    (hwild : s'.wild = s.wild) (hreceipts : s'.receipts = s.receipts)
    (hown : s'.own = s.own) (hbuf : s'.buf = s.buf) (hmcb : s'.mcb = s.mcb)
    (hrec : ∀ u, u ≠ c → s'.receive u = s.receive u)
    (hrecv : s'.receive c = none) (hsent : s'.sent = s.sent)
    (htaken : ∀ u, u ≠ c → s'.taken u = s.taken u) : LinkInv L s' := by
  have hc := hi.caller c
  have hret : k.retTask c = .null := by
    obtain h | h := hk.retSelf
    · exact h
    · exact h.trans (hc.ret_null hpc.ne_receive)
  refine hi.settled hk hret ?_ hker hwild hreceipts hown hbuf ?_ ?_ ?_ ?_
  · refine Finset.disjoint_left.mpr fun f hf hm => ?_
    exact Finset.disjoint_left.mp (hc.bare hpc) (hk.bits c f hm hf) hm
  · intro u hu
    exact ⟨by rw [hmcb], hrec u hu, by rw [hsent], htaken u hu⟩
  · rw [hsent]
    exact hc.aside_sent hpc
  · intro _ x hx
    rw [hrecv] at hx
    exact nomatch hx
  · intro r g a _ _ _ hp
    exact hp.not_aside hpc

end RtaiMsgLinks
