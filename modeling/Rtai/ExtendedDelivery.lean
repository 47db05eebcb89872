import Rtai.MsgLinks

/-! # The delivery of extended messages

    One lemma for each section of a call tells what the section does to the
    tasks that it is about.  A send or an rpc that returns before its message
    has been read leaves a receive that points to nothing. -/

namespace RtaiExtendedDelivery

open RtaiRuns RtaiKernel RtaiTaskApi RtaiMsg RtaiSteps RtaiFrames RtaiServices
  RtaiMsgEffects RtaiExtendedMsg RtaiMsgLinks

variable {T S B : Type} [decT : DecidableEq T] [decS : DecidableEq S] [finT : Fintype T]
  [finS : Fintype S] [decB : DecidableEq B] {L : Layout T} {s s' : Xmsg T S B} {c d t u : T}
  {g : Sent B}

/-! ## Sends -/

theorem rpcs_effect {k : Kernel T S} {w : Word} {r : Outcome T S} {op : Op T S}
    (hop : op = .rpc d w ∨ ∃ time, op = .rpcUntil d w time)
    (h : taskOp k c op = some r) :
    (∃ v, r.2 = some v ∧ Calm k r.1) ∨ r.2 = none ∧ Calls k c d w r.1 := by
  obtain rfl | ⟨time, rfl⟩ := hop
  · obtain ⟨v, rfl⟩ | h := rtRpc_effect (by exact h)
    · exact Or.inl ⟨v, rfl, Calm.refl k⟩
    · exact Or.inr h
  · exact rtRpcUntil_effect (by exact h)

omit decT decS finT finS decB in
/-- The receiver has been handed the block at `a`. -/
theorem LinkInv.handed {a : McbAdr T} (hi : LinkInv L s) (hbit : .receive ∈ s.kernel.state d)
    (hpc : s'.kernel.pc d = s.kernel.pc d)
    (hmsg : s'.kernel.msg d = L.adr a) (hmt : s'.kernel.msgTask d = .task c)
    (hbits : ∀ f ∈ messaging, f ∈ s'.kernel.state d → f ∈ s.kernel.state d)
    (hhard : s'.kernel.isHard d = s.kernel.isHard d)
    (hawake : s.kernel.isHard d = false → Awake s'.kernel d →
      Awake s.kernel d ∨ Disjoint (s'.kernel.state d) messaging)
    (hrec : s'.receive d = s.receive d) (hsent : s'.sent d = s.sent d)
    (htaken : s'.taken d = some (c, g)) (hg : 0 ≤ g.size)
    (hp : Points s' d c g a) :
    Caller L s' d ∧ ∀ x, s'.receive d = some x → Progress L s' d x := by
  obtain ⟨hpc₀, hsent₀, ⟨x, hx, hf⟩, hbits₀⟩ := hi.waiting hbit
  constructor
  · refine .of_receive (x := x) (hpc.trans hpc₀) (hrec.trans hx)
      (hsent.trans hsent₀) (fun f hm hf => hbits₀ f hm (hbits f hm hf)) ?_
    intro hs ha
    have hs := hhard ▸ hs
    obtain ha | hd := hawake hs ha
    · have hd := (hi.caller d).awake hs ha
      refine Finset.disjoint_left.mpr fun f hf hm => ?_
      exact Finset.disjoint_left.mp hd (hbits f hm hf) hm
    · exact hd
  · intro y hy
    rw [hrec, hx] at hy
    cases hy
    exact .handed hf (hpc.trans hpc₀) htaken hg hmt hmsg hp

omit decS finT finS in
theorem accepts_receive {k : Kernel T S} (ha : accepts k c d = true) :
    .receive ∈ k.state d := by
  simp only [accepts, Bool.and_eq_true, decide_eq_true_eq] at ha
  exact ha.1

/-- **A CALL HAS BEGUN.** -/
theorem LinkInv.called {k : Kernel T S} {m : Mcb B} (hi : LinkInv L s)
    (hpc : Aside (s.kernel.pc c)) (hrec : s.receive c = none)
    (hsize : 0 ≤ m.sbytes) (hk : Calls s.kernel c d (L.adr (.stack c)) k) :
    LinkInv L { s with
      kernel := k
      mcb := Function.update s.mcb c (some m)
      calls := s.calls + 1
      sent := Function.update s.sent c (some ⟨s.calls, m.sbuf, m.sbytes, s.buf m.sbuf⟩)
      taken := if accepts s.kernel c d
        then Function.update s.taken d (some (c, ⟨s.calls, m.sbuf, m.sbytes, s.buf m.sbuf⟩))
        else s.taken } := by
  have hc := hi.caller c
  have hbare := hc.bare hpc
  have hne : accepts s.kernel c d = true → d ≠ c := by
    rintro ha rfl
    exact hpc.ne_receive (hi.waiting (accepts_receive ha)).1
  have hbits : ∀ u f, u ≠ c → f ∈ messaging → f ∈ k.state u → f ∈ s.kernel.state u := by
    intro u f hu hm hf
    obtain ⟨h, -⟩ | ⟨h, -⟩ := hk.bits u f hm hf
    · exact h
    · exact absurd h hu
  have hown : ∀ f ∈ messaging, f ∈ k.state c →
      f = (if accepts s.kernel c d then .ret else .rpc) := by
    intro f hm hf
    obtain ⟨h, -⟩ | ⟨-, h⟩ := hk.bits c f hm hf
    · exact absurd hm (Finset.disjoint_left.mp hbare h)
    · exact h
  have hmsg : k.msg c = L.adr (.stack c) := by
    rw [hk.msg]
    split
    · next ha => rw [Function.update_of_ne (hne ha).symm, Function.update_self]
    · rw [Function.update_self]
  have hpc' : k.pc c = .rpc d := by
    rw [hk.pc, Function.update_self]
  have hmt : k.msgTask c = .task d := by
    rw [hk.msgTask, Function.update_self]
  generalize hs' : ({ s with
      kernel := k
      mcb := Function.update s.mcb c (some m)
      calls := s.calls + 1
      sent := Function.update s.sent c (some ⟨s.calls, m.sbuf, m.sbytes, s.buf m.sbuf⟩)
      taken := if accepts s.kernel c d
        then Function.update s.taken d (some (c, ⟨s.calls, m.sbuf, m.sbytes, s.buf m.sbuf⟩))
        else s.taken } : Xmsg T S B) = s'
  have hsent : s'.sent c = some ⟨s.calls, m.sbuf, m.sbytes, s.buf m.sbuf⟩ := by
    rw [← hs']
    exact Function.update_self ..
  have hker : s'.kernel = k := by rw [← hs']
  have hbuf : s'.buf = s.buf := by rw [← hs']
  -- a receiver that waits gets the block at once
  have hdest : accepts s.kernel c d = true →
      Caller L s' d ∧ ∀ x, s'.receive d = some x → Progress L s' d x := by
    intro ha
    have hd := hne ha
    refine LinkInv.handed hi (c := c) (a := .stack c)
      (g := ⟨s.calls, m.sbuf, m.sbytes, s.buf m.sbuf⟩) (accepts_receive ha)
      ?_ ?_ ?_ ?_ ?_ ?_ ?_ ?_ ?_ hsize ⟨hsent, by rw [hbuf], Or.inl ⟨rfl, ?_, ?_⟩⟩
    · rw [hker, hk.pc, Function.update_of_ne hd]
    · rw [hker, hk.msg, if_pos ha, Function.update_self]
    · rw [hker, hk.msgTask, Function.update_of_ne hd, if_pos ha, Function.update_self]
    · rw [hker]
      exact fun f => hbits d f hd
    · rw [hker]
      exact congrFun hk.dozes.isHard d
    · rw [hker]
      exact fun hs ha => (hk.dozes.awake d hs ha).2
    · rw [← hs']
    · rw [← hs']
      exact Function.update_of_ne hd _ _
    · rw [← hs']
      show (if _ then _ else _ : T → Option (T × Sent B)) d = _
      rw [if_pos ha, Function.update_self]
    · rw [hker]
      exact hpc'
    · rw [hker]
      exact hmt
  have hcaller : Caller L s' c := by
    rw [← hker] at hpc' hmsg hmt hown
    have hcall : ∀ f ∈ messaging, f ∈ s'.kernel.state c → f ≠ .receive := by
      intro f hm hf
      rw [hown f hm hf]
      split
      · rintro ⟨⟩
      · rintro ⟨⟩
    constructor
    · intro hf
      have h := hown _ (by decide) hf
      split at h
      · cases h
      · cases h
    · exact Or.inr (Or.inl ⟨d, hpc'⟩)
    · intro e he
      refine ⟨m, _, ?_, hsent, rfl, rfl⟩
      rw [← hs']
      exact Function.update_self ..
    · intro g hg
      cases hsent.symm.trans hg
      exact ⟨hsize, Or.inl ⟨d, hpc'⟩⟩
    · intro _
      exact ⟨d, hpc', hmsg, hmt⟩
    · intro _ g hg
      cases hsent.symm.trans hg
      rw [hbuf]
    · intro hf hf'
      cases (hown _ (by decide) hf).trans (hown _ (by decide) hf').symm
    · intro hf
      exact absurd rfl (hcall _ (by decide) hf)
    · intro hs ha
      rw [hker] at hs ha
      exact absurd rfl (hk.dozes.awake c (hk.dozes.isHard ▸ hs) ha).1
    · intro hn
      refine absurd ?_ hn
      rw [hker, hk.retTask]
      split
      · next ha =>
        rw [Function.update_of_ne (hne ha).symm]
        exact hc.ret_null hpc.ne_receive
      · exact hc.ret_null hpc.ne_receive
    · intro hp
      cases hpc'.symm.trans hp
  -- the caller and its receiver are the only ones that change
  refine hi.spared (A := fun u => u = c ∨ accepts s.kernel c d = true ∧ u = d)
    (by rw [hker]; exact hk.receiver) ?_ ?_ ?_ ?_ ?_
  · rw [← hs']
    exact ⟨hi.delivers.sound, hi.delivers.faithful⟩
  · intro u hu
    rw [← hs']
    have huc : u ≠ c := fun h => hu (Or.inl h)
    have hud : accepts s.kernel c d = true → u ≠ d := fun ha h => hu (Or.inr ⟨ha, h⟩)
    refine ⟨Or.inl ?_, ?_, ?_, ?_, fun f => hbits u f huc,
      congrFun hk.dozes.isHard u, fun hs ha => (hk.dozes.awake u hs ha).2,
      Function.update_of_ne huc _ _, rfl, rfl, Function.update_of_ne huc _ _, ?_,
      fun _ _ => rfl⟩
    · rw [hk.pc, Function.update_of_ne huc]
    · rw [hk.msg]
      split
      · next ha => rw [Function.update_of_ne (hud ha), Function.update_of_ne huc]
      · rw [Function.update_of_ne huc]
    · rw [hk.msgTask, Function.update_of_ne huc]
      split
      · next ha => rw [Function.update_of_ne (hud ha)]
      · rfl
    · rw [hk.retTask]
      split
      · next ha => rw [Function.update_of_ne (hud ha)]
      · rfl
    · show (if _ then _ else _ : T → Option (T × Sent B)) u = _
      split
      · next ha => rw [Function.update_of_ne (hud ha)]
      · rfl
  · rintro u (rfl | ⟨ha, rfl⟩)
    · exact hcaller
    · exact (hdest ha).1
  · rintro u x (rfl | ⟨ha, rfl⟩) hx
    · rw [← hs'] at hx
      cases hrec.symm.trans hx
    · exact (hdest ha).2 x hx
  · rintro r t g a - (rfl | ⟨ha, rfl⟩) - - hp
    · exact absurd hpc hp.not_aside
    · exact absurd (hi.waiting (accepts_receive ha)).1 hp.not_receive

theorem LinkInv.post {m : Mcb B} {op : Op T S} (hi : LinkInv L s)
    (hop : op = .rpc d (L.adr (.stack c)) ∨ ∃ time, op = .rpcUntil d (L.adr (.stack c)) time)
    (hsize : 0 ≤ m.sbytes) (h : post s c d m op = some s') : LinkInv L s' := by
  simp only [RtaiExtendedMsg.post] at h
  split at h
  · cases h
  next hrec =>
  rw [Bool.not_eq_true, Option.isSome_eq_false_iff, Option.isNone_iff_eq_none] at hrec
  obtain ⟨⟨k, o⟩, he, h⟩ := Option.bind_eq_some_iff.mp h
  obtain ⟨hmay, ⟨k₁, o₁⟩, hr, hf⟩ := exec_call he
  have hpc := aside_of_mayCall hmay
  obtain ⟨v, hv, hk⟩ | ⟨hv, hk⟩ := rpcs_effect hop hr
  · cases hv
    cases hf
    cases h
    exact hi.returned (c := c) hpc (.of_calm hk) rfl rfl rfl rfl rfl rfl
      (fun _ _ => rfl) hrec rfl fun _ _ => rfl
  · cases hv
    cases hf
    cases h
    exact LinkInv.called hi hpc hrec hsize hk

/-- **A MESSAGE HAS BEEN PUT INTO A WAITING RECEIVER** by `rt_sendx_if`, which
    goes to `rt_schedule`. -/
theorem LinkInv.sentIf {k : Kernel T S} {msg : B} {size : Int} (hi : LinkInv L s)
    (hpc : Aside (s.kernel.pc c)) (hrec : s.receive c = none) (hsize : 0 ≤ size)
    (hacc : accepts s.kernel c d = true)
    (hk : Hands s.kernel c d (L.adr (.own d)) k) :
    LinkInv L { s with
      kernel := { k with pc := Function.update k.pc c (.sendIf d) }
      own := Function.update s.own d { s.own d with sbuf := msg, sbytes := size }
      calls := s.calls + 1
      sent := Function.update s.sent c (some ⟨s.calls, msg, size, s.buf msg⟩)
      taken := Function.update s.taken d (some (c, ⟨s.calls, msg, size, s.buf msg⟩)) } := by
  have hc := hi.caller c
  have hwait := hi.waiting (accepts_receive hacc)
  have hdc : d ≠ c := by
    rintro rfl
    exact hpc.ne_receive hwait.1
  generalize hs' : ({ s with
      kernel := { k with pc := Function.update k.pc c (.sendIf d) }
      own := Function.update s.own d { s.own d with sbuf := msg, sbytes := size }
      calls := s.calls + 1
      sent := Function.update s.sent c (some ⟨s.calls, msg, size, s.buf msg⟩)
      taken := Function.update s.taken d
        (some (c, ⟨s.calls, msg, size, s.buf msg⟩)) } : Xmsg T S B) = s'
  have hsent : s'.sent c = some ⟨s.calls, msg, size, s.buf msg⟩ := by
    rw [← hs']
    exact Function.update_self ..
  have hpc' : s'.kernel.pc c = .sendIf d := by
    rw [← hs']
    exact Function.update_self ..
  have hbits : ∀ u f, f ∈ messaging → f ∈ s'.kernel.state u → f ∈ s.kernel.state u := by
    rw [← hs']
    exact fun u f hm hf => (hk.bits u f hm hf).1
  -- the block is the receiver's own
  have hdest : Caller L s' d ∧ ∀ x, s'.receive d = some x → Progress L s' d x := by
    refine LinkInv.handed hi (c := c) (a := .own d)
      (g := ⟨s.calls, msg, size, s.buf msg⟩) (accepts_receive hacc) ?_ ?_ ?_
      (hbits d) ?_ ?_ ?_ ?_ ?_ hsize ⟨hsent, ?_, Or.inr ⟨rfl, hpc', ?_, ?_⟩⟩
    · rw [← hs']
      show Function.update k.pc c _ d = _
      rw [Function.update_of_ne hdc, hk.pc]
    · rw [← hs']
      show k.msg d = _
      rw [hk.msg, Function.update_self]
    · rw [← hs']
      show k.msgTask d = _
      rw [hk.msgTask, Function.update_self]
    · rw [← hs']
      exact congrFun hk.rouses.isHard d
    · rw [← hs']
      exact fun _ => hk.rouses.awake d
    · rw [← hs']
    · rw [← hs']
      exact Function.update_of_ne hdc _ _
    · rw [← hs']
      exact Function.update_self ..
    · rw [← hs']
    · rw [← hs']
      show (Function.update s.own d _ d).sbuf = _
      rw [Function.update_self]
    · rw [← hs']
      show (Function.update s.own d _ d).sbytes = _
      rw [Function.update_self]
  have hnot : ∀ f ∈ messaging, f ∉ s'.kernel.state c := fun f hm hf =>
    Finset.disjoint_left.mp (hc.bare hpc) (hbits c f hm hf) hm
  have hcaller : Caller L s' c := by
    constructor
    · exact hnot _ (by decide)
    · exact Or.inr (Or.inr (Or.inl ⟨d, hpc'⟩))
    · intro e he
      exact nomatch hpc'.symm.trans he
    · intro g hg
      cases hsent.symm.trans hg
      exact ⟨hsize, Or.inr ⟨d, hpc'⟩⟩
    · intro hf
      exact hf.elim (fun h => absurd h (hnot _ (by decide)))
        fun h => absurd h (hnot _ (by decide))
    · intro hf
      exact absurd hf (hnot _ (by decide))
    · intro hf
      exact absurd hf (hnot _ (by decide))
    · intro hf
      exact absurd hf (hnot _ (by decide))
    · intro _ _
      exact Finset.disjoint_left.mpr fun f hf hm => hnot f hm hf
    · intro hn
      refine absurd ?_ hn
      rw [← hs']
      show k.retTask c = _
      rw [hk.retTask, Function.update_of_ne hdc.symm]
      exact hc.ret_null hpc.ne_receive
    · intro hp
      exact nomatch hpc'.symm.trans hp
  refine hi.spared (A := fun u => u = c ∨ u = d) ?_ ?_ ?_ ?_ ?_ ?_
  · rw [← hs']
    exact hk.receiver
  · rw [← hs']
    exact ⟨hi.delivers.sound, hi.delivers.faithful⟩
  · intro u hu
    have huc : u ≠ c := fun h => hu (Or.inl h)
    have hud : u ≠ d := fun h => hu (Or.inr h)
    rw [← hs']
    refine ⟨Or.inl ?_, ?_, ?_, ?_, fun f hm hf => (hk.bits u f hm hf).1,
      congrFun hk.rouses.isHard u, fun _ => hk.rouses.awake u, rfl,
      Function.update_of_ne hud _ _, rfl, Function.update_of_ne huc _ _,
      Function.update_of_ne hud _ _, fun _ _ => rfl⟩
    · show Function.update k.pc c _ u = _
      rw [Function.update_of_ne huc, hk.pc]
    · show k.msg u = _
      rw [hk.msg, Function.update_of_ne hud]
    · show k.msgTask u = _
      rw [hk.msgTask, Function.update_of_ne hud]
    · show k.retTask u = _
      rw [hk.retTask, Function.update_of_ne hud]
  · rintro u (rfl | rfl)
    · exact hcaller
    · exact hdest.1
  · rintro u x (rfl | rfl) hx
    · rw [← hs'] at hx
      exact nomatch hrec.symm.trans hx
    · exact hdest.2 x hx
  · rintro r t g a - (rfl | rfl) - - hp
    · exact absurd hpc hp.not_aside
    · exact absurd hwait.1 hp.not_receive

theorem LinkInv.sendxIf {msg : B} {size : Int} (hi : LinkInv L s)
    (hg : 0 ≤ size ∧ ((s.kernel.magic d && accepts s.kernel c d) = true → wakes s.kernel d))
    (h : rtSendxIf L s c d msg size = some s') : LinkInv L s' := by
  simp only [rtSendxIf] at h
  split at h
  · cases h
  next hrec =>
  rw [Bool.not_eq_true, Option.isSome_eq_false_iff, Option.isNone_iff_eq_none] at hrec
  obtain ⟨⟨k, o⟩, he, h⟩ := Option.bind_eq_some_iff.mp h
  obtain ⟨hmay, r, hr, hf⟩ := exec_call he
  have hpc := aside_of_mayCall hmay
  obtain ⟨ha, v, rfl⟩ | ⟨ha, k₁, hk, ⟨-, rfl⟩ | ⟨hw, -⟩⟩ := rtSendIf_effect hr
  · cases hf
    rw [ha] at h
    cases h
    exact hi.returned (c := c) hpc (.of_calm (Calm.refl _)) rfl rfl rfl rfl rfl rfl
      (fun _ _ => rfl) hrec rfl fun _ _ => rfl
  · cases hf
    rw [ha] at h
    cases h
    rw [Bool.and_eq_true] at ha
    exact LinkInv.sentIf hi hpc hrec hg.1 ha.2 hk
  · exact absurd (hg.2 ha) hw

/-! ## Receives -/

omit decS finT finS decB in
/-- A receive that returns no message is over. -/
theorem received_none {x : Receive T B} {k : Kernel T S} {v : Ret T}
    (hv : noMessage v) : received L s c x (k, some v) =
      { s with kernel := k }.setReceive c none := by
  cases v with
  | received t w => exact hv.elim
  | _ => rfl

omit decS finT finS decB in
/-- A receive that has got the block at `a` goes on to read it. -/
theorem received_some {x : Receive T B} {k : Kernel T S} {a : McbAdr T}
    (hx : Fresh x) : received L s c x (k, some (.received t (L.adr a))) =
      { s with kernel := k }.setReceive c (some { x with stage := .sbytes t a }) := by
  simp only [received, L.mcbAt_adr, hx.msg, if_true]

theorem LinkInv.takes {x : Receive T B} {k : Kernel T S} {src : Option T}
    (hi : LinkInv L s) (hpc : Aside (s.kernel.pc c)) (hx : Fresh x)
    (hsrc : receiveSource s.kernel c src = some u)
    (hm : hasMessage s.kernel c u = true) (hr : .rpc ∈ s.kernel.state u)
    (hk : Takes s.kernel c u k) :
    LinkInv L (received L
      { s with
        taken := Function.update s.taken c (RtaiExtendedMsg.takes s c src) } c x
      ({ k with pc := Function.update k.pc c .idle },
        some (.received u (s.kernel.msg u)))) := by
  obtain ⟨d, hpcu, hmsg, hmt⟩ := (hi.caller u).calls (Or.inl hr)
  obtain ⟨m, g, hmcb, hsent, hbuf, hsize⟩ := (hi.caller u).block d hpcu
  have hdc : d = c := by
    simp only [hasMessage, Bool.and_eq_true, decide_eq_true_eq] at hm
    cases hmt.symm.trans hm.2
    rfl
  subst hdc
  have hne : u ≠ d := by
    rintro rfl
    exact hpc.ne_rpc hpcu
  have htaken : RtaiExtendedMsg.takes s d src = some (u, g) := by
    simp only [RtaiExtendedMsg.takes, hsrc, hm, if_true, hsent, Option.map_some]
  rw [hmsg, received_some hx, htaken]
  generalize hs' : Xmsg.setReceive (T := T) (S := S) (B := B) _ _ _ = s'
  have hsentu : s'.sent u = some g := by
    rw [← hs']
    exact hsent
  have hpcu' : s'.kernel.pc u = .rpc d := by
    rw [← hs']
    show Function.update k.pc d _ u = _
    rw [Function.update_of_ne hne, hk.pc, hpcu]
  have hmtu : s'.kernel.msgTask u = .task d := by
    rw [← hs']
    exact (hk.msgTask u hne).trans hmt
  have hpcd : s'.kernel.pc d = .idle := by
    rw [← hs']
    exact Function.update_self ..
  have hbitu : ∀ f ∈ messaging, f ∈ s'.kernel.state u → f = .ret := by
    rw [← hs']
    intro f hm hf
    obtain ⟨hf, hn⟩ | ⟨-, hf⟩ := hk.bits u f hm hf
    · simp only [messaging, Finset.mem_insert, Finset.mem_singleton] at hm
      obtain rfl | rfl | rfl | rfl := hm
      · exact absurd hf (hi.caller u).noSend
      · cases hpcu.symm.trans ((hi.caller u).waits hf)
      · exact absurd ⟨rfl, rfl⟩ hn
      · rfl
    · exact hf
  have hbits : ∀ v f, v ≠ u → f ∈ messaging → f ∈ s'.kernel.state v →
      f ∈ s.kernel.state v := by
    rw [← hs']
    intro v f hv hm hf
    obtain ⟨hf, -⟩ | ⟨h, -⟩ := hk.bits v f hm hf
    · exact hf
    · exact absurd h hv
  -- the caller now waits for the return
  have hcalleru : Caller L s' u := by
    constructor
    · intro hf
      cases hbitu _ (by decide) hf
    · exact Or.inr (Or.inl ⟨d, hpcu'⟩)
    · intro e he
      refine ⟨m, g, ?_, hsentu, hbuf, hsize⟩
      rw [← hs']
      exact hmcb
    · intro g' hg'
      cases hsentu.symm.trans hg'
      exact ⟨((hi.caller u).sized g hsent).1, Or.inl ⟨d, hpcu'⟩⟩
    · intro _
      refine ⟨d, hpcu', ?_, hmtu⟩
      rw [← hs']
      exact (congrFun hk.msg u).trans hmsg
    · intro hf
      cases hbitu _ (by decide) hf
    · intro hf
      cases hbitu _ (by decide) hf
    · intro hf
      cases hbitu _ (by decide) hf
    · -- a soft caller is asleep
      rw [← hs']
      intro hs ha
      have hs : s.kernel.isHard u = false := by
        rw [← hs]
        exact (congrFun hk.rouses.isHard u).symm
      obtain ha | hd := hk.rouses.awake u ha
      · have hd := (hi.caller u).awake hs ha
        have hm : Flag.rpc ∈ messaging := by decide
        exact absurd hm (Finset.disjoint_left.mp hd hr)
      · exact hd
    · intro hn
      rw [← hs'] at hn
      refine absurd ?_ hn
      refine (hk.retTask u hne).trans ((hi.caller u).ret_null ?_)
      rw [hpcu]
      rintro ⟨⟩
    · intro hp
      cases hpcu'.symm.trans hp
  have hcallerd : Caller L s' d := by
    refine .of_aside (Or.inl hpcd) ?_ ?_ ?_
    · rw [← hs']
      exact (hi.caller d).aside_sent hpc
    · rw [← hs']
      exact hk.retSelf
    · refine Finset.disjoint_left.mpr fun f hf hm => ?_
      exact Finset.disjoint_left.mp ((hi.caller d).bare hpc) (hbits d f hne.symm hm hf) hm
  refine hi.spared (A := fun v => v = d ∨ v = u) ?_ ?_ ?_ ?_ ?_ ?_
  · rw [← hs']
    exact hk.receiver
  · rw [← hs']
    exact ⟨hi.delivers.sound, hi.delivers.faithful⟩
  · intro v hv
    have hvd : v ≠ d := fun h => hv (Or.inl h)
    have hvu : v ≠ u := fun h => hv (Or.inr h)
    have hb := hbits v
    rw [← hs'] at hb ⊢
    refine ⟨Or.inl ?_, congrFun hk.msg v, hk.msgTask v hvd, hk.retTask v hvd,
      fun f => hb f hvu, congrFun hk.rouses.isHard v,
      fun _ => hk.rouses.awake v, rfl, rfl, Function.update_of_ne hvd _ _, rfl,
      Function.update_of_ne hvd _ _, fun _ _ => rfl⟩
    show Function.update k.pc d _ v = _
    rw [Function.update_of_ne hvd, hk.pc]
  · rintro v (rfl | rfl)
    · exact hcallerd
    · exact hcalleru
  · rintro v y (rfl | rfl) hy
    · have hy' : s'.receive v = some { x with stage := .sbytes u (.stack u) } := by
        rw [← hs']
        exact Function.update_self ..
      cases hy'.symm.trans hy
      refine .reads rfl (Or.inl hpcd) (t := u) (g := g) ?_
        ((hi.caller u).sized g hsent).1 hx.size hx.late hx.stored ?_
      · rw [← hs']
        exact Function.update_self ..
      · intro _ a ha
        cases ha
        refine ⟨hsentu, ?_, Or.inl ⟨rfl, hpcu', hmtu⟩⟩
        rw [← hs']
        exact (hi.caller u).held hr g hsent
    · -- the caller is in no receive
      rw [← hs'] at hy
      have hy : Function.update s.receive d _ v = some y := hy
      rw [Function.update_of_ne hne, hi.receive_none ?_ ?_] at hy
      · cases hy
      · exact fun ha => ha.ne_rpc hpcu
      · rw [hpcu]
        rintro ⟨⟩
  · rintro r t g' a hr (rfl | rfl) - - hp
    · exact absurd hpc hp.not_aside
    · exact absurd (hp.dest hpcu) fun h => hr (Or.inl h)

omit decS finT finS decB in
theorem LinkInv.awaits {x : Receive T B} {k : Kernel T S} {tk : Option (T × Sent B)}
    (hi : LinkInv L s) (hpc : Aside (s.kernel.pc c)) (hx : Fresh x)
    (hk : Awaits s.kernel c k) :
    LinkInv L (received L { s with taken := Function.update s.taken c tk } c x (k, none)) := by
  have hc := hi.caller c
  have hpc' : k.pc c = .receive none := by
    rw [hk.pc, Function.update_self]
  show LinkInv L (Xmsg.setReceive _ c (some x))
  generalize hs' : Xmsg.setReceive (T := T) (S := S) (B := B) _ _ _ = s'
  have hrec : s'.receive c = some x := by
    rw [← hs']
    exact Function.update_self ..
  have hker : s'.kernel = k := by rw [← hs']; rfl
  refine hi.spared (A := (· = c)) ?_ ?_ ?_ ?_ ?_ ?_
  · rw [hker]
    exact hk.receiver
  · rw [← hs']
    exact ⟨hi.delivers.sound, hi.delivers.faithful⟩
  · intro u hu
    rw [← hs']
    refine ⟨Or.inl ?_, congrFun hk.msg u, hk.msgTask u hu, ?_, ?_,
      congrFun hk.dozes.isHard u, fun hs ha => (hk.dozes.awake u hs ha).2, rfl, rfl,
      Function.update_of_ne hu _ _, rfl, Function.update_of_ne hu _ _,
      fun _ _ => rfl⟩
    · show k.pc u = _
      rw [hk.pc, Function.update_of_ne hu]
    · show k.retTask u = _
      rw [hk.retTask, Function.update_of_ne hu]
    · intro f hm hf
      exact (hk.bits u f hm hf).resolve_right fun h => hu h.1
  · rintro u rfl
    refine .of_receive (x := x) (by rw [hker]; exact hpc') hrec ?_ ?_ ?_
    · rw [← hs']
      exact hc.aside_sent hpc
    · rw [hker]
      intro f hm hf
      obtain hf | ⟨-, hf⟩ := hk.bits u f hm hf
      · exact absurd hm (Finset.disjoint_left.mp (hc.bare hpc) hf)
      · exact hf
    · rw [hker]
      intro hs ha
      exact absurd rfl (hk.dozes.awake u (hk.dozes.isHard ▸ hs) ha).1
  · rintro u y rfl hy
    cases hrec.symm.trans hy
    refine .waits hx (by rw [hker]; exact hpc') ?_
    rw [hker, hk.retTask, Function.update_self]
    exact nofun
  · rintro r t g a - rfl - - hp
    exact absurd hpc hp.not_aside

theorem receives_effect {k : Kernel T S} {r : Outcome T S} {op : Op T S} {src : Option T}
    (hop : op = .receive src ∨ op = .receiveIf src ∨ ∃ time, op = .receiveUntil src time)
    (hsend : ∀ t, .send ∉ k.state t) (hproxy : k.receiver = fun _ => none)
    (hret : k.retTask c = .null) (h : taskOp k c op = some r) :
    Receives k c src r := by
  obtain rfl | rfl | ⟨time, rfl⟩ := hop
  · exact rtReceive_effect hsend hproxy hret h
  · exact rtReceiveIf_effect hsend hproxy hret h
  · exact rtReceiveUntil_effect hsend hproxy hret h

theorem LinkInv.receives {op : Op T S} {src : Option T} {msg : Bool} {size : Int}
    (hi : LinkInv L s)
    (hop : op = .receive src ∨ op = .receiveIf src ∨ ∃ time, op = .receiveUntil src time)
    (hg : msg = true ∧ 0 ≤ size)
    (h : RtaiExtendedMsg.receives L s c src msg size op = some s') :
    LinkInv L s' := by
  simp only [RtaiExtendedMsg.receives] at h
  split at h
  · exact nomatch h
  obtain ⟨⟨k, o⟩, he, rfl⟩ := Option.map_eq_some_iff.mp h
  obtain ⟨hmay, ⟨k₁, o₁⟩, hr, hf⟩ := exec_call he
  have hpc := aside_of_mayCall hmay
  have hx : Fresh (⟨msg, size, .inside, none, [], false⟩ : Receive T B) :=
    ⟨rfl, hg.1, hg.2, rfl, rfl⟩
  have heff := receives_effect hop (fun t => (hi.caller t).noSend) hi.proxy
    ((hi.caller c).ret_null hpc.ne_receive) hr
  cases heff with
  | fails hv hk =>
    cases hf
    rw [received_none hv]
    exact hi.returned hpc hk rfl rfl rfl rfl rfl rfl
      (fun u hu => Function.update_of_ne hu _ _) (Function.update_self ..) rfl
      fun u hu => Function.update_of_ne hu _ _
  | takes hsrc hm hrpc hk =>
    cases hf
    exact LinkInv.takes hi hpc hx hsrc hm hrpc hk
  | waits hk =>
    cases hf
    exact LinkInv.awaits hi hpc hx hk

/-! ## Going on -/

theorem LinkInv.goOn (hi : LinkInv L s)
    (hg : ∀ r g, s.sent c = some g → s.taken r = some (c, g) → ¬ Unread s r)
    (h : RtaiExtendedMsg.goOn L s c = some s') : LinkInv L s' := by
  simp only [RtaiExtendedMsg.goOn] at h
  split at h
  · cases h
  next hdel =>
  obtain ⟨⟨k, o⟩, he, rfl⟩ := Option.map_eq_some_iff.mp h
  obtain ⟨hex, ⟨k₁, o₁⟩, hr, hf⟩ := exec_cont he
  have hc := hi.caller c
  have hbare := hc.executing hex
  have hfree : ∀ r g a, r ≠ c → Unread s r → s.taken r = some (c, g) → ¬ Points s r c g a := by
    intro r g a _ hu ht hp
    exact hg r g hp.1 ht hu
  have hbits : Settles c s.kernel k₁ → Disjoint (k₁.state c) messaging := by
    intro hk
    refine Finset.disjoint_left.mpr fun f hf hm => ?_
    exact Finset.disjoint_left.mp hbare (hk.bits c f hm hf) hm
  -- the end of a send or an rpc
  have hover : ∀ v, Settles c s.kernel k₁ → o₁ = some v →
      ¬ Aside (s.kernel.pc c) → s.kernel.pc c ≠ .receive none →
      s.receive c = none ∧
        LinkInv L (if o.isSome then { s with
            kernel := k
            mcb := Function.update s.mcb c none
            sent := Function.update s.sent c none }
          else { s with kernel := k }) := by
    intro v hk hv hpc hne
    subst hv
    cases hf
    have hnone := hi.receive_none hpc hne
    have hret : k₁.retTask c = .null := by
      obtain h | h := hk.retSelf
      · exact h
      · exact h.trans (hc.ret_null hne)
    refine ⟨hnone, hi.settled hk hret (hbits hk) rfl rfl rfl rfl rfl ?_
      (Function.update_self ..) ?_ hfree⟩
    · intro u hu
      exact ⟨Function.update_of_ne hu _ _, rfl, Function.update_of_ne hu _ _, rfl⟩
    · intro _ x hx
      cases hnone.symm.trans hx
  have hcont : contOp s.kernel c = some (k₁, o₁) := hr
  simp only [contOp] at hcont
  obtain hpc | ⟨d, hpc⟩ | ⟨d, hpc⟩ | hpc := hc.place
  · obtain hpc | hpc | hpc := hpc
    · rw [hpc] at hcont
      cases hcont
    · rw [hpc] at hcont
      cases hcont
    · exact absurd hpc hdel
  · rw [hpc] at hcont
    obtain ⟨hk, v, hv⟩ := rtRpcTail_settles hcont
    have hne : s.kernel.pc c ≠ .receive none := by
      rw [hpc]
      rintro ⟨⟩
    obtain ⟨hnone, hinv⟩ := hover v hk hv (fun ha => ha.ne_rpc hpc) hne
    rw [hnone]
    exact hinv
  · rw [hpc] at hcont
    obtain ⟨hk, v, hv⟩ := rtSendIfTail_settles hcont
    have hne : s.kernel.pc c ≠ .receive none := by
      rw [hpc]
      rintro ⟨⟩
    obtain ⟨hnone, hinv⟩ := hover v hk hv (fun ha => ha.ne_sendIf hpc) hne
    rw [hnone]
    exact hinv
  · rw [hpc] at hcont
    obtain ⟨hk, hnull, v, hv, hend⟩ := rtReceiveTail_effect hi.proxy hcont
    have hv : o₁ = some v := hv
    subst hv
    cases hf
    obtain ⟨x, hx⟩ := hc.inside hpc
    have hsent : s.sent c = none := by
      refine hc.no_call ?_ ?_
      · intro e he
        cases hpc.symm.trans he
      · intro e he
        cases hpc.symm.trans he
    simp only [hx]
    obtain hno | ⟨hret, t, hmt, rfl⟩ := hend
    · rw [received_none hno]
      refine hi.settled hk hnull (hbits hk) rfl rfl rfl rfl rfl ?_ hsent ?_ hfree
      · intro u hu
        exact ⟨rfl, Function.update_of_ne hu _ _, rfl, rfl⟩
      · intro _ y hy
        have hy : Function.update s.receive c none c = some y := hy
        rw [Function.update_self] at hy
        cases hy
    · cases hi.progress c x hx with
      | waits _ _ hn => exact absurd hret hn
      | reads _ ha _ _ _ _ _ _ => exact absurd hpc ha.ne_receive
      | handed hfr _ ht hsize hmt' hmsg hp =>
        cases hmt.symm.trans hmt'
        rw [hmsg, received_some hfr]
        refine hi.settled hk hnull (hbits hk) rfl rfl rfl rfl rfl ?_ hsent ?_ hfree
        · intro u hu
          exact ⟨rfl, Function.update_of_ne hu _ _, rfl, rfl⟩
        · intro hrests y hy
          have hy : Function.update s.receive c _ c = some y := hy
          rw [Function.update_self] at hy
          cases hy
          refine .reads rfl ?_ ht hsize hfr.size hfr.late hfr.stored ?_
          · refine Or.inl ?_
            show Function.update k₁.pc c _ c = _
            exact Function.update_self ..
          · intro _ a ha
            cases ha
            refine hp.kept (hrests t ?_) rfl
            rintro rfl
            exact hp.not_receive hpc

/-! ## Reading the message -/

omit decT decS finT finS decB in
/-- The block that is pointed to is there, and is that of the call. -/
theorem LinkInv.readMcb {a : McbAdr T} (hi : LinkInv L s)
    (hp : Points s c t g a) : ∃ m, readMcb s a = some m ∧ m.sbuf = g.buf ∧
      m.sbytes = g.size := by
  obtain ⟨hsent, -, ⟨rfl, hpc, -⟩ | ⟨rfl, -, hbuf, hsize⟩⟩ := hp
  · obtain ⟨m, g', hm, hg', hbuf, hsize⟩ := (hi.caller t).block c hpc
    cases hsent.symm.trans hg'
    exact ⟨m, hm, hbuf, hsize⟩
  · exact ⟨s.own c, rfl, hbuf, hsize⟩

omit decT decS finT finS decB in
/-- A receive that reads what is pointed to is not late. -/
theorem inCall_of_points {a : McbAdr T} (ht : s.taken c = some (t, g))
    (hp : Points s c t g a) : inCall s c = true := by
  simp only [inCall, ht, hp.1, decide_true]

omit decS finT finS decB in
/-- The receive of `c` goes on to `x`. -/
theorem LinkInv.advance {x : Receive T B} (hi : LinkInv L s)
    (hp : Progress L (s.setReceive c (some x)) c x) (hpc : Aside (s.kernel.pc c)) :
    LinkInv L (s.setReceive c (some x)) := by
  refine hi.spared (A := (· = c)) rfl ⟨hi.delivers.sound, hi.delivers.faithful⟩ ?_ ?_ ?_ ?_
  · intro u hu
    exact ⟨Or.inl rfl, rfl, rfl, rfl, fun _ _ h => h, rfl, fun _ h => Or.inl h, rfl,
      rfl, Function.update_of_ne hu _ _, rfl, rfl, fun _ _ => rfl⟩
  · rintro u rfl
    have hc := hi.caller u
    exact .of_aside hpc (hc.aside_sent hpc) (hc.ret_null hpc.ne_receive) (hc.bare hpc)
  · rintro u y rfl hy
    have hy : Function.update s.receive u (some x) u = some y := hy
    rw [Function.update_self] at hy
    cases hy
    exact hp
  · rintro r t g a - rfl - - hp
    exact absurd hpc hp.not_aside

omit decS finT finS decB in
/-- The receive of `c` is over. -/
theorem LinkInv.receipt {x : Receive T B} (hi : LinkInv L s) (hpc : Aside (s.kernel.pc c))
    (hr : Receipt.Faithful ⟨t, x.size, x.len, x.stored, x.late, s.taken c⟩) :
    LinkInv L (receiptOf s c t x) := by
  refine hi.spared (A := (· = c)) rfl ⟨hi.delivers.sound, ?_⟩ ?_ ?_ ?_ ?_
  · intro r hm
    obtain rfl | hm := List.mem_cons.mp hm
    · exact hr
    · exact hi.delivers.faithful r hm
  · intro u hu
    exact ⟨Or.inl rfl, rfl, rfl, rfl, fun _ _ h => h, rfl, fun _ h => Or.inl h, rfl,
      rfl, Function.update_of_ne hu _ _, rfl, rfl, fun _ _ => rfl⟩
  · rintro u rfl
    have hc := hi.caller u
    exact .of_aside hpc (hc.aside_sent hpc) (hc.ret_null hpc.ne_receive) (hc.bare hpc)
  · rintro u y rfl hy
    have hy : Function.update s.receive u none u = some y := hy
    rw [Function.update_self] at hy
    exact nomatch hy
  · rintro r t g a - rfl - - hp
    exact absurd hpc hp.not_aside

omit decS finT finS decB in
/-- The result is given to a task whose message is not being read. -/
theorem LinkInv.answered {k : Kernel T S} {w : Word} (hi : LinkInv L s)
    (ha : answerable s.kernel c d) (hk : Returns s.kernel d w k)
    (hread : ¬ Unread s c) : LinkInv L { s with kernel := k } := by
  obtain ⟨-, hret, hmt⟩ := ha
  have hd := hi.caller d
  obtain ⟨e, hpc, -, hmt'⟩ := hd.calls (Or.inr hret)
  have hec : e = c := by
    cases hmt.symm.trans hmt'
    rfl
  subst hec
  have hnrpc : .rpc ∉ k.state d := fun hf =>
    hd.once (hk.bits d _ (by decide) hf).1 hret
  have hnret : .ret ∉ k.state d := fun hf =>
    (hk.bits d _ (by decide) hf).2 ⟨rfl, rfl⟩
  refine hi.spared (A := (· = d)) hk.receiver
    ⟨hi.delivers.sound, hi.delivers.faithful⟩ ?_ ?_ ?_ ?_
  · intro u hu
    refine ⟨Or.inl (congrFun hk.pc u), ?_, ?_, congrFun hk.retTask u,
      fun f hm hf => (hk.bits u f hm hf).1, congrFun hk.rouses.isHard u,
      fun _ => hk.rouses.awake u, rfl, rfl, rfl, rfl, rfl, fun _ _ => rfl⟩
    · show k.msg u = _
      rw [hk.msg, Function.update_of_ne hu]
    · show k.msgTask u = _
      rw [hk.msgTask, Function.update_of_ne hu]
  · rintro u rfl
    have hpc' : k.pc u = .rpc e := (congrFun hk.pc u).trans hpc
    constructor
    · exact fun hf => hd.noSend (hk.bits u _ (by decide) hf).1
    · exact Or.inr (Or.inl ⟨e, hpc'⟩)
    · intro f hf
      exact hd.block e hpc
    · intro g hg
      exact ⟨(hd.sized g hg).1, Or.inl ⟨e, hpc'⟩⟩
    · intro hf
      exact hf.elim (fun h => absurd h hnrpc) fun h => absurd h hnret
    · intro hf
      exact absurd hf hnrpc
    · intro hf
      exact absurd hf hnrpc
    · intro hf
      exact nomatch hpc.symm.trans (hd.waits (hk.bits u _ (by decide) hf).1)
    · intro hs hw
      have hs : s.kernel.isHard u = false :=
        (congrFun hk.rouses.isHard u).symm.trans hs
      obtain hw | hdis := hk.rouses.awake u hw
      · refine Finset.disjoint_left.mpr fun f hf hm => ?_
        exact Finset.disjoint_left.mp (hd.awake hs hw) (hk.bits u f hm hf).1 hm
      · exact hdis
    · intro hn
      have hn : k.retTask u ≠ .null := hn
      rw [hk.retTask] at hn
      exact nomatch hpc.symm.trans (hd.retTask hn)
    · intro hp
      exact nomatch hpc'.symm.trans hp
  · rintro u x rfl hx
    have hne : s.kernel.pc u ≠ .receive none := by
      rw [hpc]
      exact nofun
    exact nomatch (hi.receive_none (fun ha => ha.ne_rpc hpc) hne).symm.trans hx
  · rintro r t g a - rfl hu - hp
    exact absurd (hp.dest hpc ▸ hu) hread

omit decB in
/-- One byte more of what was sent. -/
theorem firstBytes_succ (g : Sent B) (n : Nat) :
    g.firstBytes (n + 1 : Nat) = g.firstBytes n ++ [g.bytes n] := by
  simp only [Sent.firstBytes, Int.toNat_natCast, List.range_succ, List.map_append,
    List.map_cons, List.map_nil]

/-- **THE RECEIVER READS** the block and the buffer of a call in progress. -/
theorem LinkInv.doRcvMsg (hi : LinkInv L s)
    (h : RtaiExtendedMsg.doRcvMsg s c = some s') : LinkInv L s' := by
  simp only [RtaiExtendedMsg.doRcvMsg] at h
  split at h
  · cases h
  cases hx : s.receive c with
  | none =>
    rw [hx] at h
    cases h
  | some x =>
  rw [hx] at h
  simp only at h
  obtain ⟨msg, size, stage, len, stored, late⟩ := x
  cases hi.progress c _ hx with
  | waits hf _ _ =>
    cases hf.stage
    cases h
  | handed hf _ _ _ _ _ _ =>
    cases hf.stage
    cases h
  | @reads t g hsrc hpc ht hg hsize hlate hrd hp =>
  have hlate : late = false := hlate
  subst hlate
  have hun : Unread s c ↔ (match stage with
      | .inside => True
      | .sbytes _ _ => True
      | .sbuf _ _ _ => True
      | .copy _ mcb _ len => stored.length < len ∨ mcb.onStack = true
      | .test _ mcb => mcb.onStack = true
      | .answer _ => False) := by
    simp only [Unread, hx]
    cases stage <;> exact Iff.rfl
  cases stage with
  | inside => cases h
  -- the length is the smaller of the two sizes
  | sbytes src mcb =>
    cases hsrc
    have hpt := hp (hun.mpr trivial) mcb rfl
    obtain ⟨m, hm, -, hsb⟩ := LinkInv.readMcb hi hpt
    have hmin : (if size ≤ m.sbytes then size else m.sbytes) = min size g.size := by
      rw [hsb]
      exact (min_def size g.size).symm
    have hstored : stored = [] := hrd
    simp only [hm, inCall_of_points ht hpt, hmin] at h
    cases h
    refine LinkInv.advance hi (.reads (t := t) (g := g) ?_ hpc ht hg hsize ?_ ?_ ?_) hpc
    · split
      · rfl
      · rfl
    · simp only [Bool.not_true, Bool.and_false, Bool.or_false]
    · split
      · exact ⟨hstored, rfl, rfl⟩
      · next hz =>
        rw [not_not] at hz
        refine ⟨rfl, ?_⟩
        show stored = g.firstBytes (min size g.size)
        rw [hz, hstored]
        rfl
    · intro _ a ha
      have ha : a = mcb := by
        split at ha
        · cases ha
          rfl
        · cases ha
          rfl
      exact ha ▸ hpt
  | sbuf src mcb n =>
    cases hsrc
    have hpt := hp (hun.mpr trivial) mcb rfl
    obtain ⟨m, hm, hsb, -⟩ := LinkInv.readMcb hi hpt
    obtain ⟨hstored, hlen, hn⟩ : stored = [] ∧ len = some n ∧ n = min size g.size := hrd
    have hsize : 0 ≤ size := hsize
    have hneg : ¬ n < 0 := by
      rw [hn, not_lt]
      exact le_min hsize hg
    simp only [hm, inCall_of_points ht hpt, if_neg hneg] at h
    cases h
    refine LinkInv.advance hi (.reads (t := t) (g := g) rfl hpc ht hg hsize ?_ ?_ ?_) hpc
    · simp only [Bool.not_true, Bool.and_false, Bool.or_false]
    · refine ⟨hsb, hn ▸ hlen, by rw [hn], ?_, ?_⟩
      · rw [hstored]
        exact Nat.zero_le _
      · rw [hstored]
        rfl
    · intro _ a ha
      cases ha
      exact hpt
  -- the buffer is read byte by byte
  | copy src mcb b n =>
    cases hsrc
    obtain ⟨hb, hlen, hn, hle, hstored⟩ : b = g.buf ∧
      len = some (min size g.size) ∧ n = (min size g.size).toNat ∧
      stored.length ≤ n ∧ stored = g.firstBytes stored.length := hrd
    dsimp only at h
    split at h
    · next hlt =>
      have hpt := hp (hun.mpr (Or.inl hlt)) mcb rfl
      simp only [inCall_of_points ht hpt] at h
      cases h
      refine LinkInv.advance hi (.reads (t := t) (g := g) rfl hpc ht hg hsize ?_ ?_ ?_) hpc
      · simp only [Bool.not_true, Bool.or_false]
      · refine ⟨hb, hlen, hn, ?_, ?_⟩
        · rw [List.length_append]
          exact hlt
        · show stored ++ [s.buf b stored.length] =
            g.firstBytes (stored ++ [s.buf b stored.length]).length
          rw [List.length_append, List.length_singleton, firstBytes_succ, ← hstored,
            hb, hpt.2.1]
      · intro _ a ha
        cases ha
        exact hpt
    · next hge =>
      cases h
      refine LinkInv.advance hi (.reads (t := t) (g := g) rfl hpc ht hg hsize rfl ?_ ?_) hpc
      · refine ⟨hlen, ?_⟩
        have hnat : g.firstBytes stored.length = g.firstBytes (min size g.size) := by
          simp only [Sent.firstBytes, Int.toNat_natCast]
          rw [show stored.length = (min size g.size).toNat by omega]
        exact hstored.trans hnat
      · intro hu a ha
        have hmcb : mcb.onStack = true := by
          simp only [Unread, Xmsg.setReceive, Function.update_self] at hu
          exact hu
        exact hp (hun.mpr (Or.inr hmcb)) a ha
  -- the block of a `rt_sendx` is answered at once
  | test src mcb =>
    cases hsrc
    obtain ⟨hlen, hstored⟩ : len = some (min size g.size) ∧
      stored = g.firstBytes (min size g.size) := hrd
    have hread : ∃ m, RtaiExtendedMsg.readMcb s mcb = some m ∧
        (mcb.onStack && !inCall s c) = false := by
      cases mcb with
      | own u => exact ⟨s.own u, rfl, rfl⟩
      | stack u =>
        have hpt := hp (hun.mpr rfl) _ rfl
        obtain ⟨m, hm, -⟩ := LinkInv.readMcb hi hpt
        refine ⟨m, hm, ?_⟩
        rw [inCall_of_points ht hpt]
        rfl
    obtain ⟨m, hm, hin⟩ := hread
    simp only [hm, hin, Bool.or_false] at h
    split at h
    · cases h
      refine LinkInv.advance hi
        (.reads (t := t) (g := g) rfl hpc ht hg hsize rfl ⟨hlen, hstored⟩ ?_) hpc
      intro _ a ha
      cases ha
    · cases h
      exact LinkInv.receipt hi hpc ⟨g, ht, le_min hsize hg, hlen, hstored, rfl⟩
  | answer src =>
    cases hsrc
    obtain ⟨hlen, hstored⟩ : len = some (min size g.size) ∧
      stored = g.firstBytes (min size g.size) := hrd
    obtain ⟨r, hr, rfl⟩ := Option.map_eq_some_iff.mp h
    have hfaith : ∀ k : Kernel T S, Receipt.Faithful
        ⟨t, size, len, stored, false, ({ s with kernel := k }).taken c⟩ :=
      fun _ => ⟨g, ht, le_min hsize hg, hlen, hstored, rfl⟩
    obtain ⟨-, ⟨-, hk⟩ | ⟨ha, hk⟩⟩ := rtReturn_effect hr
    · rw [hk]
      exact LinkInv.receipt hi hpc (hfaith s.kernel)
    · have hi₁ := LinkInv.answered hi ha hk fun hu => hun.mp hu
      refine LinkInv.receipt hi₁ ?_ (hfaith r.1)
      show Aside (r.1.pc c)
      rw [hk.pc]
      exact hpc

/-! ## Returns, and the others -/

omit decT decS finT finS in
/-- A buffer is written that no receive has still to read. -/
theorem LinkInv.wrote {b : B} {bytes : Nat → UInt8} (hi : LinkInv L s)
    (hfree : ∀ t g, s.sent t = some g → g.buf = b → .rpc ∉ s.kernel.state t ∧
      ∀ r a, Unread s r → ¬ Points s r t g a) :
    LinkInv L { s with buf := Function.update s.buf b bytes } := by
  refine hi.spared (A := fun t => ∃ g, s.sent t = some g ∧ g.buf = b) rfl
    ⟨hi.delivers.sound, hi.delivers.faithful⟩ ?_ ?_ ?_ ?_
  · intro u hu
    refine ⟨Or.inl rfl, rfl, rfl, rfl, fun _ _ h => h, rfl, fun _ h => Or.inl h, rfl,
      rfl, rfl, rfl, rfl, ?_⟩
    intro g hg
    exact Function.update_of_ne (fun h => hu ⟨g, hg, h⟩) _ _
  · rintro u ⟨g, hg, hb⟩
    have hc := hi.caller u
    exact ⟨hc.noSend, hc.place, hc.block, hc.sized, hc.calls,
      fun hf => absurd hf (hfree u g hg hb).1, hc.once, hc.waits, hc.awake,
      hc.retTask, hc.inside⟩
  · rintro u x ⟨g, hg, hb⟩ hx
    -- who is in a send or an rpc is in no receive
    have hx : s.receive u = some x := hx
    obtain ⟨-, hpc⟩ := (hi.caller u).sized g hg
    have hnone : s.receive u = none := by
      obtain ⟨d, hpc⟩ | ⟨d, hpc⟩ := hpc
      · refine hi.receive_none (fun ha => ha.ne_rpc hpc) ?_
        rw [hpc]
        exact nofun
      · refine hi.receive_none (fun ha => ha.ne_sendIf hpc) ?_
        rw [hpc]
        exact nofun
    exact nomatch hnone.symm.trans hx
  · rintro r t g a - ⟨g', hg', hb⟩ hu - hp
    cases hp.1.symm.trans hg'
    exact absurd hp ((hfree t g hg' hb).2 r a hu)

theorem LinkInv.returnx {msg : Option (Nat → UInt8)} {size : Int} (hi : LinkInv L s)
    (hg : ∀ m b t g, s.mcb d = some m → m.rbuf = some b → t ≠ d →
      s.sent t = some g → g.buf ≠ b)
    (h : rtReturnx L s c d msg size = some s') : LinkInv L s' := by
  simp only [rtReturnx] at h
  split at h
  · exact nomatch h
  next hrec =>
  rw [Bool.not_eq_true, Option.isSome_eq_false_iff, Option.isNone_iff_eq_none] at hrec
  obtain ⟨⟨k, o⟩, he, h⟩ := Option.bind_eq_some_iff.mp h
  obtain ⟨hmay, ⟨k₁, o₁⟩, hr, hf⟩ := exec_call he
  have hpc := aside_of_mayCall hmay
  have hno : ∀ r, s.receive r = none → ¬ Unread s r := by
    intro r hr hu
    simp only [Unread, hr] at hu
  obtain ⟨⟨v, hv⟩, heff⟩ := rtReturn_effect (by exact hr)
  have hv : o₁ = some v := hv
  subst hv
  cases hf
  -- the call itself, whatever the buffers hold
  have hcall : ∀ s₁ : Xmsg T S B, LinkInv L s₁ → s₁.kernel = s.kernel →
      s₁.receive c = none → LinkInv L { s₁ with
        kernel := { k₁ with pc := Function.update k₁.pc c .idle } } := by
    intro s₁ hi₁ hker hrec₁
    obtain ⟨-, hk⟩ | ⟨ha, hk⟩ := heff
    · have hk : k₁ = s.kernel := hk
      subst hk
      exact hi₁.returned (c := c) (hker ▸ hpc) (.of_calm (hker ▸ Calm.refl _)) rfl rfl
        rfl rfl rfl rfl (fun _ _ => rfl) hrec₁ rfl fun _ _ => rfl
    · have hun : ¬ Unread s₁ c := by
        intro hu
        simp only [Unread, hrec₁] at hu
      have hi₂ := LinkInv.answered hi₁ (hker ▸ ha) (hker ▸ hk) hun
      refine hi₂.returned (c := c) ?_ (.of_calm (Calm.refl _)) rfl rfl rfl rfl rfl rfl
        (fun _ _ => rfl) hrec₁ rfl fun _ _ => rfl
      show Aside (k₁.pc c)
      rw [hk.pc]
      exact hpc
  split at h
  · next ha =>
    simp only [Bool.and_eq_true, decide_eq_true_eq] at ha
    obtain ⟨⟨-, hret⟩, hmt⟩ := ha
    obtain ⟨e, hpcd, hmsg, hmt'⟩ := (hi.caller d).calls (Or.inr hret)
    obtain ⟨m, g, hmcb, -, -, -⟩ := (hi.caller d).block e hpcd
    have hec : e = c := by
      cases hmt.symm.trans hmt'
      rfl
    subst hec
    simp only [hmsg, L.mcbAt_adr, Option.bind_some, RtaiExtendedMsg.readMcb, hmcb] at h
    generalize (if m.rbytes < size then m.rbytes else size) = n at h
    cases msg with
    | none =>
      cases h
      exact hcall s hi rfl hrec
    | some bytes =>
      simp only at h
      split at h
      · obtain ⟨b, hb, h⟩ := Option.bind_eq_some_iff.mp h
        cases h
        refine hcall { s with
          buf := Function.update s.buf b (overwrite bytes n.toNat (s.buf b)) }
          (LinkInv.wrote hi ?_) rfl hrec
        intro t g' ht hbuf
        by_cases htd : t = d
        · subst htd
          refine ⟨fun hf => (hi.caller t).once hf hret, ?_⟩
          intro r a hu hp
          exact hno e hrec (hp.dest hpcd ▸ hu)
        · exact absurd hbuf (hg m b t g' hmcb hb htd ht)
      · cases h
        exact hcall s hi rfl hrec
  · cases h
    exact hcall s hi rfl hrec

omit decB in
/-- A service that is about no message. -/
theorem LinkInv.sched {k : Kernel T S} {a : Action T S} {o : Option (Ret T)}
    (hi : LinkInv L s) (ha : delays s.kernel a = true)
    (h : exec s.kernel a = some (k, o)) : LinkInv L { s with kernel := k } := by
  have hd := exec_delays ha h
  have hm := Delays.messages hd
  refine hi.spared (A := fun _ => False) hm.receiver
    ⟨hi.delivers.sound, hi.delivers.faithful⟩ ?_ ?_ ?_ ?_
  · intro u _
    exact ⟨Delays.aside hd u, congrFun hm.msg u, congrFun hm.msgTask u,
      congrFun hm.retTask u, hm.bits u, congrFun hm.rouses.isHard u,
      fun _ => hm.rouses.awake u, rfl, rfl, rfl, rfl, rfl, fun _ _ => rfl⟩
  · exact fun _ hu => hu.elim
  · exact fun _ _ hu => hu.elim
  · exact fun _ _ _ _ _ ht => ht.elim

/-! ## Runs -/

theorem LinkInv.step {a : XAction T S B} {o : Unit} (hi : LinkInv L s)
    (hg : Heeds s a) (h : xstep L s a = some (s', o)) : LinkInv L s' := by
  simp only [xstep] at h
  split at h
  · exact nomatch h
  obtain ⟨s₁, h₁, hs'⟩ := Option.map_eq_some_iff.mp h
  cases hs'
  cases a with
  | sendx c dest msg size => exact LinkInv.post hi (Or.inl rfl) (by exact hg) h₁
  | sendxIf c dest msg size => exact LinkInv.sendxIf hi hg h₁
  | sendxUntil c dest msg size time =>
    exact LinkInv.post hi (Or.inr ⟨time, rfl⟩) (by exact hg) h₁
  | rpcx c dest smsg rmsg ssize rsize =>
    exact LinkInv.post hi (Or.inl rfl) (by exact hg) h₁
  | rpcxUntil c dest smsg rmsg ssize rsize time =>
    exact LinkInv.post hi (Or.inr ⟨time, rfl⟩) (by exact hg) h₁
  | receivex c src msg size => exact LinkInv.receives hi (Or.inl rfl) hg h₁
  | receivexIf c src msg size => exact LinkInv.receives hi (Or.inr (Or.inl rfl)) hg h₁
  | receivexUntil c src msg size time =>
    exact LinkInv.receives hi (Or.inr (Or.inr ⟨time, rfl⟩)) hg h₁
  | returnx c dest msg size => exact LinkInv.returnx hi hg h₁
  | goOn c => exact LinkInv.goOn hi hg h₁
  | doRcvMsg c => exact LinkInv.doRcvMsg hi h₁
  | sched a =>
    simp only at h₁
    split at h₁
    · next ha =>
      rw [Bool.and_eq_true] at ha
      obtain ⟨⟨k, o⟩, he, rfl⟩ := Option.map_eq_some_iff.mp h₁
      exact LinkInv.sched hi ha.1 he
    · exact nomatch h₁
  | write b bytes =>
    cases h₁
    exact LinkInv.wrote hi fun t g ht hb => absurd hb (hg t g ht)

omit decT decS finT finS decB in
theorem linkInv_fresh (cfg : Config T S) (buf : B → Nat → UInt8) (own : T → Mcb B) :
    LinkInv L (fresh cfg buf own) where
  proxy := rfl
  delivers := ⟨rfl, nofun⟩
  caller := by
    intro t
    refine .of_aside (Or.inl rfl) rfl rfl ?_
    show Disjoint (if _ then _ else _ : TaskState) messaging
    split
    · decide
    · decide
  progress := nofun

/-- **EXTENDED MESSAGES DELIVER WHAT WAS SENT** as long as sizes are not
    negative, receives have somewhere to store the message, no send or rpc
    returns before its message, once taken, has been read, and nobody writes
    the buffer of a call in progress. -/
theorem extended_messages_delivered (L : Layout T) (cfg : Config T S)
    (buf : B → Nat → UInt8) (own : T → Mcb B) {s : Xmsg T S B}
    (h : Reach (xstep L) Heeds (fresh cfg buf own) s) : Delivers s :=
  (h.invariant (linkInv_fresh (L := L) cfg buf own)
    fun _ _ _ _ hi hg hs => LinkInv.step hi hg hs).delivers

/-! ## Two tasks -/

/-- A receiver and a sender, both hard. -/
def receiverAndSender : Config (Fin 2) (Fin 0) where
  hard := fun _ => true
  priority := fun _ => 0
  receiver := fun _ => none
  schedlat := fun _ => 0
  linuxSchedlat := 0
  sems := nofun
  time := 0

/-- The blocks of two tasks. -/
def twoStacks : Layout (Fin 2) where
  adr
    | .stack 0 => 1
    | .stack 1 => 2
    | .own 0 => 3
    | .own 1 => 4
  mcbAt w :=
    if w = 1 then some (.stack 0) else if w = 2 then some (.stack 1)
    else if w = 3 then some (.own 0) else if w = 4 then some (.own 1) else none
  mcbAt_adr := by
    intro a
    cases a with
    | stack t => fin_cases t <;> rfl
    | own t => fin_cases t <;> rfl

/-- One buffer, which holds fives. -/
def fives : Xmsg (Fin 2) (Fin 0) Unit :=
  fresh receiverAndSender (fun _ _ => 5) fun _ => ⟨(), 0, none, 0⟩

/-- The receiver waits for two bytes, and the sender runs. -/
def waitingRun : List (XAction (Fin 2) (Fin 0) Unit) :=
  [.sched (.linux (.resume 0)), .sched (.dispatch 0), .receivex 0 none true 2,
    .sched (.linux (.resume 1)), .sched (.dispatch 1)]

/-- The receiver goes on, and reads the message. -/
def readingRun : List (XAction (Fin 2) (Fin 0) Unit) :=
  [.goOn 0, .doRcvMsg 0, .doRcvMsg 0, .doRcvMsg 0, .doRcvMsg 0, .doRcvMsg 0, .doRcvMsg 0]

/-- `Heeds` for runs with plain `rt_sendx`, all of whose senders wait. -/
def Waits (s : Xmsg (Fin 2) (Fin 0) Unit) : XAction (Fin 2) (Fin 0) Unit → Prop
  | .sendx _ _ _ size => 0 ≤ size
  | .receivex _ _ msg size => msg = true ∧ 0 ≤ size
  | .goOn c => (s.sent c).isNone = true
  | .doRcvMsg _ => True
  | .sched _ => True
  | _ => False

instance (s : Xmsg (Fin 2) (Fin 0) Unit) (a : XAction (Fin 2) (Fin 0) Unit) :
    Decidable (Waits s a) := by
  cases a <;> simp only [Waits] <;> infer_instance

theorem Waits.heeds {s : Xmsg (Fin 2) (Fin 0) Unit}
    {a : XAction (Fin 2) (Fin 0) Unit} (h : Waits s a) : Heeds s a := by
  cases a with
  | sendx c dest msg size => exact h
  | receivex c src msg size => exact h
  | goOn c =>
    intro r g hg
    have h : (s.sent c).isNone = true := h
    rw [hg] at h
    exact nomatch h
  | doRcvMsg c => trivial
  | sched a => trivial
  | _ => exact h.elim

theorem extended_messages_delivered_sendx : ∃ s : Xmsg (Fin 2) (Fin 0) Unit,
      (∃ r ∈ s.receipts, r.stored = [5, 5]) ∧ Delivers s := by
  obtain ⟨s, hplay, hr⟩ : ∃ s, play (xstep twoStacks) Waits fives
      (waitingRun ++ .sendx 1 0 () 2 :: readingRun ++ [.doRcvMsg 0]) = some s ∧
      s.receipts.map (·.stored) = [[5, 5]] := ⟨_, rfl, rfl⟩
  refine ⟨s, List.mem_map.mp (by rw [hr]; exact List.mem_singleton_self _), ?_⟩
  exact extended_messages_delivered twoStacks receiverAndSender _ _
    ((reach_of_play hplay).mono fun _ _ => Waits.heeds)

/-- **`rt_sendx_if` DOES NOT WAIT**: its message has yet to be read when it
    returns, and the sender writes its buffer. -/
theorem sendx_if_overtaken : ∃ s : Xmsg (Fin 2) (Fin 0) Unit,
    Reach (xstep twoStacks) (fun _ _ => True) fives s ∧ ¬ Delivers s := by
  obtain ⟨s, hplay, hr⟩ : ∃ s, play (xstep twoStacks) (fun _ _ => True) fives
      (waitingRun ++ .sendxIf 1 0 () 2 :: .goOn 1 :: .write () (fun _ => 9) ::
        readingRun) = some s ∧
      s.receipts.map (fun r => (r.stored, r.late)) = [([9, 9], true)] :=
    ⟨_, rfl, rfl⟩
  refine ⟨s, reach_of_play hplay, fun hd => ?_⟩
  have hmem : (([9, 9] : List UInt8), true) ∈
      s.receipts.map (fun r => (r.stored, r.late)) := by
    rw [hr]
    exact List.mem_singleton_self _
  obtain ⟨r, hm, he⟩ := List.mem_map.mp hmem
  obtain ⟨g, -, -, -, -, hlate⟩ := hd.faithful r hm
  cases hlate.symm.trans (congrArg Prod.snd he)

end RtaiExtendedDelivery
