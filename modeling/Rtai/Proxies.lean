import Rtai.Steps
import Rtai.Frames
import Rtai.ListFrames

/-! # Proxies

    A proxy is a task that sends its message by `rt_rpc` once for every
    `rt_trigger`.  `rt_trigger` is two sections, the increment of `nmsgs` and
    `rt_task_resume`; `proxy_task` tests `nmsgs`, decrements it, calls
    `rt_rpc`, and suspends itself when there is nothing to send.  The sections
    of the scheduler, and those of the receivers, are those of the kernel. -/

namespace RtaiProxies

open RtaiRings RtaiRuns RtaiKernel RtaiSchedCore RtaiPrioInher
  RtaiTaskApi RtaiSched RtaiMsg RtaiSteps RtaiListFrames

/-- Where `proxy_task` stands. -/
inductive Place where
  /-- `while (my->nmsgs)` -/
  | test
  /-- `atomic_dec` -/
  | dec
  /-- `rt_rpc` -/
  | rpc
  | calling
  /-- `rt_task_suspend(me)` -/
  | suspend
  | suspending
  deriving DecidableEq

/-- A proxy, its counter and its triggers. -/
structure Proxied (T S : Type) where
  kernel : Kernel T S
  /-- `my->nmsgs` -/
  nmsgs : Int
  place : Place
  /-- The calls of `rt_trigger` between the increment and `rt_task_resume`.
      `none` stands for the Linux task and the interrupt handlers. -/
  raised : Option T → Nat
  /-- The increments, and the calls of `rt_rpc`, since the attach. -/
  increments : Nat
  rpcs : Nat

/-- The sections. -/
inductive ProxyAction (T S : Type) where
  | increment (c : Option T)
  | resume (c : Option T)
  | proxyTask
  /-- A section of a receiver or of the scheduler. -/
  | act (a : Action T S)

/-- `atomic_inc` and `atomic_dec` on an `int`. -/
def atomicInc (n : Int) : Int := (n + 1).bmod (2 ^ 32)

/-- `atomic_dec`. -/
def atomicDec (n : Int) : Int := (n - 1).bmod (2 ^ 32)

section Model

variable {T S : Type} [decT : DecidableEq T] [decS : DecidableEq S] [finT : Fintype T]
  [finS : Fintype S]

/-- `rt_receive`, `rt_receive_if` and `rt_return`. -/
def answers : Op T S → Bool
  | .receive _ => true
  | .receiveIf _ => true
  | .ret _ _ => true
  | _ => false

/-- In one of them. -/
def answering : Pc T S → Bool
  | .receive _ => true
  | .receiveIf _ => true
  | .proxyReturn _ _ => true
  | _ => false

/-- The steps of others that leave the proxy alone. -/
def others (p : T) (x : Proxied T S) : Action T S → Bool
  | .call c op => c ≠ p && x.raised (some c) = 0 && answers op
  | .cont c => c ≠ p && answering (x.kernel.pc c)
  | .linux _ => false
  | .wake _ => false
  | _ => true

/-- The caller may begin an `rt_trigger`. -/
def mayTrigger (p : T) (x : Proxied T S) : Option T → Bool
  | none => true
  | some c => c ≠ p && x.raised (some c) = 0 && mayCall x.kernel c

/-- `rt_task_resume(proxy)` -/
def resumes (p : T) : Option T → Action T S
  | none => .linux (.resume p)
  | some c => .call c (.resume p)

/-- A call of the proxy ends, or goes on at `place`. -/
def goes (x : Proxied T S) (place : Place) (r : Outcome T S) : Proxied T S × Option (Ret T) :=
  ({ x with kernel := r.1, place := if r.2.isSome then .test else place }, r.2)

/-- The next section of `proxy_task`; `toDo` is the message. -/
def proxyTask (p : T) (toDo : Word) (x : Proxied T S) :
    Option (Proxied T S × Option (Ret T)) :=
  match x.place with
  | .test =>
    if mayCall x.kernel p then
      some ({ x with place := if x.nmsgs ≠ 0 then .dec else .suspend }, none)
    else none
  | .dec =>
    if mayCall x.kernel p then
      some ({ x with
        nmsgs := atomicDec x.nmsgs
        place := .rpc }, none)
    else none
  | .rpc =>
    match x.kernel.receiver p with
    | none => none
    | some r =>
      (exec x.kernel (.call p (.rpc r toDo))).map (goes { x with rpcs := x.rpcs + 1 } .calling)
  | .calling => (exec x.kernel (.cont p)).map (goes x .calling)
  | .suspend => (exec x.kernel (.call p (.suspend p))).map (goes x .suspending)
  | .suspending => (exec x.kernel (.cont p)).map (goes x .suspending)

/-- One section. -/
def proxyStep (p : T) (toDo : Word) (x : Proxied T S) :
    ProxyAction T S → Option (Proxied T S × Option (Ret T))
  | .increment c =>
    if mayTrigger p x c then
      some ({ x with
        nmsgs := atomicInc x.nmsgs
        raised := Function.update x.raised c (x.raised c + 1)
        increments := x.increments + 1 }, none)
    else none
  | .resume c =>
    if x.raised c = 0 then none
    else
      (exec x.kernel (resumes p c)).map fun r =>
        ({ x with
          kernel := r.1
          raised := Function.update x.raised c (x.raised c - 1) }, r.2)
  | .proxyTask => proxyTask p toDo x
  | .act a =>
    if others p x a then
      (exec x.kernel a).map fun r => ({ x with kernel := r.1 }, r.2)
    else none

/-- `__rt_proxy_attach` has created the proxy. -/
def attached (cfg : Config T S) : Proxied T S where
  kernel := boot cfg
  nmsgs := 0
  place := .test
  raised := fun _ => 0
  increments := 0
  rpcs := 0

/-! ## The property -/

/-- The proxy is suspended in its own `rt_task_suspend`. -/
def Dormant (p : T) (x : Proxied T S) : Prop :=
  x.place = .suspending ∧ .suspended ∈ x.kernel.state p

/-- **Triggers are conserved**: every increment is in `nmsgs`, has been made into
    a call of `rt_rpc`, or has just been taken off `nmsgs` for the next one; a
    proxy that sleeps has nothing to send. -/
structure Conserved (p : T) (x : Proxied T S) : Prop where
  nonneg : 0 ≤ x.nmsgs
  balance : x.rpcs + x.nmsgs + (if x.place = .rpc then 1 else 0) = x.increments
  drained : Dormant p x → (∀ c, x.raised c = 0) → x.nmsgs = 0

/-- The counters stay within an `int`. -/
def InRange (p : T) (x : Proxied T S) : ProxyAction T S → Prop
  | .increment _ => x.nmsgs < 2 ^ 31 - 1
  | .resume _ => -2 ^ 31 < x.kernel.suspdepth p
  | _ => True

end Model

/-! ## Sections that suspend and resume nobody -/

/-- What is about suspending and about the calls of other tasks stays. -/
structure Steady {T S : Type} (k k' : Kernel T S) : Prop where
  isHard : k'.isHard = k.isHard
  magic : k'.magic = k.magic
  suspdepth : k'.suspdepth = k.suspdepth
  receiver : k'.receiver = k.receiver
  resq : k'.resq = k.resq
  pc : k'.pc = k.pc
  suspended : ∀ u, .suspended ∈ k'.state u ↔ .suspended ∈ k.state u

section Frames

variable {T S : Type} [decT : DecidableEq T] [decS : DecidableEq S] [finT : Fintype T]
  [finS : Fintype S] {k k' k₁ k₂ : Kernel T S} {c t u : T}

omit decT decS finT finS in
theorem Steady.refl (k : Kernel T S) : Steady k k :=
  ⟨rfl, rfl, rfl, rfl, rfl, rfl, fun _ => Iff.rfl⟩

omit decT decS finT finS in
theorem Steady.trans (h : Steady k k₁) (h' : Steady k₁ k₂) : Steady k k₂ where
  isHard := h'.isHard.trans h.isHard
  magic := h'.magic.trans h.magic
  suspdepth := h'.suspdepth.trans h.suspdepth
  receiver := h'.receiver.trans h.receiver
  resq := h'.resq.trans h.resq
  pc := h'.pc.trans h.pc
  suspended := fun u => (h'.suspended u).trans (h.suspended u)

omit decT decS finT finS in
/-- The fields that are about none of it. -/
theorem Steady.lists (k : Kernel T S) (rd tm : Links (Node T Unit))
    (qu : Links (Node T (Head T S))) (bo : T → BlockedOn T S) (pr : T → Int)
    (ms : T → Word) (mt rt : T → TaskPtr T) (wk : T → Bool) (ln : T → LinuxSide)
    (rn : T → Int) :
    Steady k { k with
      ready := rd
      timed := tm
      queue := qu
      blockedOn := bo
      priority := pr
      msg := ms
      msgTask := mt
      retTask := rt
      wakeup := wk
      linux := ln
      running := rn } :=
  ⟨rfl, rfl, rfl, rfl, rfl, rfl, fun _ => Iff.rfl⟩

omit decS finT finS in
theorem Steady.setState (k : Kernel T S) (t : T) (st : TaskState)
    (h : .suspended ∈ st ↔ .suspended ∈ k.state t) :
    Steady k { k with state := Function.update k.state t st } := by
  refine ⟨rfl, rfl, rfl, rfl, rfl, rfl, fun u => ?_⟩
  show _ ∈ Function.update k.state t st u ↔ _
  by_cases hu : u = t
  · rw [hu, Function.update_self]
    exact h
  · rw [Function.update_of_ne hu]

theorem Steady.clear (k : Kernel T S) (t : T) {m : TaskState} (h : .suspended ∉ m) :
    Steady k { k with state := Function.update k.state t (k.state t \ m) } :=
  Steady.setState k t _ (by simp [h])

theorem Steady.set (k : Kernel T S) (t : T) {m : TaskState} (h : .suspended ∉ m) :
    Steady k { k with state := Function.update k.state t (k.state t ∪ m) } :=
  Steady.setState k t _ (by simp [h])

omit decT decS finT finS in
/-- Linking and unlinking suspends and resumes nobody. -/
theorem Steady.of_relinked (h : Relinked k k') : Steady k k' := by
  obtain ⟨_, _, _, _, _, _, _, _, rfl, hst, -⟩ := h
  exact ⟨rfl, rfl, rfl, rfl, rfl, rfl, fun u => hst u _ (by decide)⟩

theorem remReadyCurrent_steady (k : Kernel T S) (t : T) : Steady k (remReadyCurrent k t) :=
  .of_relinked (remReadyCurrent_relinked k t)

theorem remTimedTask_steady (k : Kernel T S) (t : T) : Steady k (remTimedTask k t) :=
  .of_relinked (remTimedTask_relinked k t)

theorem dequeueBlocked_steady (k : Kernel T S) (t : T) : Steady k (dequeueBlocked k t) :=
  .of_relinked (dequeueBlocked_relinked k t)

theorem enqReadyTask_steady (h : enqReadyTask k t = some k')
    (hready : k.state t = {.ready}) : Steady k k' :=
  .of_relinked (enqReadyTask_relinked h hready)

theorem setTaskPrioFromResq_steady (h : setTaskPrioFromResq k t = some k') :
    Steady k k' :=
  .of_relinked (setTaskPrioFromResq_relinked h)

theorem enqueueBlocked_steady {h₀ : Head T S} {q : Int}
    (h : enqueueBlocked k t h₀ q = some k') : Steady k k' :=
  .of_relinked (enqueueBlocked_relinked h)

theorem passLoop_steady {p : Int} {fuel : Nat} {dest : TaskPtr T}
    (h : passLoop fuel k dest p = some k') : Steady k k' :=
  .of_relinked (passLoop_relinked h)

/-- A task that may be made ready, and is enqueued if so. -/
theorem madeReady_steady {m : TaskState} (hm : .suspended ∉ m) {b : Bool}
    (h : (if k.state t = {.ready} then some (k, false)
      else
        let k := { k with
          state := Function.update k.state t (k.state t \ m) }
        if k.state t = {.ready} then do return (← enqReadyTask k t, true)
        else some (k, false)) = some (k', b)) : Steady k k' := by
  split at h
  · cases h
    exact Steady.refl k
  · have hclear := Steady.clear k t hm
    simp only at h
    split at h
    · next hready =>
      obtain ⟨k₁, he, h⟩ := Option.bind_eq_some_iff.mp h
      cases h
      exact hclear.trans (enqReadyTask_steady he hready)
    · cases h
      exact hclear

/-! ## The messages -/

/-- A section of a call of `c` that suspends and resumes nobody: the call is
    over, or stands at one of `Q`. -/
def Sends (c : T) (Q : Pc T S → Prop) (k : Kernel T S) (r : Outcome T S) : Prop :=
  ∃ k₁, Steady k k₁ ∧ ((∃ v, r = (k₁, some v)) ∨
    ∃ p, Q p ∧ r = ({ k₁ with pc := Function.update k₁.pc c p }, none))

variable {r : Outcome T S} {Q : Pc T S → Prop}

omit decS finT finS in
theorem sends_done {v : Ret T} (hk : Steady k k₁) (h : done k₁ v = some r) :
    Sends c Q k r := by
  cases h
  exact ⟨k₁, hk, Or.inl ⟨v, rfl⟩⟩

omit decS finT finS in
theorem sends_stay {p : Pc T S} (hk : Steady k k₁) (hp : Q p)
    (h : stay k₁ c p = some r) : Sends c Q k r := by
  cases h
  exact ⟨k₁, hk, Or.inr ⟨p, hp, rfl⟩⟩

theorem Sends.of_steady (h : Sends c Q k₁ r) (hk : Steady k k₁) :
    Sends c Q k r := by
  obtain ⟨k₂, hk₂, hr⟩ := h
  exact ⟨k₂, hk.trans hk₂, hr⟩

theorem deliver_steady {dest : T} {msg : Word} {b : Bool}
    (h : deliver k c dest msg = some (k', b)) : Steady k k' := by
  simp only [deliver] at h
  exact ((Steady.lists k ..).trans (remTimedTask_steady _ dest)).trans
    (madeReady_steady (by decide) h)

theorem msgNotSent_sends {dest : T} (h : msgNotSent k c dest = some r) :
    Sends c Q k r := by
  simp only [msgNotSent] at h
  split at h
  · obtain ⟨k₁, h₁, h⟩ := Option.bind_eq_some_iff.mp h
    exact sends_done (((setTaskPrioFromResq_steady h₁).trans
      (dequeueBlocked_steady k₁ c)).trans (Steady.lists _ ..)) h
  · exact sends_done (Steady.lists k ..) h

theorem rtRpcTail_sends {dest : T} (h : rtRpcTail k c dest = some r) :
    Sends c Q k r := by
  simp only [rtRpcTail] at h
  split at h
  · exact sends_done (Steady.refl k) h
  · exact msgNotSent_sends h

theorem rpcDeliver_steady {dest : T} {toDo : Word}
    (h : rpcDeliver k c dest toDo ∅ = some k') : Steady k k' := by
  simp only [rpcDeliver] at h
  obtain ⟨⟨k₁, b⟩, h₁, h⟩ := Option.bind_eq_some_iff.mp h
  obtain ⟨k₂, h₂, h⟩ := Option.bind_eq_some_iff.mp h
  cases h
  exact (((Steady.lists k ..).trans (deliver_steady h₁)).trans
    (enqueueBlocked_steady h₂)).trans (Steady.set k₂ c (by decide))

theorem rpcQueue_steady {dest : T} {toDo : Word}
    (h : rpcQueue k c dest toDo ∅ = some k') : Steady k k' := by
  simp only [rpcQueue] at h
  obtain ⟨k₁, h₁, h⟩ := Option.bind_eq_some_iff.mp h
  cases h
  exact ((Steady.lists k ..).trans (enqueueBlocked_steady h₁)).trans
    (Steady.set k₁ c (by decide))

theorem rpcBlock_steady {dest : T} (h : rpcBlock k c dest = some k') :
    Steady k k' := by
  simp only [rpcBlock] at h
  obtain ⟨k₁, h₁, h⟩ := Option.bind_eq_some_iff.mp h
  cases h
  exact ((passLoop_steady h₁).trans (remReadyCurrent_steady k₁ c)).trans (Steady.lists _ ..)

theorem rtRpc_sends {dest : T} {toDo : Word} (h : rtRpc k c dest toDo = some r) :
    Sends c (· = .rpc dest) k r := by
  simp only [rtRpc] at h
  split at h
  · exact sends_done (Steady.refl k) h
  · split at h
    · obtain ⟨k₁, h₁, h⟩ := Option.bind_eq_some_iff.mp h
      obtain ⟨k₂, h₂, h⟩ := Option.bind_eq_some_iff.mp h
      exact sends_stay ((rpcDeliver_steady h₁).trans (rpcBlock_steady h₂)) rfl h
    · obtain ⟨k₁, h₁, h⟩ := Option.bind_eq_some_iff.mp h
      obtain ⟨k₂, h₂, h⟩ := Option.bind_eq_some_iff.mp h
      exact sends_stay ((rpcQueue_steady h₁).trans (rpcBlock_steady h₂)) rfl h

theorem rtReturn_sends {dest : T} {result : Word} (h : rtReturn k c dest result = some r) :
    ∃ v, r.2 = some v ∧ Steady k r.1 := by
  simp only [rtReturn] at h
  split at h
  · cases h
    exact ⟨_, rfl, Steady.refl k⟩
  · split at h
    · obtain ⟨k₁, h₁, h⟩ := Option.bind_eq_some_iff.mp h
      have hk₁ := (dequeueBlocked_steady k dest).trans (setTaskPrioFromResq_steady h₁)
      have hk₂ := (hk₁.trans (Steady.lists k₁ k₁.ready k₁.timed k₁.queue
        k₁.blockedOn k₁.priority (Function.update k₁.msg dest result)
        (Function.update k₁.msgTask dest (.task dest)) k₁.retTask k₁.wakeup
        k₁.linux k₁.running)).trans (remTimedTask_steady _ dest)
      split at h
      · cases h
        exact ⟨_, rfl, hk₂⟩
      · have hk₃ := hk₂.trans (Steady.clear _ dest (m := {.ret, .delayed}) (by decide))
        split at h
        · next hready =>
          obtain ⟨k₃, h₃, h⟩ := Option.bind_eq_some_iff.mp h
          cases h
          exact ⟨_, rfl, hk₃.trans (enqReadyTask_steady h₃ hready)⟩
        · cases h
          exact ⟨_, rfl, hk₃⟩
    · cases h
      exact ⟨_, rfl, Steady.refl k⟩

theorem receiveResult_sends {got : Word} {src : TaskPtr T}
    (h : receiveResult k c got src = some r) : Sends c (fun _ => True) k r := by
  simp only [receiveResult] at h
  split at h
  · split at h
    · exact sends_stay (Steady.refl k) trivial h
    · exact sends_done (Steady.refl k) h
  · exact sends_done (Steady.refl k) h

theorem receiveEnd_sends {got : Word} (h : receiveEnd k c got = some r) :
    Sends c (fun _ => True) k r := by
  simp only [receiveEnd] at h
  split at h
  · exact sends_done (Steady.lists k ..) h
  · exact (receiveResult_sends h).of_steady (Steady.lists k ..)

theorem rtReceiveIfTail_sends {got : Word} (h : rtReceiveIfTail k c got = some r) :
    Sends c (fun _ => True) k r := by
  simp only [rtReceiveIfTail] at h
  split at h
  · exact sends_done (Steady.lists k ..) h
  · exact (receiveResult_sends h).of_steady (Steady.lists k ..)

theorem takeMessage_steady {b : Bool} (h : takeMessage k c t = some (k', b)) :
    Steady k k' := by
  have hk := (dequeueBlocked_steady k t).trans (remTimedTask_steady _ t)
  simp only [takeMessage] at h
  split at h
  · obtain ⟨k₁, h₁, h⟩ := Option.bind_eq_some_iff.mp h
    exact ((hk.trans (Steady.lists _ ..)).trans
      (setTaskPrioFromResq_steady h₁)).trans (madeReady_steady (by decide) h)
  · split at h
    · obtain ⟨k₁, h₁, h⟩ := Option.bind_eq_some_iff.mp h
      cases h
      refine ((hk.trans (Steady.lists _ ..)).trans
        (enqueueBlocked_steady h₁)).trans (Steady.setState k₁ t _ ?_)
      simp
    · cases h
      exact hk.trans (Steady.lists _ ..)

theorem rtReceive_sends {src : Option T} (h : rtReceive k c src = some r) :
    Sends c (fun _ => True) k r := by
  simp only [rtReceive] at h
  split at h
  · exact sends_done (Steady.refl k) h
  · obtain ⟨t, -, h⟩ := Option.bind_eq_some_iff.mp h
    split at h
    · obtain ⟨⟨k₁, ready⟩, h₁, h⟩ := Option.bind_eq_some_iff.mp h
      have hk₁ := takeMessage_steady h₁
      split at h
      · exact sends_stay hk₁ trivial h
      · exact (receiveEnd_sends h).of_steady hk₁
    · refine sends_stay ?_ trivial h
      have hset : Steady k { k with
          retTask := Function.update k.retTask c .higerr
          state := Function.update k.state c (k.state c ∪ {.receive}) } :=
        (Steady.lists k k.ready k.timed k.queue k.blockedOn k.priority k.msg
          k.msgTask (Function.update k.retTask c .higerr) k.wakeup k.linux
          k.running).trans (Steady.set _ c (m := {.receive}) (by decide))
      exact (hset.trans (remReadyCurrent_steady _ c)).trans (Steady.lists _ ..)

theorem rtReceiveIf_sends {src : Option T} (h : rtReceiveIf k c src = some r) :
    Sends c (fun _ => True) k r := by
  simp only [rtReceiveIf] at h
  split at h
  · exact sends_done (Steady.refl k) h
  · obtain ⟨t, -, h⟩ := Option.bind_eq_some_iff.mp h
    split at h
    · obtain ⟨⟨k₁, ready⟩, h₁, h⟩ := Option.bind_eq_some_iff.mp h
      have hk₁ := takeMessage_steady h₁
      split at h
      · exact sends_stay hk₁ trivial h
      · exact (rtReceiveIfTail_sends h).of_steady hk₁
    · exact sends_done (Steady.refl k) h

theorem proxyReturnTail_sends {src : T} {got : Word}
    (h : proxyReturnTail k c src got = some r) : Sends c (fun _ => True) k r := by
  simp only [proxyReturnTail] at h
  obtain ⟨⟨k₁, o⟩, h₁, h⟩ := Option.bind_eq_some_iff.mp h
  obtain ⟨v, -, hk₁⟩ := rtReturn_sends h₁
  exact sends_done hk₁ h

/-- What the receivers do. -/
theorem taskOp_sends {op : Op T S} (hop : answers op = true)
    (h : taskOp k c op = some r) : Sends c (fun _ => True) k r := by
  cases op with
  | receive src => exact rtReceive_sends h
  | receiveIf src => exact rtReceiveIf_sends h
  | ret dest result =>
    obtain ⟨v, hv, hk⟩ := rtReturn_sends h
    exact ⟨r.1, hk, Or.inl ⟨v, Prod.ext rfl hv⟩⟩
  | _ => exact nomatch hop

theorem contOp_sends (hpc : answering (k.pc c) = true)
    (h : contOp k c = some r) : Sends c (fun _ => True) k r := by
  simp only [contOp] at h
  cases hp : k.pc c with
  | receive got =>
    rw [hp] at h
    exact receiveEnd_sends h
  | receiveIf got =>
    rw [hp] at h
    exact rtReceiveIfTail_sends h
  | proxyReturn src got =>
    rw [hp] at h
    exact proxyReturnTail_sends h
  | _ =>
    rw [hp] at hpc
    exact nomatch hpc

/-! ## The sections of the others -/

/-- A step of the others: nobody is suspended or resumed, and the call of `p`
    stands where it stood. -/
structure Aloof (p : T) (k k' : Kernel T S) : Prop where
  steady : Steady k { k' with pc := k.pc }
  pc : k'.pc p = k.pc p

variable {p : T}

omit decT decS finT finS in
theorem Aloof.of_steady (h : Steady k k') : Aloof p k k' :=
  ⟨⟨h.isHard, h.magic, h.suspdepth, h.receiver, h.resq, rfl, h.suspended⟩, by rw [h.pc]⟩

omit decS finT finS in
theorem Aloof.of_sends {o : Option (Ret T)} (hc : c ≠ p)
    (h : Sends c Q k r) (hf : finish c r = (k', o)) : Aloof p k k' := by
  obtain ⟨k₁, hk, ⟨v, rfl⟩ | ⟨pc, -, rfl⟩⟩ := h
  · cases hf
    exact ⟨⟨hk.isHard, hk.magic, hk.suspdepth, hk.receiver, hk.resq, rfl,
      hk.suspended⟩, by
        show Function.update k₁.pc c .idle p = k.pc p
        rw [Function.update_of_ne hc.symm, hk.pc]⟩
  · cases hf
    exact ⟨⟨hk.isHard, hk.magic, hk.suspdepth, hk.receiver, hk.resq, rfl,
      hk.suspended⟩, by
        show Function.update k₁.pc c pc p = k.pc p
        rw [Function.update_of_ne hc.symm, hk.pc]⟩

theorem enqSoftReadyTask_steady (k : Kernel T S) (t : T) :
    Steady k (enqSoftReadyTask k t) := by
  simp only [enqSoftReadyTask]
  split
  · exact Steady.refl k
  · exact Steady.lists k ..

omit decT decS finT finS in
/-- A soft task is not the proxy. -/
theorem ne_of_soft (hp : k.isHard p = true) (ht : (!k.isHard t) = true) : p ≠ t := by
  rintro rfl
  rw [hp] at ht
  exact nomatch ht

theorem others_aloof {x : Proxied T S} {a : Action T S} {o : Option (Ret T)}
    (ha : others p x a = true) (hp : x.kernel.isHard p = true)
    (h : exec x.kernel a = some (k', o)) : Aloof p x.kernel k' := by
  cases a with
  | call c op =>
    simp only [others, Bool.and_eq_true, decide_eq_true_eq] at ha
    obtain ⟨⟨hc, -⟩, hop⟩ := ha
    obtain ⟨-, r, hr, hf⟩ := exec_call h
    exact Aloof.of_sends hc (taskOp_sends hop hr) hf
  | cont c =>
    simp only [others, Bool.and_eq_true, decide_eq_true_eq] at ha
    obtain ⟨-, r, hr, hf⟩ := exec_cont h
    exact Aloof.of_sends ha.1 (contOp_sends ha.2 hr) hf
  | linux op => exact nomatch ha
  | wake now => exact nomatch ha
  | dispatch t =>
    obtain ⟨k₁, h₁, h⟩ := Option.map_eq_some_iff.mp h
    cases h
    simp only [dispatch] at h₁
    split at h₁
    · cases h₁
      exact Aloof.of_steady (Steady.lists _ ..)
    · exact nomatch h₁
  | softEnter t =>
    obtain ⟨k₁, h₁, h⟩ := Option.map_eq_some_iff.mp h
    cases h
    simp only [rtScheduleSoft] at h₁
    split at h₁
    · next hs =>
        have hpt := ne_of_soft hp hs.1
        have hset := Steady.set x.kernel t (m := {.ready}) (by decide)
        split at h₁
        · cases h₁
          have hq := hset.trans (enqSoftReadyTask_steady _ t)
          exact ⟨⟨hq.isHard, hq.magic, hq.suspdepth, hq.receiver, hq.resq, rfl,
            hq.suspended⟩, Function.update_of_ne hpt ..⟩
        · cases h₁
          exact Aloof.of_steady (hset.trans (Steady.lists _ ..))
    · exact nomatch h₁
  | softEntered t =>
    obtain ⟨k₁, h₁, h⟩ := Option.map_eq_some_iff.mp h
    cases h
    simp only [rtScheduleSoftEntered] at h₁
    split at h₁
    · next hs =>
        cases h₁
        have hq := enqSoftReadyTask_steady x.kernel t
        exact ⟨⟨hq.isHard, hq.magic, hq.suspdepth, hq.receiver, hq.resq, rfl,
          hq.suspended⟩, Function.update_of_ne (ne_of_soft hp hs.1) ..⟩
    · exact nomatch h₁
  | softSchedule t =>
    obtain ⟨k₁, h₁, h⟩ := Option.map_eq_some_iff.mp h
    cases h
    simp only [softSchedule] at h₁
    split at h₁
    · cases h₁
      exact Aloof.of_steady (Steady.lists _ ..)
    · exact nomatch h₁
  | softWake t =>
    obtain ⟨k₁, h₁, h⟩ := Option.map_eq_some_iff.mp h
    cases h
    simp only [softWake] at h₁
    split at h₁
    · cases h₁
      have hset := Steady.setState x.kernel t
        ((x.kernel.state t \ {.sftrdy}) ∪ {.ready}) (by simp)
      exact Aloof.of_steady ((hset.trans (Steady.lists _ ..)).trans
        (enqSoftReadyTask_steady _ t))
    · exact nomatch h₁
  | softTail t =>
    obtain ⟨k₁, h₁, h⟩ := Option.map_eq_some_iff.mp h
    cases h
    simp only [rtScheduleSoftTail] at h₁
    split at h₁
    · cases h₁
      exact Aloof.of_steady
        ((Steady.clear x.kernel t (m := {.ready, .sftrdy}) (by decide)).trans
          (Steady.lists _ ..))
    · exact nomatch h₁

/-! ## Suspending and resuming the proxy -/

/-- `rt_task_resume(proxy)` decrements `suspdepth`, and the proxy is suspended
    no longer when that makes it 0. -/
structure Resumed (p : T) (k k' : Kernel T S) : Prop where
  isHard : k'.isHard = k.isHard
  magic : k'.magic = k.magic
  resq : k'.resq = k.resq
  pc : k'.pc p = k.pc p
  depth : k'.suspdepth p = decr (k.suspdepth p)
  suspended : .suspended ∈ k'.state p ↔ .suspended ∈ k.state p ∧ k.suspdepth p ≠ 1

theorem rtTaskResume_resumed (hm : k.magic p = true) (h : rtTaskResume k p = some r) :
    (∃ v, r.2 = some v) ∧ r.1.pc = k.pc ∧ Resumed p k r.1 := by
  simp only [rtTaskResume, hm, Bool.not_true, Bool.false_eq_true, if_false,
    Function.update_self] at h
  split at h
  · next hz =>
      have hd : k.suspdepth p = 1 := decr_eq_zero.mp hz
      have hrem := remTimedTask_steady { k with
        suspdepth := Function.update k.suspdepth p (decr (k.suspdepth p)) } p
      have hres : ∀ k', Steady { remTimedTask { k with
            suspdepth := Function.update k.suspdepth p (decr (k.suspdepth p)) } p with
          state := Function.update k.state p (k.state p \ {.suspended, .delayed}) }
          k' → k'.pc = k.pc ∧ Resumed p k k' := by
        intro k' hk
        refine ⟨hk.pc.trans hrem.pc, hk.isHard.trans hrem.isHard,
          hk.magic.trans hrem.magic, hk.resq.trans hrem.resq,
          congrFun (hk.pc.trans hrem.pc) p, ?_, ?_⟩
        · rw [hk.suspdepth]
          show (remTimedTask _ p).suspdepth p = _
          rw [hrem.suspdepth]
          exact Function.update_self ..
        · refine (hk.suspended p).trans ?_
          show _ ∈ Function.update k.state p _ p ↔ _
          rw [Function.update_self, hd]
          simp
      have hstate : (remTimedTask { k with
          suspdepth := Function.update k.suspdepth p (decr (k.suspdepth p)) } p).state =
          k.state := by
        simp only [remTimedTask]
        split <;> rfl
      rw [hstate] at h
      split at h
      · next hready =>
        obtain ⟨k₁, h₁, h⟩ := Option.bind_eq_some_iff.mp h
        cases h
        have hlink := enqReadyTask_steady h₁ ((Function.update_self p _ k.state).trans hready)
        exact ⟨⟨_, rfl⟩, hres k₁ ((Steady.lists _ ..).trans hlink)⟩
      · cases h
        exact ⟨⟨_, rfl⟩, hres _ (Steady.refl _)⟩
  · next hz =>
      cases h
      refine ⟨⟨_, rfl⟩, rfl, rfl, rfl, rfl, rfl, Function.update_self .., ?_⟩
      exact (and_iff_left fun h1 => hz (decr_eq_zero.mpr h1)).symm

/-- The proxy suspends itself, unless it has been resumed before. -/
theorem rtTaskSuspend_self (hm : k.magic p = true) (hq : k.resq = Links.empty)
    (h : rtTaskSuspend k (some p) p = some r) :
    r.1.isHard = k.isHard ∧ r.1.magic = k.magic ∧ r.1.resq = k.resq ∧
      r.1.suspdepth p = incr (k.suspdepth p) ∧
      (k.suspdepth p = 0 ∧ r.2 = none ∧ r.1.pc p = .suspend ∧ .suspended ∈ r.1.state p ∨
        k.suspdepth p ≠ 0 ∧ (∃ v, r.2 = some v) ∧ r.1.state = k.state) := by
  have hown : taskOwnsSems k p = false := by
    simp only [taskOwnsSems, hq]
    exact decide_eq_false (not_not.mpr rfl)
  simp only [rtTaskSuspend, hm, hown, Bool.not_true, Bool.false_eq_true, if_false,
    Bool.not_false, Bool.true_and, decide_eq_true_eq, if_true] at h
  split at h
  · next hz =>
      cases h
      have hrem := remReadyCurrent_steady { k with
        suspdepth := Function.update k.suspdepth p 1
        blockedOn := Function.update k.blockedOn p (.self p) } p
      refine ⟨hrem.isHard, hrem.magic, hrem.resq, ?_, Or.inl ⟨hz, rfl, ?_, ?_⟩⟩
      · show (remReadyCurrent _ p).suspdepth p = _
        rw [hrem.suspdepth, hz]
        exact Function.update_self ..
      · exact Function.update_self ..
      · show Flag.suspended ∈ Function.update (remReadyCurrent _ p).state p _ p
        rw [Function.update_self]
        exact Finset.mem_union_right _ (Finset.mem_singleton_self _)
  · next hz =>
      cases h
      exact ⟨rfl, rfl, rfl, Function.update_self .., Or.inr ⟨hz, ⟨_, rfl⟩, rfl⟩⟩

end Frames

/-! ## The proxy -/

section Invariant

variable {T S : Type} [decT : DecidableEq T] [decS : DecidableEq S] [finT : Fintype T]
  [finS : Fintype S] {p c : T} {toDo : Word} {x x' : Proxied T S} {o : Option (Ret T)}

/-- The triggers that have not called `rt_task_resume` yet. -/
def pending (x : Proxied T S) : Nat := ∑ c, x.raised c

theorem pending_update (f : Option T → Nat) (c : Option T) (n : Nat) :
    (∑ c', Function.update f c n c') + f c = (∑ c', f c') + n := by
  rw [Finset.sum_update_of_mem (Finset.mem_univ c),
    ← Finset.add_sum_erase Finset.univ f (Finset.mem_univ c)]
  rw [Finset.sdiff_singleton_eq_erase]
  omega

/-- Where the call of the proxy stands. -/
def Stands (p : T) (k : Kernel T S) : Place → Prop
  | .calling => ∃ r, k.pc p = .rpc r
  | .suspending => k.pc p = .suspend
  | _ => k.pc p = .idle

/-- The proxy is past the test, and not yet suspended. -/
def Place.busy : Place → Bool
  | .test => false
  | .suspending => false
  | _ => true

/-- **THE TWO COUNTERS**: what is still to be sent when the proxy goes to sleep
    has been announced by triggers that will still resume it. -/
structure ProxyInv (p : T) (x : Proxied T S) : Prop where
  hard : x.kernel.isHard p = true
  magic : x.kernel.magic p = true
  resq : x.kernel.resq = Links.empty
  depth : x.kernel.suspdepth p ≤ 1
  suspended : .suspended ∈ x.kernel.state p ↔ x.kernel.suspdepth p = 1
  stands : Stands p x.kernel x.place
  busy : x.place.busy = true → x.kernel.suspdepth p ≤ 0
  nonneg : 0 ≤ x.nmsgs
  int : x.nmsgs < 2 ^ 31
  positive : x.place = .dec → 0 < x.nmsgs
  balance : x.rpcs + x.nmsgs + (if x.place = .rpc then 1 else 0) = x.increments
  sleeping : x.place = .suspend ∧ x.kernel.suspdepth p = 0 ∨
    x.place = .suspending ∧ x.kernel.suspdepth p = 1 → x.nmsgs ≤ pending x

omit decT decS finS in
theorem ProxyInv.conserved (I : ProxyInv p x) : Conserved p x where
  nonneg := I.nonneg
  balance := I.balance
  drained := by
    rintro ⟨hplace, hsusp⟩ hraised
    have hle := I.sleeping (Or.inr ⟨hplace, I.suspended.mp hsusp⟩)
    have hzero : pending x = 0 := Finset.sum_eq_zero fun c _ => hraised c
    have hge := I.nonneg
    omega

omit decT decS finT finS in
/-- A hard task that executes is not suspended. -/
theorem not_suspended_of_executes {k : Kernel T S} (hp : k.isHard p = true)
    (h : executes k p = true) : .suspended ∉ k.state p := by
  simp only [executes, hp, if_true, Bool.and_eq_true, decide_eq_true_eq] at h
  rw [h.1]
  decide

theorem ProxyInv.awake (I : ProxyInv p x) (h : executes x.kernel p = true) :
    x.kernel.suspdepth p ≤ 0 := by
  have hne : x.kernel.suspdepth p ≠ 1 := fun hd =>
    not_suspended_of_executes I.hard h (I.suspended.mpr hd)
  have hle := I.depth
  omega

omit finT finS in
theorem executes_of_mayCall {k : Kernel T S} (h : mayCall k p = true) :
    executes k p = true := by
  simp only [mayCall, Bool.and_eq_true] at h
  exact h.1

omit decT decS finS in
/-- A step of the others. -/
theorem ProxyInv.aloof (I : ProxyInv p x) {k : Kernel T S}
    (h : Aloof p x.kernel k) : ProxyInv p { x with kernel := k } := by
  obtain ⟨hk, hpc⟩ := h
  have hdepth : k.suspdepth p = x.kernel.suspdepth p := congrFun hk.suspdepth p
  constructor
  · exact (congrFun hk.isHard p).trans I.hard
  · exact (congrFun hk.magic p).trans I.magic
  · exact hk.resq.trans I.resq
  · rw [hdepth]
    exact I.depth
  · rw [hdepth]
    exact (hk.suspended p).trans I.suspended
  · have hst := I.stands
    show Stands p k x.place
    cases hpl : x.place <;> rw [hpl] at hst <;> simp only [Stands, hpc] at hst ⊢ <;>
      exact hst
  · rw [hdepth]
    exact I.busy
  · exact I.nonneg
  · exact I.int
  · exact I.positive
  · exact I.balance
  · rw [hdepth]
    exact I.sleeping

omit decS finS in
/-- **A TRIGGER RESUMES THE PROXY.** -/
theorem ProxyInv.resumed (I : ProxyInv p x) {k : Kernel T S} (c : Option T)
    (hroom : -2 ^ 31 < x.kernel.suspdepth p) (h : Resumed p x.kernel k) :
    ProxyInv p { x with
      kernel := k
      raised := Function.update x.raised c (x.raised c - 1) } := by
  have hdepth : k.suspdepth p = x.kernel.suspdepth p - 1 :=
    h.depth.trans (decr_of_gt hroom)
  have hle := I.depth
  constructor
  · exact (congrFun h.isHard p).trans I.hard
  · exact (congrFun h.magic p).trans I.magic
  · exact h.resq.trans I.resq
  · show k.suspdepth p ≤ 1
    omega
  · show _ ↔ k.suspdepth p = 1
    rw [h.suspended, I.suspended]
    omega
  · have hst := I.stands
    show Stands p k x.place
    cases hpl : x.place <;> rw [hpl] at hst <;> simp only [Stands, h.pc] at hst ⊢ <;>
      exact hst
  · intro hb
    have hd := I.busy hb
    show k.suspdepth p ≤ 0
    omega
  · exact I.nonneg
  · exact I.int
  · exact I.positive
  · exact I.balance
  · -- whoever resumes a proxy that is about to sleep, or asleep, wakes it
    rintro (⟨hpl, hd⟩ | ⟨hpl, hd⟩)
    · have hb := I.busy (by rw [show x.place = .suspend from hpl]; rfl)
      have hd' : k.suspdepth p = 0 := hd
      omega
    · have hd' : k.suspdepth p = 1 := hd
      omega

theorem atomicInc_eq {n : Int} (h0 : 0 ≤ n) (h : n < 2 ^ 31 - 1) : atomicInc n = n + 1 := by
  simp only [atomicInc, Int.bmod]
  omega

theorem atomicDec_eq {n : Int} (h0 : 0 < n) (h : n < 2 ^ 31) : atomicDec n = n - 1 := by
  simp only [atomicDec, Int.bmod]
  omega

omit decS finS in
/-- **A TRIGGER INCREMENTS `nmsgs`.** -/
theorem ProxyInv.incremented (I : ProxyInv p x) (c : Option T) (h : x.nmsgs < 2 ^ 31 - 1) :
    ProxyInv p { x with
      nmsgs := atomicInc x.nmsgs
      raised := Function.update x.raised c (x.raised c + 1)
      increments := x.increments + 1 } := by
  have heq := atomicInc_eq I.nonneg h
  have h0 := I.nonneg
  have hbal := I.balance
  have hsum : (∑ c', Function.update x.raised c (x.raised c + 1) c') = pending x + 1 := by
    have hu := pending_update x.raised c (x.raised c + 1)
    have hp : pending x = ∑ c', x.raised c' := rfl
    omega
  constructor
  · exact I.hard
  · exact I.magic
  · exact I.resq
  · exact I.depth
  · exact I.suspended
  · exact I.stands
  · exact I.busy
  · show 0 ≤ atomicInc x.nmsgs
    omega
  · show atomicInc x.nmsgs < 2 ^ 31
    omega
  · intro _
    show 0 < atomicInc x.nmsgs
    omega
  · show (x.rpcs : Int) + atomicInc x.nmsgs + (if x.place = .rpc then 1 else 0) =
      ((x.increments + 1 : Nat) : Int)
    push_cast
    omega
  · intro hs
    have hle := I.sleeping hs
    show atomicInc x.nmsgs ≤ ((∑ c', Function.update x.raised c _ c' : Nat) : Int)
    rw [hsum]
    push_cast
    omega

omit decS finS in
/-- `rt_rpc` is over, or the proxy stands in it. -/
theorem ProxyInv.sent (I : ProxyInv p x) {k : Kernel T S} {r : Outcome T S}
    {dest : T} {n : Nat} (hb : x.place.busy = true)
    (hn : n + x.nmsgs = x.increments)
    (hr : Sends p (· = .rpc dest) x.kernel r) (hf : finish p r = (k, o)) :
    ProxyInv p (goes { x with rpcs := n } .calling (k, o)).1 := by
  have hpos := I.busy hb
  obtain ⟨k₁, hk, hr⟩ := hr
  have hdepth : k₁.suspdepth p = x.kernel.suspdepth p := congrFun hk.suspdepth p
  have hall : ∀ pc place, (place = .test ∨ place = .calling) →
      Stands p { k₁ with pc := pc } place →
      ProxyInv p { x with
        kernel := { k₁ with pc := pc }
        place := place
        rpcs := n } := by
    intro pc place hplace hst
    constructor
    · exact (congrFun hk.isHard p).trans I.hard
    · exact (congrFun hk.magic p).trans I.magic
    · exact hk.resq.trans I.resq
    · show k₁.suspdepth p ≤ 1
      omega
    · show _ ↔ k₁.suspdepth p = 1
      rw [hdepth]
      exact (hk.suspended p).trans I.suspended
    · exact hst
    · intro _
      show k₁.suspdepth p ≤ 0
      omega
    · exact I.nonneg
    · exact I.int
    · rintro rfl
      rcases hplace with h | h <;> exact nomatch h
    · show (n : Int) + x.nmsgs + (if place = .rpc then 1 else 0) = _
      rcases hplace with rfl | rfl <;> simpa using hn
    · rintro (⟨rfl, -⟩ | ⟨rfl, -⟩) <;> rcases hplace with h | h <;> exact nomatch h
  rcases hr with ⟨v, rfl⟩ | ⟨pc, rfl, rfl⟩
  · cases hf
    exact hall _ .test (Or.inl rfl) (Function.update_self ..)
  · cases hf
    exact hall _ .calling (Or.inr rfl) ⟨dest, Function.update_self ..⟩

/-- **A STEP OF `proxy_task`.** -/
theorem ProxyInv.proxyTask (I : ProxyInv p x)
    (h : proxyTask p toDo x = some (x', o)) : ProxyInv p x' := by
  have hstands := I.stands
  have hbal := I.balance
  simp only [RtaiProxies.proxyTask] at h
  -- the count goes down before the call is made
  cases hpl : x.place with
  | test =>
    simp only [hpl] at h hstands
    have hsum : (x.rpcs : Int) + x.nmsgs = x.increments := by
      simpa [hpl] using hbal
    split at h
    · next hc =>
        have hawake := I.awake (executes_of_mayCall hc)
        have h0 := I.nonneg
        cases h
        by_cases hn : x.nmsgs = 0
        · rw [if_neg (not_not.mpr hn)]
          exact ⟨I.hard, I.magic, I.resq, I.depth, I.suspended, hstands,
            fun _ => hawake, I.nonneg, I.int, nofun, by simpa using hsum,
            fun _ => by
              show x.nmsgs ≤ _
              rw [hn]
              exact Int.natCast_nonneg _⟩
        · rw [if_pos hn]
          exact ⟨I.hard, I.magic, I.resq, I.depth, I.suspended, hstands,
            fun _ => hawake, I.nonneg, I.int, fun _ => by
              show 0 < x.nmsgs
              omega, by simpa using hsum,
            by rintro (⟨h, -⟩ | ⟨h, -⟩) <;> exact nomatch h⟩
    · exact nomatch h
  | dec =>
    simp only [hpl] at h hstands
    split at h
    · cases h
      have hpos := I.positive hpl
      have heq := atomicDec_eq hpos I.int
      have hint := I.int
      refine ⟨I.hard, I.magic, I.resq, I.depth, I.suspended, hstands,
        fun _ => I.busy (by rw [hpl]; rfl), ?_, ?_, nofun, ?_,
        by rintro (⟨h, -⟩ | ⟨h, -⟩) <;> exact nomatch h⟩
      · show 0 ≤ atomicDec x.nmsgs
        omega
      · show atomicDec x.nmsgs < 2 ^ 31
        omega
      · show (x.rpcs : Int) + atomicDec x.nmsgs + 1 = x.increments
        rw [hpl] at hbal
        simp only [reduceCtorEq, if_false] at hbal
        omega
    · exact nomatch h
  | rpc =>
    rw [hpl] at h
    simp only at h
    split at h
    · exact nomatch h
    · next dest _ =>
        obtain ⟨⟨k, o'⟩, hx, h⟩ := Option.map_eq_some_iff.mp h
        cases h
        obtain ⟨-, r, hr, hf⟩ := exec_call hx
        refine I.sent (by rw [hpl]; rfl) ?_ (rtRpc_sends hr) hf
        rw [hpl, if_pos rfl] at hbal
        push_cast
        omega
  | calling =>
    rw [hpl] at h hstands
    obtain ⟨⟨k, o'⟩, hx, h⟩ := Option.map_eq_some_iff.mp h
    cases h
    obtain ⟨-, r, hr, hf⟩ := exec_cont hx
    obtain ⟨dest, hpc⟩ := hstands
    simp only [contOp, hpc] at hr
    exact I.sent (by rw [hpl]; rfl) (by simpa [hpl] using hbal)
      (rtRpcTail_sends (Q := (· = .rpc dest)) hr) hf
  | suspend =>
    rw [hpl] at h
    obtain ⟨⟨k, o'⟩, hx, h⟩ := Option.map_eq_some_iff.mp h
    cases h
    obtain ⟨-, ⟨k₁, o₁⟩, hr, hf⟩ := exec_call hx
    have hpos := I.busy (by rw [hpl]; rfl)
    have hsum : (x.rpcs : Int) + x.nmsgs = x.increments := by
      simpa [hpl] using hbal
    obtain ⟨hhard, hmagic, hresq, hdepth, hcase⟩ :=
      rtTaskSuspend_self I.magic I.resq hr
    rw [incr_of_lt (by omega)] at hdepth
    have hsusp := I.suspended
    simp only at hhard hmagic hresq hdepth hcase
    -- a trigger may have come first: then nothing is suspended
    rcases hcase with ⟨hz, hnone, hpc, hset⟩ | ⟨hz, ⟨v, hv⟩, hstate⟩
    · obtain rfl : o₁ = none := hnone
      cases hf
      refine ⟨(congrFun hhard p).trans I.hard, (congrFun hmagic p).trans I.magic,
        hresq.trans I.resq, ?_, iff_of_true hset ?_, hpc, nofun, I.nonneg, I.int,
        nofun, by simpa using hsum, fun _ => I.sleeping (Or.inl ⟨hpl, hz⟩)⟩
      · show k.suspdepth p ≤ 1
        omega
      · show k.suspdepth p = 1
        omega
    · obtain rfl : o₁ = some v := hv
      cases hf
      have hidle : Function.update k₁.pc p .idle p = .idle :=
        Function.update_self ..
      refine ⟨(congrFun hhard p).trans I.hard, (congrFun hmagic p).trans I.magic,
        hresq.trans I.resq, ?_, ?_, hidle, nofun, I.nonneg, I.int, nofun,
        by simpa using hsum, by rintro (⟨h, -⟩ | ⟨h, -⟩) <;> exact nomatch h⟩
      · show k₁.suspdepth p ≤ 1
        omega
      · show _ ∈ k₁.state p ↔ k₁.suspdepth p = 1
        rw [hstate, hsusp]
        omega
  | suspending =>
    rw [hpl] at h hstands
    obtain ⟨⟨k, o'⟩, hx, h⟩ := Option.map_eq_some_iff.mp h
    cases h
    obtain ⟨-, r, hr, hf⟩ := exec_cont hx
    have hpc : x.kernel.pc p = .suspend := hstands
    simp only [contOp, hpc, rtTaskSuspendTail] at hr
    have hdone : ∃ v, r = (x.kernel, some v) := by
      split at hr <;> exact ⟨_, (Option.some.inj hr).symm⟩
    obtain ⟨v, rfl⟩ := hdone
    cases hf
    have hidle : Function.update x.kernel.pc p .idle p = .idle :=
      Function.update_self ..
    exact ⟨I.hard, I.magic, I.resq, I.depth, I.suspended, hidle, nofun,
      I.nonneg, I.int, nofun, by simpa [hpl] using hbal,
      by rintro (⟨h, -⟩ | ⟨h, -⟩) <;> exact nomatch h⟩

/-- **EVERY STEP KEEPS THE COUNTERS RIGHT.** -/
theorem ProxyInv.step (I : ProxyInv p x) {a : ProxyAction T S}
    (hrange : InRange p x a) (h : proxyStep p toDo x a = some (x', o)) :
    ProxyInv p x' := by
  cases a with
  | increment c =>
    simp only [proxyStep] at h
    split at h
    · cases h
      exact I.incremented c hrange
    · exact nomatch h
  | resume c =>
    simp only [proxyStep] at h
    split at h
    · exact nomatch h
    · obtain ⟨⟨k, o'⟩, hx, h⟩ := Option.map_eq_some_iff.mp h
      cases h
      cases c with
      | none => exact I.resumed none hrange (rtTaskResume_resumed I.magic hx).2.2
      | some c =>
        obtain ⟨hmay, ⟨k₁, o₁⟩, hr, hf⟩ := exec_call hx
        obtain ⟨⟨v, hv⟩, hpc, hres⟩ := rtTaskResume_resumed I.magic hr
        obtain rfl : o₁ = some v := hv
        cases hf
        refine I.resumed (some c) hrange ⟨hres.isHard, hres.magic, hres.resq, ?_,
          hres.depth, hres.suspended⟩
        show Function.update k₁.pc c .idle p = x.kernel.pc p
        by_cases hcp : p = c
        · rw [← hcp, Function.update_self]
          rw [← hcp] at hmay
          simp only [mayCall, I.hard, if_true, Bool.and_eq_true,
            decide_eq_true_eq] at hmay
          exact hmay.2.symm
        · rw [Function.update_of_ne hcp]
          exact congrFun hpc p
  | proxyTask => exact I.proxyTask h
  | act a =>
    simp only [proxyStep] at h
    split at h
    · next ha =>
        obtain ⟨⟨k, o'⟩, hx, h⟩ := Option.map_eq_some_iff.mp h
        cases h
        exact I.aloof (others_aloof ha I.hard hx)
    · exact nomatch h

end Invariant

/-! ## Every run -/

section Runs

variable {T S : Type} [decT : DecidableEq T] [decS : DecidableEq S] [finT : Fintype T]
  [finS : Fintype S]

omit decT decS finS in
theorem proxyInv_attached (cfg : Config T S) {p : T} (hp : cfg.hard p = true) :
    ProxyInv p (attached cfg) := by
  have hdepth : (boot cfg).suspdepth p = 1 := if_pos hp
  have hstate : (boot cfg).state p = {.suspended, .ready} := if_pos hp
  refine ⟨hp, rfl, rfl, hdepth.le, iff_of_true ?_ hdepth, rfl, nofun, le_refl 0,
    show (0 : Int) < 2 ^ 31 by decide, nofun, rfl,
    by rintro (⟨h, -⟩ | ⟨h, -⟩) <;> exact nomatch h⟩
  show _ ∈ (boot cfg).state p
  rw [hstate]
  decide

/-- **TRIGGERS ARE CONSERVED** as long as the counters stay within an `int`. -/
theorem proxy_triggers_conserved (cfg : Config T S) (p : T)
    (hp : cfg.hard p = true) (toDo : Word) {x : Proxied T S}
    (h : Reach (proxyStep p toDo) (InRange p) (attached cfg) x) :
    Conserved p x :=
  (h.invariant (proxyInv_attached cfg hp) fun _ _ _ _ I hP hs => I.step hP hs).conserved

/-- Task 1 is the proxy of task 0. -/
def oneProxy : Config (Fin 2) (Fin 1) where
  hard := fun _ => true
  priority := fun _ => 0
  receiver := fun t => if t = 1 then some 0 else none
  schedlat := fun _ => 0
  linuxSchedlat := 0
  sems := fun _ => { kind := .binSem, value := 1, fifo := false }
  time := 0

instance (p : Fin 2) (x : Proxied (Fin 2) (Fin 1)) (a : ProxyAction (Fin 2) (Fin 1)) :
    Decidable (InRange p x a) :=
  match a with
  | .increment _ => inferInstanceAs (Decidable (_ < _))
  | .resume _ => inferInstanceAs (Decidable (_ < _))
  | .proxyTask => isTrue trivial
  | .act _ => isTrue trivial

/-- Two triggers by Linux; the proxy has called `rt_rpc` for the first. -/
def triggeredRun : List (ProxyAction (Fin 2) (Fin 1)) :=
  [.increment none, .resume none, .increment none, .resume none,
    .act (.dispatch 1), .proxyTask, .proxyTask, .proxyTask]

theorem proxy_triggers_conserved_sent :
    ∃ x : Proxied (Fin 2) (Fin 1), x.rpcs = 1 ∧ x.nmsgs = 1 ∧ Conserved 1 x := by
  obtain ⟨x, hplay, hr, hn⟩ : ∃ x, play (proxyStep 1 7) (InRange 1)
      (attached oneProxy) triggeredRun = some x ∧ x.rpcs = 1 ∧ x.nmsgs = 1 :=
    ⟨_, rfl, rfl, rfl⟩
  exact ⟨x, hr, hn, proxy_triggers_conserved oneProxy 1 rfl 7 (reach_of_play hplay)⟩

omit decS finS in
/-- A resume of a task that is not suspended. -/
theorem rtTaskResume_ahead {k : Kernel T S} {p : T} (hm : k.magic p = true)
    (hd : k.suspdepth p ≤ 0) :
    rtTaskResume k p = some ({ k with
      suspdepth := Function.update k.suspdepth p (decr (k.suspdepth p)) }, some (.val 0)) := by
  simp only [rtTaskResume, hm, Bool.not_true, Bool.false_eq_true, if_false,
    Function.update_self]
  rw [if_neg (fun hz => by rw [decr_eq_zero.mp hz] at hd; exact absurd hd (by decide))]
  rfl

/-- Linux triggers a proxy that does not get to run. -/
theorem triggered (n : Nat) (hn : n < 2 ^ 31) : ∃ x : Proxied (Fin 2) (Fin 1),
      Reach (proxyStep 1 7) (fun _ _ => True) (attached oneProxy) x ∧
      x.nmsgs = n ∧ x.kernel.magic 1 = true ∧
      (x.kernel = boot oneProxy ∨
        -(n : Int) ≤ x.kernel.suspdepth 1 ∧ x.kernel.suspdepth 1 ≤ 0) := by
  induction n with
  | zero => exact ⟨_, Reach.refl _, rfl, rfl, Or.inl rfl⟩
  | succ n ih =>
    obtain ⟨x, hx, hnm, hmag, hk⟩ := ih (by omega)
    have hres : ∃ r, exec x.kernel (.linux (.resume 1)) = some r ∧
        r.1.magic 1 = true ∧ -((n + 1 : Nat) : Int) ≤ r.1.suspdepth 1 ∧
        r.1.suspdepth 1 ≤ 0 := by
      rcases hk with hk | ⟨hlow, hk⟩
      · rw [hk]
        exact ⟨_, rfl, rfl, show -((n + 1 : Nat) : Int) ≤ 0 by omega, by decide⟩
      · have hdecr : decr (x.kernel.suspdepth 1) = x.kernel.suspdepth 1 - 1 :=
          decr_of_gt (by omega)
        have hself : Function.update x.kernel.suspdepth 1
            (decr (x.kernel.suspdepth 1)) 1 = x.kernel.suspdepth 1 - 1 :=
          (Function.update_self ..).trans hdecr
        refine ⟨_, rtTaskResume_ahead hmag hk, hmag, ?_, ?_⟩
        · exact le_of_le_of_eq (by omega) hself.symm
        · exact le_of_eq_of_le hself (by omega)
    obtain ⟨r, hr, hrm, hrd⟩ := hres
    have hinc : proxyStep 1 7 x (.increment none) = some ({ x with
        nmsgs := atomicInc x.nmsgs
        raised := Function.update x.raised none (x.raised none + 1)
        increments := x.increments + 1 }, none) := rfl
    have hraised : Function.update x.raised none (x.raised none + 1) none ≠ 0 := by
      rw [Function.update_self]
      omega
    refine ⟨{ x with
        kernel := r.1
        nmsgs := atomicInc x.nmsgs
        raised := Function.update (Function.update x.raised none (x.raised none + 1)) none
            (Function.update x.raised none (x.raised none + 1) none - 1)
        increments := x.increments + 1 },
      (hx.tail trivial hinc).tail (a := .resume none) (o := r.2) trivial ?_, ?_,
      hrm, Or.inr hrd⟩
    · simp only [proxyStep, if_neg hraised, resumes, hr, Option.map_some]
    · show atomicInc x.nmsgs = _
      rw [atomicInc_eq (by omega) (by omega), hnm]
      push_cast
      rfl

/-- **THE COUNTER OVERFLOWS**: after 2^31 triggers `nmsgs` is negative. -/
theorem nmsgs_overflows : ∃ x : Proxied (Fin 2) (Fin 1),
      Reach (proxyStep 1 7) (fun _ _ => True) (attached oneProxy) x ∧
      ¬ Conserved 1 x := by
  obtain ⟨x, hx, hn, -⟩ := triggered (2 ^ 31 - 1) (by decide)
  refine ⟨_, hx.tail (a := .increment none) trivial rfl, fun h => ?_⟩
  have hneg : 0 ≤ atomicInc x.nmsgs := h.nonneg
  rw [hn] at hneg
  exact absurd hneg (by decide)

end Runs

end RtaiProxies
