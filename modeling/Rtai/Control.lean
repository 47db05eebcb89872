import Rtai.WaitQueues
import Rtai.Steps

/-! # Where every task stands

    `Control k L` ties the place of a task in its call (`pc`) to the queue it
    is linked in, to `blocked_on`, to the `task` fields of its queues and to
    the bits of its state.  A task that has been woken up by a timeout or an
    unblock stays linked until it runs and dequeues itself; one that has been
    served is unlinked, and its `blocked_on` or its `msg_queue.task` says
    so. -/

namespace RtaiControl

open RtaiRings RtaiKernel RtaiSchedCore RtaiSteps RtaiSched RtaiFrames
  RtaiWaitQueues

/-- The semaphore a task waits on. -/
def waitsOn {T S : Type} : Pc T S → Option S
  | .semWait s => some s
  | .semWaitUntil s => some s
  | _ => none

/-- The destination of a send or an rpc that may block. -/
def sendsTo {T S : Type} : Pc T S → Option T
  | .send r => some r
  | .rpc r => some r
  | _ => none

/-- In a receive that may have blocked or have been preempted. -/
def receiving {T S : Type} : Pc T S → Bool
  | .receive _ => true
  | .receiveIf _ => true
  | _ => false

theorem sendsTo_of_waitsOn {T S : Type} {p : Pc T S} {s : S}
    (h : waitsOn p = some s) : sendsTo p = none := by
  cases p <;> first | rfl | exact nomatch h

theorem receiving_of_waitsOn {T S : Type} {p : Pc T S} {s : S}
    (h : waitsOn p = some s) : receiving p = false := by
  cases p <;> first | rfl | exact nomatch h

variable {T S : Type}

/-- The queue is the one that the task's call has put it in. -/
def AtHome (k : Kernel T S) (t : T) : Head T S → Prop
  | .sem s => waitsOn (k.pc t) = some s ∧ k.blockedOn t ≠ .null
  | .msg r => sendsTo (k.pc t) = some r ∧ k.msgTask t = .task r
  | .ret r => k.pc t = .rpc r ∧ k.msgTask t = .task r

/-- Where task `t` stands. -/
structure Stands (k : Kernel T S) (L : Head T S → List T) (t : T) :
    Prop where
  home : ∀ h, t ∈ L h → AtHome k t h
  waits : ∀ s, waitsOn (k.pc t) = some s → k.blockedOn t ≠ .null → t ∈ L (.sem s)
  sends : ∀ r, k.pc t = .send r → k.msgTask t = .task r → t ∈ L (.msg r)
  calls : ∀ r, k.pc t = .rpc r → k.msgTask t = .task r → t ∈ L (.msg r) ∨ t ∈ L (.ret r)
  dest : ∀ r, sendsTo (k.pc t) = some r → k.msgTask t = .task t ∨ k.msgTask t = .task r
  calm : sendsTo (k.pc t) = none → receiving (k.pc t) = false → k.msgTask t = .task t
  got : k.retTask t ≠ .null → k.pc t = .receive none ∧ k.retTask t = .higerr
  /-- A soft task that has been robbed of a semaphore keeps the bit when it
      has left the queue. -/
  semBit : .semaphore ∈ k.state t →
    (∃ s, waitsOn (k.pc t) = some s ∧ k.blockedOn t = .queue (.sem s)) ∨
    (k.isHard t = false ∧ k.pc t = .idle ∧ k.blockedOn t = .null)
  sendBit : .send ∈ k.state t → ∃ r, k.pc t = .send r ∧
    k.msgTask t = .task r ∧ k.blockedOn t = .queue (.msg r)
  rpcBit : .rpc ∈ k.state t → ∃ r, k.pc t = .rpc r ∧
    k.msgTask t = .task r ∧ k.blockedOn t = .queue (.msg r) ∧ t ∈ L (.msg r)
  retBit : .ret ∈ k.state t → ∃ r, k.pc t = .rpc r ∧
    k.msgTask t = .task r ∧ k.blockedOn t = .queue (.ret r) ∧ t ∈ L (.ret r)
  receiveBit : .receive ∈ k.state t → k.pc t = .receive none ∧ k.retTask t = .higerr
  awake : k.isHard t = false → Awake k t → Disjoint (k.state t) {.send, .receive, .rpc, .ret}
  present : k.blockedOn t ≠ .objrem
  running : 0 ≤ k.running t
  magic : k.magic t = true

/-- The control state of the system: `L` are the wait queues. -/
structure Control (k : Kernel T S) (L : Head T S → List T) : Prop where
  rings : Rings k.queue L
  stands : ∀ t, Stands k L t
  semMagic : ∀ s, k.semMagic s = true

/-- A task in no queue: outside any call, or granted the semaphore it waited
    for. -/
theorem stands_calm {k : Kernel T S} {L : Head T S → List T} {t : T}
    (hL : ∀ h, t ∉ L h) (hw : waitsOn (k.pc t) = none ∨ k.blockedOn t = .null)
    (hs : sendsTo (k.pc t) = none)
    (hm : k.msgTask t = .task t) (hret : k.retTask t = .null)
    (hst : Disjoint (k.state t) {.send, .receive, .rpc, .ret})
    (hsem : .semaphore ∈ k.state t →
      k.isHard t = false ∧ k.pc t = .idle ∧ k.blockedOn t = .null)
    (hb : k.blockedOn t ≠ .objrem)
    (hrun : 0 ≤ k.running t) (hmag : k.magic t = true) : Stands k L t where
  home := fun h ht => absurd ht (hL h)
  waits := by
    intro s h hb
    rcases hw with hw | hw
    · exact nomatch hw.symm.trans h
    · exact absurd hw hb
  sends := by
    intro r h
    rw [h] at hs
    exact nomatch hs
  calls := by
    intro r h
    rw [h] at hs
    exact nomatch hs
  dest := fun r h => nomatch hs.symm.trans h
  calm := fun _ _ => hm
  got := fun h => absurd hret h
  semBit := fun h => Or.inr (hsem h)
  sendBit := fun h => absurd (by decide) (Finset.disjoint_left.mp hst h)
  rpcBit := fun h => absurd (by decide) (Finset.disjoint_left.mp hst h)
  retBit := fun h => absurd (by decide) (Finset.disjoint_left.mp hst h)
  receiveBit := fun h => absurd (by decide) (Finset.disjoint_left.mp hst h)
  awake := fun _ _ => hst
  present := hb
  running := hrun
  magic := hmag

/-- The same for a task without blocking bits. -/
theorem stands_idle {k : Kernel T S} {L : Head T S → List T} {t : T}
    (hL : ∀ h, t ∉ L h) (hw : waitsOn (k.pc t) = none ∨ k.blockedOn t = .null)
    (hs : sendsTo (k.pc t) = none)
    (hm : k.msgTask t = .task t) (hret : k.retTask t = .null)
    (hst : Disjoint (k.state t) blocking) (hb : k.blockedOn t ≠ .objrem)
    (hrun : 0 ≤ k.running t) (hmag : k.magic t = true) : Stands k L t :=
  stands_calm hL hw hs hm hret (Disjoint.mono_right (by decide) hst)
    (fun h => absurd (by decide) (Finset.disjoint_left.mp hst h)) hb hrun hmag

/-- A task queued on a semaphore. -/
theorem stands_waiting {k : Kernel T S} {L : Head T S → List T} {t : T} {s : S}
    (hL : ∀ h, t ∈ L h ↔ h = .sem s) (hw : waitsOn (k.pc t) = some s)
    (hb : k.blockedOn t = .queue (.sem s))
    (hm : k.msgTask t = .task t) (hret : k.retTask t = .null)
    (hst : Disjoint (k.state t) {.send, .receive, .rpc, .ret})
    (hrun : 0 ≤ k.running t) (hmag : k.magic t = true) : Stands k L t where
  home := by
    intro h ht
    rw [(hL h).mp ht]
    exact ⟨hw, by rw [hb]; exact nofun⟩
  waits := by
    intro s' h _
    rw [hw] at h
    cases h
    exact (hL _).mpr rfl
  sends := by
    intro r h
    rw [h] at hw
    exact nomatch hw
  calls := by
    intro r h
    rw [h] at hw
    exact nomatch hw
  dest := fun r h => nomatch (sendsTo_of_waitsOn hw).symm.trans h
  calm := fun _ _ => hm
  got := fun h => absurd hret h
  semBit := fun _ => Or.inl ⟨s, hw, hb⟩
  sendBit := fun h => absurd (by decide) (Finset.disjoint_left.mp hst h)
  rpcBit := fun h => absurd (by decide) (Finset.disjoint_left.mp hst h)
  retBit := fun h => absurd (by decide) (Finset.disjoint_left.mp hst h)
  receiveBit := fun h => absurd (by decide) (Finset.disjoint_left.mp hst h)
  awake := fun _ _ => hst
  present := by rw [hb]; exact nofun
  running := hrun
  magic := hmag

/-- Before anything has happened every task is outside any call. -/
theorem control_boot [DecidableEq T] [DecidableEq S] (cfg : Config T S) :
    Control (boot cfg) (fun _ => []) where
  rings := Rings.empty
  stands := by
    intro t
    refine stands_idle (fun _ => List.not_mem_nil) (Or.inl rfl) rfl rfl rfl ?_
      nofun
      (le_refl _) rfl
    show Disjoint (if cfg.hard t then _ else _ : TaskState) _
    split <;> decide
  semMagic := fun _ => rfl

section Transport

variable {k k' : Kernel T S} {L L' : Head T S → List T}

/-- Where a task stands is read from its own fields.  Blocking bits may get
    lost. -/
theorem Stands.transport {t : T} (C : Stands k L t)
    (hperm : ∀ h, t ∈ L' h ↔ t ∈ L h) (hpc : k'.pc t = k.pc t)
    (hb : k'.blockedOn t = k.blockedOn t) (hm : k'.msgTask t = k.msgTask t)
    (hr : k'.retTask t = k.retTask t) (hh : k'.isHard t = k.isHard t)
    (hmag : k'.magic t = k.magic t) (hrun : k'.running t = k.running t)
    (hst : ∀ f, f ∈ blocking → f ∈ k'.state t → f ∈ k.state t)
    (haw : Awake k' t → Awake k t ∨ Disjoint (k'.state t) blocking) :
    Stands k' L' t where
  home := by
    intro h ht
    have := C.home h ((hperm h).mp ht)
    cases h with
    | sem s => exact ⟨hpc ▸ this.1, hb ▸ this.2⟩
    | msg r => exact ⟨hpc ▸ this.1, hm ▸ this.2⟩
    | ret r => exact ⟨hpc ▸ this.1, hm ▸ this.2⟩
  waits := by
    intro s hp hq
    rw [hpc] at hp
    rw [hb] at hq
    exact (hperm _).mpr (C.waits s hp hq)
  sends := by
    intro r hp hq
    rw [hpc] at hp
    rw [hm] at hq
    exact (hperm _).mpr (C.sends r hp hq)
  calls := by
    intro r hp hq
    rw [hpc] at hp
    rw [hm] at hq
    rcases C.calls r hp hq with h | h
    · exact Or.inl ((hperm _).mpr h)
    · exact Or.inr ((hperm _).mpr h)
  dest := by rw [hpc, hm]; exact C.dest
  calm := by rw [hpc, hm]; exact C.calm
  got := by rw [hpc, hr]; exact C.got
  semBit := by
    intro ht
    rw [hpc, hb, hh]
    exact C.semBit (hst _ (by decide) ht)
  sendBit := by
    intro ht
    rw [hpc, hb, hm]
    exact C.sendBit (hst _ (by decide) ht)
  rpcBit := by
    intro ht
    rw [hpc, hb, hm]
    obtain ⟨r, h1, h2, h3, h4⟩ := C.rpcBit (hst _ (by decide) ht)
    exact ⟨r, h1, h2, h3, (hperm _).mpr h4⟩
  retBit := by
    intro ht
    rw [hpc, hb, hm]
    obtain ⟨r, h1, h2, h3, h4⟩ := C.retBit (hst _ (by decide) ht)
    exact ⟨r, h1, h2, h3, (hperm _).mpr h4⟩
  receiveBit := by
    intro ht
    rw [hpc, hr]
    exact C.receiveBit (hst _ (by decide) ht)
  awake := by
    intro ht ha
    rw [hh] at ht
    have hsub : ({.send, .receive, .rpc, .ret} : TaskState) ⊆ blocking := by
      decide
    rcases haw ha with h | h
    · refine Finset.disjoint_left.mpr fun f hf hm' => ?_
      exact Finset.disjoint_left.mp (C.awake ht h) (hst f (hsub hm') hf) hm'
    · exact Disjoint.mono_right hsub h
  present := by rw [hb]; exact C.present
  running := by rw [hrun]; exact C.running
  magic := by rw [hmag]; exact C.magic

/-- **SCHEDULING IS NO CONTROL MATTER.** -/
theorem Control.still (C : Control k L) (h : Still k k') : Control k' L := by
  obtain ⟨_, _, _, _, _, _, _, _, _, _, _, rfl, hst, haw, -⟩ := h
  exact ⟨C.rings, fun t => (C.stands t).transport (fun _ => Iff.rfl) rfl rfl
    rfl rfl rfl rfl rfl (hst t) (haw t), C.semMagic⟩

/-- Neither are priorities and the order they give to the queues. -/
theorem Control.shuffles (C : Control k L) (h : Shuffles k L k' L') :
    Control k' L' := by
  obtain ⟨pr, q, R, hperm, S₁⟩ := h
  obtain ⟨_, _, _, _, _, _, _, _, _, _, _, rfl, hst, haw, -⟩ := S₁
  exact ⟨R, fun t => (C.stands t).transport (fun h => (hperm h).mem_iff) rfl rfl
    rfl rfl rfl rfl rfl (hst t) (haw t), C.semMagic⟩

end Transport

section Facts

variable {k : Kernel T S} {L : Head T S → List T}

/-- A task that has blocking bits for a queue is linked in the queue it is
    blocked on. -/
theorem Control.queuedWhereBlocked (C : Control k L) :
    QueuedWhereBlocked k L := by
  intro t h hq hb
  have hne : k.blockedOn t ≠ .null := by rw [hb]; exact nofun
  have hptr : (k.blockedOn t).isPtr = true := by rw [hb]; rfl
  unfold inPriorityQueue at hq
  rw [if_pos hptr] at hq
  by_cases hs : .semaphore ∈ k.state t
  · rcases (C.stands t).semBit hs with ⟨s, hp, hb'⟩ | ⟨-, -, hb'⟩
    · rw [hb] at hb'
      cases hb'
      exact (C.stands t).waits s hp hne
    · exact absurd hb' hne
  · rw [if_neg hs] at hq
    have hd : ¬ Disjoint (k.state t) msgFlags := by simpa using hq
    obtain ⟨f, hf, hm⟩ := Finset.not_disjoint_iff.mp hd
    unfold msgFlags at hm
    rw [Finset.mem_insert, Finset.mem_insert, Finset.mem_singleton] at hm
    rcases hm with rfl | rfl | rfl
    · obtain ⟨r, hp, hm, hb'⟩ := (C.stands t).sendBit hf
      rw [hb] at hb'
      cases hb'
      exact (C.stands t).sends r hp hm
    · obtain ⟨r, -, -, hb', hl⟩ := (C.stands t).rpcBit hf
      rw [hb] at hb'
      cases hb'
      exact hl
    · obtain ⟨r, -, -, hb', hl⟩ := (C.stands t).retBit hf
      rw [hb] at hb'
      cases hb'
      exact hl

/-- A task that neither waits nor sends is in no queue. -/
theorem Control.unlinked (C : Control k L) {t : T}
    (hw : waitsOn (k.pc t) = none) (hs : sendsTo (k.pc t) = none)
    (h : Head T S) : t ∉ L h := by
  intro ht
  have := (C.stands t).home h ht
  cases h with
  | sem s => exact nomatch hw.symm.trans this.1
  | msg r => exact nomatch hs.symm.trans this.1
  | ret r =>
    rw [this.1] at hs
    exact nomatch hs

/-- A waiter that has been granted the semaphore is in no queue. -/
theorem Control.granted_unlinked (C : Control k L) {t : T} {s : S}
    (hw : waitsOn (k.pc t) = some s) (hb : k.blockedOn t = .null)
    (h : Head T S) : t ∉ L h := by
  intro ht
  have := (C.stands t).home h ht
  cases h with
  | sem s => exact this.2 hb
  | msg r =>
    exact nomatch (sendsTo_of_waitsOn hw).symm.trans this.1
  | ret r =>
    rw [this.1] at hw
    exact nomatch hw

/-- What is known of a task that calls a service. -/
structure Caller (k : Kernel T S) (c : T) : Prop where
  waits : waitsOn (k.pc c) = none
  sends : sendsTo (k.pc c) = none
  msgTask : k.msgTask c = .task c
  retTask : k.retTask c = .null
  bits : Disjoint (k.state c) blocking

/-- **A task that may call a service is outside any wait.** -/
theorem Control.caller [DecidableEq T] [DecidableEq S] (C : Control k L)
    {c : T} (h : mayCall k c = true) : Caller k c := by
  unfold mayCall at h
  rw [Bool.and_eq_true, decide_eq_true_eq] at h
  obtain ⟨hex, hpc⟩ := h
  have hcases : k.pc c = .idle ∨ k.pc c = .start := by
    rw [hpc]
    split
    · exact Or.inl rfl
    · exact Or.inr rfl
  have hw : waitsOn (k.pc c) = none := by
    rcases hcases with h | h <;> rw [h] <;> rfl
  have hs : sendsTo (k.pc c) = none := by
    rcases hcases with h | h <;> rw [h] <;> rfl
  have hr : receiving (k.pc c) = false := by
    rcases hcases with h | h <;> rw [h] <;> rfl
  refine ⟨hw, hs, (C.stands c).calm hs hr, ?_, ?_⟩
  · by_contra hne
    rw [((C.stands c).got hne).1] at hr
    exact nomatch hr
  · unfold executes at hex
    by_cases hh : k.isHard c = true
    · rw [if_pos hh, Bool.and_eq_true, decide_eq_true_eq] at hex
      rw [hex.1]
      decide
    · -- a soft task that Linux runs; the bit of a robbed one is gone
      rw [if_neg hh, decide_eq_true_eq] at hex
      rw [if_neg hh] at hpc
      have ha : Awake k c := Or.inl (by rw [hex]; exact nofun)
      have hd := (C.stands c).awake (by simpa using hh) ha
      refine Finset.disjoint_left.mpr fun f hf hb => ?_
      unfold blocking at hb
      rw [Finset.mem_insert] at hb
      rcases hb with rfl | hb
      · rcases (C.stands c).semBit hf with ⟨s, hp, -⟩ | ⟨-, hp, -⟩
        · exact nomatch hw.symm.trans hp
        · rw [hpc] at hp
          exact nomatch hp
      · exact Finset.disjoint_left.mp hd hf hb

theorem Control.caller_unlinked (C : Control k L) {c : T} (hc : Caller k c)
    (h : Head T S) : c ∉ L h :=
  C.unlinked hc.waits hc.sends h

/-- What is known of a task in a wait for a semaphore. -/
theorem Control.waiter (C : Control k L) {t : T} {s : S} (hw : waitsOn (k.pc t) = some s) :
    k.msgTask t = .task t ∧ k.retTask t = .null ∧
      Disjoint (k.state t) {.send, .receive, .rpc, .ret} := by
  refine ⟨(C.stands t).calm (sendsTo_of_waitsOn hw) (receiving_of_waitsOn hw), ?_, ?_⟩
  · by_contra hne
    rw [((C.stands t).got hne).1] at hw
    exact nomatch hw
  · refine Finset.disjoint_left.mpr fun f hf hm => ?_
    rw [Finset.mem_insert, Finset.mem_insert, Finset.mem_insert, Finset.mem_singleton] at hm
    rcases hm with rfl | rfl | rfl | rfl
    · obtain ⟨r, hp, -⟩ := (C.stands t).sendBit hf
      rw [hp] at hw
      exact nomatch hw
    · rw [((C.stands t).receiveBit hf).1] at hw
      exact nomatch hw
    · obtain ⟨r, hp, -⟩ := (C.stands t).rpcBit hf
      rw [hp] at hw
      exact nomatch hw
    · obtain ⟨r, hp, -⟩ := (C.stands t).retBit hf
      rw [hp] at hw
      exact nomatch hw

/-- Neither do the semaphores and the priorities. -/
theorem Control.data (C : Control k L) (pr bp : T → Int) (ct ty : S → Int)
    (ow : S → Option T) (rq : Links (Node S T)) :
    Control { k with
      priority := pr
      basePriority := bp
      count := ct
      type := ty
      owndby := ow
      resq := rq } L :=
  ⟨C.rings, fun t => (C.stands t).transport (fun _ => Iff.rfl) rfl rfl rfl rfl
    rfl rfl rfl (fun _ _ h => h) Or.inl, C.semMagic⟩

/-- What `blocked_on` holds is of no matter outside a wait. -/
theorem Control.setBlockedOn [DecidableEq T] (C : Control k L) {c : T}
    (hc : Caller k c) {b : BlockedOn T S} (hb : b ≠ .objrem) :
    Control { k with blockedOn := Function.update k.blockedOn c b } L where
  rings := C.rings
  stands := by
    intro t
    by_cases ht : t = c
    · subst ht
      refine stands_idle (C.caller_unlinked hc) (Or.inl hc.waits) hc.sends
        hc.msgTask hc.retTask hc.bits ?_ (C.stands t).running
        (C.stands t).magic
      show Function.update k.blockedOn t b t ≠ .objrem
      rw [Function.update_self]
      exact hb
    · exact (C.stands t).transport (fun _ => Iff.rfl) rfl
        (Function.update_of_ne ht ..) rfl rfl rfl rfl rfl (fun _ _ h => h)
        Or.inl
  semMagic := C.semMagic

end Facts

end RtaiControl
