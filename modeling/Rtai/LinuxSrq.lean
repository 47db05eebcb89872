import Rtai.Runs

/-! # rtai_hal.c: Linux service requests

    `rt_pend_linux_srq` sets a bit and pends a virtual interrupt on the CPU it
    runs on; the interrupt starts `rtai_lsrq_dispatcher` there.  `P` are the
    tasks that pend, `D` the activations of the dispatcher, each on its CPU
    `on d`, `H` the handlers.

    Every access to a shared word is a step of its own.  The two operands of
    the loop's test may be read in either order. -/

namespace RtaiLinuxSrq

open RtaiRuns

/-- The number of requests. -/
def RTAI_NR_SRQS : Nat := 32

/-- The errors. -/
def EINVAL : Int := 22

def EBUSY : Int := 16

/-- A bit of an `unsigned long`. -/
abbrev Srq := Fin 64

/-- A word with a bit for each request. -/
abbrev Mask := Finset Srq

/-- The lowest bit that is set. -/
def ffnz (word : Mask) : Option Srq :=
  (List.finRange 64).find? fun b => b ∈ word

/-- The lowest bit that is not set. -/
def ffz (word : Mask) : Option Srq :=
  (List.finRange 64).find? fun b => b ∉ word

theorem ffnz_mem {word : Mask} {b : Srq} (h : ffnz word = some b) : b ∈ word := by
  have hb := List.find?_some h
  exact of_decide_eq_true hb

theorem ffnz_none {word : Mask} (h : ffnz word = none) (b : Srq) : b ∉ word := by
  have hb := List.find?_eq_none.mp h b (List.mem_finRange b)
  exact fun hmem => hb (decide_eq_true hmem)

theorem ffz_not_mem {word : Mask} {b : Srq} (h : ffz word = some b) : b ∉ word := by
  have hb := List.find?_some h
  exact of_decide_eq_true hb

/-- An entry of `rtai_sysreq_table`. -/
structure Entry (H : Type) where
  kHandler : Option H
  uHandler : Option H
  label : Nat

/-- Where an activation of `rtai_lsrq_dispatcher` stands. -/
inductive Pc where
  | idle
  /-- At `spin_lock`. -/
  | locking
  /-- At the test of the loop, with the operands it has read. -/
  | testing (pending running : Option Mask)
  /-- The bit of `rtai_sysreq_running` is set. -/
  | marked (srq : Srq)
  /-- The bit of `rtai_sysreq_pending` is cleared. -/
  | cleared (srq : Srq)
  /-- The lock is released. -/
  | unlocked (srq : Srq)
  /-- In `k_handler_withargs`. -/
  | handling (srq : Srq)
  | leaving (srq : Srq)
  deriving DecidableEq

/-- What a run has to be judged by: the calls of `rt_pend_linux_srq` and the
    starts of handlers. -/
inductive Event (P H : Type) where
  | pended (p : P) (srq : Nat)
  | started (srq : Srq) (entry : Entry H)

/-- The requests, the lock and the CPUs. -/
structure Srqs (D P C H : Type) where
  /-- `rtai_sysreq_table`, and what lies behind its end. -/
  table : Srq → Entry H
  /-- `rtai_sysreq_map`, `rtai_sysreq_pending`, `rtai_sysreq_running` -/
  map : Mask
  pending : Mask
  running : Mask
  /-- `rtai_lsrq_lock` -/
  locked : Bool
  /-- `rtai_sysreq_virq` is pended on this CPU. -/
  virq : C → Bool
  disp : D → Pc
  /-- A task in `rt_pend_linux_srq` that has set its bit. -/
  call : P → Option Srq
  /-- The events so far, the latest first. -/
  log : List (Event P H)

/-- The sections. -/
inductive Action (D P C H : Type) where
  /-- `rt_pend_linux_srq` is called. -/
  | pend (p : P) (srq : Nat)
  /-- `hal_pend_uncond` on the CPU the task then runs on. -/
  | pendVirq (p : P) (cpu : C)
  | request (label : Nat) (kHandler uHandler : Option H)
  | free (srq : Nat)
  /-- The virtual interrupt starts a dispatcher. -/
  | enter (d : D)
  | readPending (d : D)
  | readRunning (d : D)
  /-- The dispatcher goes on. -/
  | advance (d : D)

section Model

variable {D P C H : Type} [decD : DecidableEq D] [decP : DecidableEq P] [decC : DecidableEq C]

/-- `rt_request_srq` -/
def rtRequestSrq (st : Srqs D P C H) (label : Nat) (kHandler uHandler : Option H) :
    Srqs D P C H × Int :=
  match kHandler with
  | none => (st, -EINVAL)
  | some h =>
    match ffz st.map with
    | some srq =>
      ({ st with
        map := insert srq st.map
        table := Function.update st.table srq ⟨some h, uHandler, label⟩ },
        srq)
    | none => (st, -EBUSY)

/-- `rt_free_srq` -/
def rtFreeSrq (st : Srqs D P C H) (srq : Nat) : Srqs D P C H × Int :=
  if h : srq < 64 then
    if srq < 1 ∨ srq ≥ RTAI_NR_SRQS ∨ ⟨srq, h⟩ ∉ st.map then (st, -EINVAL)
    else ({ st with map := st.map.erase ⟨srq, h⟩ }, 0)
  else (st, -EINVAL)

/-- `rt_pend_linux_srq` up to `set_bit`. -/
def rtPendLinuxSrq (st : Srqs D P C H) (p : P) (srq : Nat) : Srqs D P C H :=
  let st := { st with log := .pended p srq :: st.log }
  if h : srq < 64 then
    if srq > 0 ∧ srq < RTAI_NR_SRQS then
      { st with
        pending := insert ⟨srq, h⟩ st.pending
        call := Function.update st.call p (some ⟨srq, h⟩) }
    else st
  else st

/-- The next step of `rtai_lsrq_dispatcher`. -/
def dispatcherStep (st : Srqs D P C H) (d : D) : Option (Srqs D P C H) :=
  match st.disp d with
  | .idle => none
  | .locking =>
    if st.locked then none
    else some { st with
      locked := true
      disp := Function.update st.disp d (.testing none none) }
  | .testing (some pending) (some running) =>
    match ffnz (pending \ running) with
    | some srq =>
      some { st with
        running := insert srq st.running
        disp := Function.update st.disp d (.marked srq) }
    | none =>
      some { st with
        locked := false
        disp := Function.update st.disp d .idle }
  | .testing _ _ => none
  | .marked srq =>
    some { st with
      pending := st.pending.erase srq
      disp := Function.update st.disp d (.cleared srq) }
  | .cleared srq =>
    some { st with
      locked := false
      disp := Function.update st.disp d (.unlocked srq) }
  | .unlocked srq =>
    if srq ∈ st.map then
      some { st with
        log := .started srq (st.table srq) :: st.log
        disp := Function.update st.disp d (.handling srq) }
    else some { st with disp := Function.update st.disp d (.leaving srq) }
  | .handling srq =>
    some { st with disp := Function.update st.disp d (.leaving srq) }
  | .leaving srq =>
    some { st with
      running := st.running.erase srq
      disp := Function.update st.disp d .locking }

/-- One operand of the test is read. -/
def readOperand (st : Srqs D P C H) (d : D) (ofPending : Bool) : Option (Srqs D P C H) :=
  match st.disp d, ofPending with
  | .testing none running, true =>
    some { st with
      disp := Function.update st.disp d (.testing (some st.pending) running) }
  | .testing pending none, false =>
    some { st with
      disp := Function.update st.disp d (.testing pending (some st.running)) }
  | _, _ => none

/-- One step of the system, with the value returned by a call that ends. -/
def srqStep (on : D → C) (st : Srqs D P C H) :
    Action D P C H → Option (Srqs D P C H × Option Int)
  | .pend p srq =>
    if st.call p = none then some (rtPendLinuxSrq st p srq, none) else none
  | .pendVirq p cpu =>
    if st.call p = none then none
    else some ({ st with
      virq := Function.update st.virq cpu true
      call := Function.update st.call p none }, none)
  | .request label kHandler uHandler =>
    let r := rtRequestSrq st label kHandler uHandler
    some (r.1, some r.2)
  | .free srq =>
    let r := rtFreeSrq st srq
    some (r.1, some r.2)
  | .enter d =>
    if st.disp d = .idle ∧ st.virq (on d) = true then
      some ({ st with
        virq := Function.update st.virq (on d) false
        disp := Function.update st.disp d .locking }, none)
    else none
  | .readPending d => (readOperand st d true).map (·, none)
  | .readRunning d => (readOperand st d false).map (·, none)
  | .advance d => (dispatcherStep st d).map (·, none)

/-- Some services are registered, nothing has been pended yet. -/
def start (table : Srq → Entry H) (map : Mask) : Srqs D P C H where
  table := table
  map := map
  pending := ∅
  running := ∅
  locked := false
  virq := fun _ => false
  disp := fun _ => .idle
  call := fun _ => none
  log := []

end Model

/-! ## Places of a dispatcher -/

/-- It holds `rtai_lsrq_lock`. -/
def Pc.Holds : Pc → Prop
  | .testing _ _ => True
  | .marked _ => True
  | .cleared _ => True
  | _ => False

/-- It has set the running bit of `srq`. -/
def Pc.Serves (srq : Srq) : Pc → Prop
  | .marked x => x = srq
  | .cleared x => x = srq
  | .unlocked x => x = srq
  | .handling x => x = srq
  | .leaving x => x = srq
  | _ => False

/-- It has taken the pending bit of `srq` and not yet started the handler. -/
def Pc.Claims (srq : Srq) : Pc → Prop
  | .cleared x => x = srq
  | .unlocked x => x = srq
  | _ => False

/-- It will come to the test of the loop with the lock still to be taken. -/
def Pc.Returns (srq : Srq) : Pc → Prop
  | .locking => True
  | .unlocked x => x = srq
  | .handling x => x = srq
  | .leaving x => x = srq
  | _ => False

/-- If the pending bit of `srq` is set and stays so, the dispatcher's next
    test finds it, or there is a next round. -/
def Pc.Looks (srq : Srq) : Pc → Prop
  | .idle => False
  | .testing (some pending) running =>
    srq ∈ pending ∧ ∀ r, running = some r → srq ∉ r
  | _ => True

/-! ## What holds in every state -/

section Invariant

variable {D P C H : Type}

/-- The lock has one holder. -/
structure LockInv (st : Srqs D P C H) : Prop where
  held : ∀ d, (st.disp d).Holds → st.locked = true
  one : ∀ d d', (st.disp d).Holds → (st.disp d').Holds → d = d'

/-- The running bits are those of the services that a dispatcher has in hand,
    each of them one.  A bit that a test has read as set belongs to a
    dispatcher that has still to take the lock. -/
structure RunInv (st : Srqs D P C H) : Prop where
  serves : ∀ d srq, (st.disp d).Serves srq → srq ∈ st.running
  alone : ∀ d d' srq, (st.disp d).Serves srq → (st.disp d').Serves srq → d = d'
  served : ∀ srq, srq ∈ st.running → ∃ d, (st.disp d).Serves srq
  read : ∀ d p r, st.disp d = .testing p (some r) → st.running ⊆ r
  returns : ∀ d p r srq, st.disp d = .testing p (some r) → srq ∈ r →
    ∃ d', (st.disp d').Returns srq

/-- Since some pend of `s` the handler has not been started. -/
def Asked (s : Srq) (st : Srqs D P C H) : Prop :=
  ∃ p l₁ l₂, st.log = l₁ ++ .pended p s :: l₂ ∧ ∀ e, .started s e ∉ l₁

/-- The call of `rt_pend_linux_srq` with which `p` has begun before the events
    `later` has not come to its end. -/
def InCall (st : Srqs D P C H) (p : P) (later : List (Event P H)) : Prop :=
  st.call p ≠ none ∧ ∀ srq, .pended p srq ∉ later

/-- Since some pend of `s` that is over the handler has not been started. -/
def Due (s : Srq) (st : Srqs D P C H) : Prop :=
  ∃ p l₁ l₂, st.log = l₁ ++ .pended p s :: l₂ ∧ (∀ e, .started s e ∉ l₁) ∧ ¬ InCall st p l₁

/-- What has been pended is still known, and somebody will look at it. -/
structure DueInv (s : Srq) (st : Srqs D P C H) : Prop where
  registered : s ∈ st.map
  entry : ∀ e, .started s e ∈ st.log → e = st.table s
  asked : Asked s st → s ∈ st.pending ∨ ∃ d, (st.disp d).Claims s
  due : Due s st → s ∈ st.pending → (∃ c, st.virq c = true) ∨ ∃ d, (st.disp d).Looks s

/-- What is pending will be serviced. -/
structure SrqInv (s : Srq) (st : Srqs D P C H) : Prop where
  lock : LockInv st
  run : RunInv st
  due : DueInv s st

end Invariant

/-! ## One dispatcher moves -/

section Moves

variable {D P C H : Type} [decD : DecidableEq D] {st st' : Srqs D P C H} {d : D} {pc : Pc}
  {s : Srq}

theorem Pc.Serves.looks {pc : Pc} {srq x : Srq} (h : pc.Serves srq) :
    pc.Looks x := by
  cases pc with
  | idle => exact h.elim
  | locking => exact h.elim
  | testing p r => exact h.elim
  | _ => trivial

theorem Pc.Returns.looks {pc : Pc} {srq x : Srq} (h : pc.Returns srq) :
    pc.Looks x := by
  cases pc with
  | idle => exact h.elim
  | testing p r => exact h.elim
  | _ => trivial

/-- Somebody else's place stays, one's own is the new one. -/
theorem exists_moved {Q : Pc → Prop} (hd : st'.disp = Function.update st.disp d pc)
    (h : Q pc ∨ ∃ d', d' ≠ d ∧ Q (st.disp d')) : ∃ d', Q (st'.disp d') := by
  rw [hd]
  rcases h with hpc | ⟨d', hne, hQ⟩
  · exact ⟨d, by rw [Function.update_self]; exact hpc⟩
  · exact ⟨d', by rw [Function.update_of_ne hne]; exact hQ⟩

theorem exists_kept {Q : Pc → Prop} (hd : st'.disp = Function.update st.disp d pc)
    (hpc : Q (st.disp d) → Q pc ∨ ∃ d', d' ≠ d ∧ Q (st.disp d'))
    (h : ∃ d', Q (st.disp d')) : ∃ d', Q (st'.disp d') := by
  obtain ⟨d', hQ⟩ := h
  by_cases hne : d' = d
  · rw [hne] at hQ
    exact exists_moved hd (hpc hQ)
  · exact exists_moved hd (.inr ⟨d', hne, hQ⟩)

/-- What is known of the places before the step and of the new one is known
    of the places after it. -/
theorem forall_moved {R : D → Pc → Prop}
    (hd : st'.disp = Function.update st.disp d pc) (hpc : R d pc)
    (h : ∀ d', d' ≠ d → R d' (st.disp d')) : ∀ d', R d' (st'.disp d') := by
  intro d'
  rw [hd]
  by_cases hne : d' = d
  · rw [hne, Function.update_self]
    exact hpc
  · rw [Function.update_of_ne hne]
    exact h d' hne

theorem LockInv.moved (L : LockInv st) (hd : st'.disp = Function.update st.disp d pc)
    (hl : st'.locked = st.locked) (hp : pc.Holds → (st.disp d).Holds) :
    LockInv st' := by
  have hold : ∀ d', (st'.disp d').Holds → (st.disp d').Holds :=
    forall_moved (R := fun d' pc' => pc'.Holds → (st.disp d').Holds) hd hp fun d' _ h => h
  constructor
  · intro d' h
    rw [hl]
    exact L.held d' (hold d' h)
  · intro d' d'' h' h''
    exact L.one d' d'' (hold d' h') (hold d'' h'')

theorem LockInv.taken (L : LockInv st)
    (hd : st'.disp = Function.update st.disp d pc) (hfree : st.locked = false)
    (hl : st'.locked = true) : LockInv st' := by
  have honly : ∀ d', (st'.disp d').Holds → d' = d :=
    forall_moved (R := fun d' pc' => pc'.Holds → d' = d) hd (fun _ => rfl)
      fun d' _ h => by
        have := L.held d' h
        rw [hfree] at this
        exact nomatch this
  exact ⟨fun _ _ => hl, fun d' d'' h' h'' =>
    (honly d' h').trans (honly d'' h'').symm⟩

theorem LockInv.released (L : LockInv st)
    (hd : st'.disp = Function.update st.disp d pc) (hheld : (st.disp d).Holds)
    (hp : ¬ pc.Holds) : LockInv st' := by
  have hnone : ∀ d', ¬ (st'.disp d').Holds :=
    forall_moved (R := fun _ pc' => ¬ pc'.Holds) hd hp fun d' hne h => hne (L.one d' d h hheld)
  exact ⟨fun d' h => (hnone d' h).elim, fun d' _ h => (hnone d' h).elim⟩

/-- A step that leaves the running bits alone. -/
theorem RunInv.moved (R : RunInv st) (hd : st'.disp = Function.update st.disp d pc)
    (hr : st'.running = st.running)
    (hs : ∀ srq, pc.Serves srq ↔ (st.disp d).Serves srq)
    (ht : ∀ p r, pc = .testing p (some r) → st.running ⊆ r ∧
      ∀ srq, srq ∈ r → ∃ d', d' ≠ d ∧ (st.disp d').Returns srq)
    (hret : ∀ srq, (st.disp d).Returns srq → pc.Returns srq ∨
      ∀ d' p r, st.disp d' ≠ .testing p (some r)) : RunInv st' := by
  have hsame : ∀ d', ∀ srq, (st'.disp d').Serves srq ↔ (st.disp d').Serves srq :=
    forall_moved (R := fun d' pc' => ∀ srq, pc'.Serves srq ↔ (st.disp d').Serves srq)
      hd hs fun _ _ _ => Iff.rfl
  have htest : ∀ d' p r, st'.disp d' = .testing p (some r) → st.running ⊆ r ∧
        ∀ srq, srq ∈ r → ∃ d'', (st'.disp d'').Returns srq := by
    intro d' p r h
    by_cases hne : d' = d
    · rw [hd, hne, Function.update_self] at h
      obtain ⟨hsub, hex⟩ := ht p r h
      exact ⟨hsub, fun srq hmem => exists_moved hd (.inr (hex srq hmem))⟩
    · rw [hd, Function.update_of_ne hne] at h
      refine ⟨R.read d' p r h, fun srq hmem => ?_⟩
      refine exists_kept hd (fun h' => ?_) (R.returns d' p r srq h hmem)
      rcases hret srq h' with hpc | hno
      · exact .inl hpc
      · exact (hno d' p r h).elim
  constructor
  · intro d' srq h
    rw [hr]
    exact R.serves d' srq ((hsame d' srq).mp h)
  · intro d' d'' srq h' h''
    exact R.alone d' d'' srq ((hsame d' srq).mp h') ((hsame d'' srq).mp h'')
  · intro srq hmem
    rw [hr] at hmem
    obtain ⟨d', h⟩ := R.served srq hmem
    exact ⟨d', (hsame d' srq).mpr h⟩
  · intro d' p r h
    rw [hr]
    exact (htest d' p r h).1
  · intro d' p r srq h hmem
    exact (htest d' p r h).2 srq hmem

omit decD in
/-- The only dispatcher at a test is the one that holds the lock. -/
theorem LockInv.tester (L : LockInv st) (hheld : (st.disp d).Holds) {d' : D}
    {p r : Option Mask} (h : st.disp d' = .testing p r) : d' = d :=
  L.one d' d (by rw [h]; trivial) hheld

/-- A service is taken in hand. -/
theorem RunInv.marked (R : RunInv st) (L : LockInv st) {p r : Mask} {srq : Srq}
    (h : st.disp d = .testing (some p) (some r))
    (hd : st'.disp = Function.update st.disp d (.marked srq))
    (hr : st'.running = insert srq st.running) (hmem : srq ∉ r) :
    RunInv st' := by
  have hheld : (st.disp d).Holds := by rw [h]; trivial
  -- the test has read all running bits that are set now
  have hfresh : srq ∉ st.running := fun hin => hmem (R.read d _ _ h hin)
  have hown : ∀ x, ¬ (st.disp d).Serves x := by
    intro x
    rw [h]
    exact fun hx => hx.elim
  have hserves : ∀ d', ∀ x, (st'.disp d').Serves x →
      (d' = d ∧ x = srq) ∨ (d' ≠ d ∧ (st.disp d').Serves x) :=
    forall_moved (R := fun d' pc' => ∀ x, pc'.Serves x →
        (d' = d ∧ x = srq) ∨ (d' ≠ d ∧ (st.disp d').Serves x))
      hd (fun x hx => .inl ⟨rfl, hx.symm⟩) fun d' hne x hx => .inr ⟨hne, hx⟩
  have hnotest : ∀ d' p r, st'.disp d' ≠ .testing p r := by
    intro d' p' r'
    rw [hd]
    by_cases hne : d' = d
    · rw [hne, Function.update_self]
      exact nofun
    · rw [Function.update_of_ne hne]
      exact fun ht => hne (L.tester hheld ht)
  constructor
  · intro d' x hx
    rw [hr]
    rcases hserves d' x hx with ⟨-, rfl⟩ | ⟨-, hx⟩
    · exact Finset.mem_insert_self _ _
    · exact Finset.mem_insert_of_mem (R.serves d' x hx)
  · intro d' d'' x h' h''
    rcases hserves d' x h' with ⟨rfl, rfl⟩ | ⟨-, hx'⟩
    · rcases hserves d'' _ h'' with ⟨rfl, -⟩ | ⟨-, hx''⟩
      · rfl
      · exact (hfresh (R.serves d'' _ hx'')).elim
    · rcases hserves d'' x h'' with ⟨-, rfl⟩ | ⟨-, hx''⟩
      · exact (hfresh (R.serves d' _ hx')).elim
      · exact R.alone d' d'' x hx' hx''
  · intro x hx
    rw [hr] at hx
    rcases Finset.mem_insert.mp hx with rfl | hx
    · exact exists_moved hd (.inl rfl)
    · exact exists_kept hd (fun h' => (hown x h').elim) (R.served x hx)
  · intro d' p' r' ht
    exact (hnotest d' p' _ ht).elim
  · intro d' p' r' x ht
    exact (hnotest d' p' _ ht).elim

/-- A service is let go. -/
theorem RunInv.left (R : RunInv st) {srq : Srq} (h : st.disp d = .leaving srq)
    (hd : st'.disp = Function.update st.disp d .locking)
    (hr : st'.running = st.running.erase srq) : RunInv st' := by
  have hmine : (st.disp d).Serves srq := by rw [h]; rfl
  have hserves : ∀ d', ∀ x, (st'.disp d').Serves x → d' ≠ d ∧ (st.disp d').Serves x :=
    forall_moved (R := fun d' pc' => ∀ x, pc'.Serves x → d' ≠ d ∧ (st.disp d').Serves x)
      hd (fun _ hx => hx.elim) fun d' hne x hx => ⟨hne, hx⟩
  have htest : ∀ d', ∀ p r, st'.disp d' = .testing p r → st.disp d' = .testing p r :=
    forall_moved (R := fun d' pc' => ∀ p r, pc' = .testing p r → st.disp d' = .testing p r)
      hd (fun _ _ ht => nomatch ht) fun d' _ p r ht => ht
  constructor
  · intro d' x hx
    obtain ⟨hne, hx⟩ := hserves d' x hx
    rw [hr]
    refine Finset.mem_erase.mpr ⟨?_, R.serves d' x hx⟩
    rintro rfl
    exact hne (R.alone d' d _ hx hmine)
  · intro d' d'' x h' h''
    exact R.alone d' d'' x (hserves d' x h').2 (hserves d'' x h'').2
  · intro x hx
    rw [hr] at hx
    obtain ⟨hne, hx⟩ := Finset.mem_erase.mp hx
    refine exists_kept hd (fun h' => ?_) (R.served x hx)
    rw [h] at h'
    exact (hne h'.symm).elim
  · intro d' p r ht
    rw [hr]
    exact (Finset.erase_subset _ _).trans (R.read d' p r (htest d' p _ ht))
  · intro d' p r x ht hx
    exact exists_kept hd (fun _ => .inl trivial) (R.returns d' p r x (htest d' p _ ht) hx)

/-- A dispatcher moves and nothing is pended or started. -/
theorem DueInv.moved (U : DueInv s st)
    (hd : st'.disp = Function.update st.disp d pc) (hm : st'.map = st.map)
    (hlog : st'.log = st.log) (htab : st'.table = st.table)
    (hcall : st'.call = st.call) (hvirq : st'.virq = st.virq)
    (hpend : st'.pending = st.pending)
    (hc : (st.disp d).Claims s → pc.Claims s)
    (hl : s ∈ st.pending → (st.disp d).Looks s →
      pc.Looks s ∨ ∃ d', d' ≠ d ∧ (st.disp d').Looks s) : DueInv s st' := by
  constructor
  · rw [hm]
    exact U.registered
  · rw [hlog, htab]
    exact U.entry
  · unfold Asked
    rw [hlog, hpend]
    intro h
    rcases U.asked h with hin | hex
    · exact .inl hin
    · exact .inr (exists_kept hd (fun h' => .inl (hc h')) hex)
  · unfold Due InCall
    rw [hlog, hpend, hcall, hvirq]
    intro h hin
    rcases U.due h hin with hv | hex
    · exact .inl hv
    · exact .inr (exists_kept hd (hl hin) hex)

/-- A pending bit is taken. -/
theorem DueInv.cleared (U : DueInv s st) {srq : Srq}
    (hd : st'.disp = Function.update st.disp d (.cleared srq))
    (hold : ¬ (st.disp d).Claims s) (hm : st'.map = st.map)
    (hlog : st'.log = st.log) (htab : st'.table = st.table)
    (hcall : st'.call = st.call) (hvirq : st'.virq = st.virq)
    (hpend : st'.pending = st.pending.erase srq) : DueInv s st' := by
  constructor
  · rw [hm]
    exact U.registered
  · rw [hlog, htab]
    exact U.entry
  · unfold Asked
    rw [hlog, hpend]
    intro h
    by_cases hs : s = srq
    · exact .inr (exists_moved hd (.inl hs.symm))
    · rcases U.asked h with hin | hex
      · exact .inl (Finset.mem_erase.mpr ⟨hs, hin⟩)
      · exact .inr (exists_kept hd (fun h' => (hold h').elim) hex)
  · unfold Due InCall
    rw [hlog, hpend, hcall, hvirq]
    intro h hin
    rcases U.due h (Finset.mem_of_mem_erase hin) with hv | hex
    · exact .inl hv
    · exact .inr (exists_moved hd (.inl trivial))

theorem split_cons {α : Type} {e x : α} {l l₁ l₂ : List α} (h : e :: l = l₁ ++ x :: l₂) :
    (l₁ = [] ∧ e = x ∧ l = l₂) ∨ ∃ l₁', l₁ = e :: l₁' ∧ l = l₁' ++ x :: l₂ := by
  cases l₁ with
  | nil =>
    obtain ⟨he, hl⟩ := List.cons.inj h
    exact .inl ⟨rfl, he, hl⟩
  | cons y l₁' =>
    obtain ⟨he, hl⟩ := List.cons.inj h
    exact .inr ⟨l₁', by rw [he], hl⟩

/-- A handler is started. -/
theorem DueInv.started (U : DueInv s st) {srq : Srq}
    (hd : st'.disp = Function.update st.disp d (.handling srq))
    (hold : st.disp d = .unlocked srq) (hm : st'.map = st.map)
    (hlog : st'.log = .started srq (st.table srq) :: st.log)
    (htab : st'.table = st.table) (hpend : st'.pending = st.pending) :
    DueInv s st' := by
  have hback : ∀ {p l₁ l₂}, st'.log = l₁ ++ .pended p s :: l₂ → (∀ e, .started s e ∉ l₁) →
      srq ≠ s ∧ ∃ l₁', l₁ = .started srq (st.table srq) :: l₁' ∧
        st.log = l₁' ++ .pended p s :: l₂ ∧ ∀ e, .started s e ∉ l₁' := by
    intro p l₁ l₂ h hno
    rw [hlog] at h
    rcases split_cons h with ⟨-, he, -⟩ | ⟨l₁', rfl, hl⟩
    · exact nomatch he
    · refine ⟨?_, l₁', rfl, hl, fun e he => hno e (.tail _ he)⟩
      rintro rfl
      exact hno _ (.head _)
  constructor
  · rw [hm]
    exact U.registered
  · rw [hlog, htab]
    intro e he
    rcases List.mem_cons.mp he with heq | he
    · obtain ⟨rfl, rfl⟩ := Event.started.inj heq
      rfl
    · exact U.entry e he
  · rintro ⟨p, l₁, l₂, h, hno⟩
    obtain ⟨hne, l₁', -, hl, hno'⟩ := hback h hno
    rw [hpend]
    rcases U.asked ⟨p, l₁', l₂, hl, hno'⟩ with hin | hex
    · exact .inl hin
    · refine .inr (exists_kept hd (fun h' => ?_) hex)
      rw [hold] at h'
      exact (hne h').elim
  · rintro ⟨p, l₁, l₂, h, hno, hout⟩ -
    exact .inr (exists_moved hd (.inl trivial))

end Moves

/-! ## Every step -/

section Steps

variable {D P C H : Type} [decD : DecidableEq D] [decP : DecidableEq P] [decC : DecidableEq C]
  {st st' : Srqs D P C H} {d : D} {s : Srq}

omit decP decC in
/-- The dispatcher goes from one place to another with no bit changed. -/
theorem SrqInv.walks (I : SrqInv s st) {pc : Pc}
    (hs : ∀ srq, pc.Serves srq ↔ (st.disp d).Serves srq)
    (hnt : ∀ p r, pc ≠ .testing p r) (hp : ¬ pc.Holds)
    (hret : ∀ srq, (st.disp d).Returns srq → pc.Returns srq)
    (hc : (st.disp d).Claims s → pc.Claims s) (hl : pc.Looks s) :
    SrqInv s { st with disp := Function.update st.disp d pc } := by
  constructor
  · exact I.lock.moved rfl rfl fun h => (hp h).elim
  · exact I.run.moved rfl rfl hs (fun p r h => (hnt _ _ h).elim) fun srq h => .inl (hret srq h)
  · exact I.due.moved rfl rfl rfl rfl rfl rfl rfl hc fun _ _ => .inl hl

omit decP decC in
theorem SrqInv.locks (I : SrqInv s st) (hpc : st.disp d = .locking)
    (hfree : st.locked = false) :
    SrqInv s { st with
      locked := true
      disp := Function.update st.disp d (.testing none none) } := by
  constructor
  · exact I.lock.taken rfl hfree rfl
  · refine I.run.moved rfl rfl (fun srq => ?_) (fun p r h => ?_)
      fun srq _ => .inr fun d' p r h => ?_
    · rw [hpc]
      exact Iff.rfl
    · exact nomatch (Pc.testing.inj h).2
    · have := I.lock.held d' (by rw [h]; trivial)
      rw [hfree] at this
      exact nomatch this
  · refine I.due.moved rfl rfl rfl rfl rfl rfl rfl (fun h => ?_) fun _ _ => .inl trivial
    rw [hpc] at h
    exact h.elim

omit decP decC in
/-- The test finds a service to be run. -/
theorem SrqInv.picks (I : SrqInv s st) {p r : Mask} {srq : Srq}
    (hpc : st.disp d = .testing (some p) (some r))
    (hpick : ffnz (p \ r) = some srq) :
    SrqInv s { st with
      running := insert srq st.running
      disp := Function.update st.disp d (.marked srq) } := by
  constructor
  · exact I.lock.moved rfl rfl fun _ => by rw [hpc]; trivial
  · exact I.run.marked I.lock hpc rfl rfl (Finset.mem_sdiff.mp (ffnz_mem hpick)).2
  · refine I.due.moved rfl rfl rfl rfl rfl rfl rfl (fun h => ?_) fun _ _ => .inl trivial
    rw [hpc] at h
    exact h.elim

omit decP decC in
/-- The test finds nothing to be run. -/
theorem SrqInv.exits (I : SrqInv s st) {p r : Mask}
    (hpc : st.disp d = .testing (some p) (some r))
    (hpick : ffnz (p \ r) = none) :
    SrqInv s { st with
      locked := false
      disp := Function.update st.disp d .idle } := by
  constructor
  · exact I.lock.released rfl (by rw [hpc]; trivial) id
  · refine I.run.moved rfl rfl (fun srq => ?_) nofun fun srq h => ?_
    · rw [hpc]
      exact Iff.rfl
    · rw [hpc] at h
      exact h.elim
  · refine I.due.moved rfl rfl rfl rfl rfl rfl rfl (fun h => ?_) fun _ h => ?_
    · rw [hpc] at h
      exact h.elim
    · -- a set bit that the test has read would have been found
      rw [hpc] at h
      exact (ffnz_none hpick s (Finset.mem_sdiff.mpr ⟨h.1, h.2 r rfl⟩)).elim

omit decP decC in
theorem SrqInv.clears (I : SrqInv s st) {srq : Srq} (hpc : st.disp d = .marked srq) :
    SrqInv s { st with
      pending := st.pending.erase srq
      disp := Function.update st.disp d (.cleared srq) } := by
  constructor
  · exact I.lock.moved rfl rfl fun _ => by rw [hpc]; trivial
  · refine I.run.moved rfl rfl (fun x => ?_) nofun fun x h => ?_
    · rw [hpc]
      exact Iff.rfl
    · rw [hpc] at h
      exact h.elim
  · refine I.due.cleared rfl (fun h => ?_) rfl rfl rfl rfl rfl rfl
    rw [hpc] at h
    exact h.elim

omit decP decC in
theorem SrqInv.unlocks (I : SrqInv s st) {srq : Srq} (hpc : st.disp d = .cleared srq) :
    SrqInv s { st with
      locked := false
      disp := Function.update st.disp d (.unlocked srq) } := by
  constructor
  · exact I.lock.released rfl (by rw [hpc]; trivial) id
  · refine I.run.moved rfl rfl (fun x => ?_) nofun fun x h => ?_
    · rw [hpc]
      exact Iff.rfl
    · rw [hpc] at h
      exact h.elim
  · refine I.due.moved rfl rfl rfl rfl rfl rfl rfl (fun h => ?_) fun _ _ => .inl trivial
    rw [hpc] at h
    exact h

omit decP decC in
theorem SrqInv.runs (I : SrqInv s st) {srq : Srq} (hpc : st.disp d = .unlocked srq) :
    SrqInv s { st with
      log := .started srq (st.table srq) :: st.log
      disp := Function.update st.disp d (.handling srq) } := by
  constructor
  · exact I.lock.moved rfl rfl fun h => h.elim
  · refine I.run.moved rfl rfl (fun x => ?_) nofun fun x h => ?_
    · rw [hpc]
      exact Iff.rfl
    · rw [hpc] at h
      exact .inl h
  · exact I.due.started rfl hpc rfl rfl rfl rfl

omit decP decC in
theorem SrqInv.leaves (I : SrqInv s st) {srq : Srq} (hpc : st.disp d = .leaving srq) :
    SrqInv s { st with
      running := st.running.erase srq
      disp := Function.update st.disp d .locking } := by
  constructor
  · exact I.lock.moved rfl rfl fun h => h.elim
  · exact I.run.left hpc rfl rfl
  · refine I.due.moved rfl rfl rfl rfl rfl rfl rfl (fun h => ?_) fun _ _ => .inl trivial
    rw [hpc] at h
    exact h.elim

omit decP decC in
theorem SrqInv.advance (I : SrqInv s st) (h : dispatcherStep st d = some st') :
    SrqInv s st' := by
  simp only [dispatcherStep] at h
  cases hpc : st.disp d with
  | idle =>
    rw [hpc] at h
    exact nomatch h
  | locking =>
    rw [hpc] at h
    cases hl : st.locked with
    | true =>
      rw [hl] at h
      exact nomatch h
    | false =>
      rw [hl] at h
      cases h
      exact I.locks hpc hl
  | testing p r =>
    rw [hpc] at h
    cases p with
    | none => exact nomatch h
    | some p =>
      cases r with
      | none => exact nomatch h
      | some r =>
        cases hpick : ffnz (p \ r) with
        | some srq =>
          simp only [hpick] at h
          cases h
          exact I.picks hpc hpick
        | none =>
          simp only [hpick] at h
          cases h
          exact I.exits hpc hpick
  | marked srq =>
    rw [hpc] at h
    cases h
    exact I.clears hpc
  | cleared srq =>
    rw [hpc] at h
    cases h
    exact I.unlocks hpc
  | unlocked srq =>
    rw [hpc] at h
    by_cases hmem : srq ∈ st.map
    · simp only [if_pos hmem] at h
      cases h
      exact I.runs hpc
    · simp only [if_neg hmem] at h
      cases h
      -- an unregistered service is not `s`
      refine I.walks (fun x => ?_) nofun id (fun x hx => ?_) (fun hx => ?_) trivial
      · rw [hpc]
        exact Iff.rfl
      · rw [hpc] at hx
        exact hx
      · rw [hpc] at hx
        have hx : srq = s := hx
        rw [hx] at hmem
        exact (hmem I.due.registered).elim
  | handling srq =>
    rw [hpc] at h
    cases h
    refine I.walks (fun x => ?_) nofun id (fun x hx => ?_) (fun hx => ?_) trivial
    · rw [hpc]
      exact Iff.rfl
    · rw [hpc] at hx
      exact hx
    · rw [hpc] at hx
      exact hx.elim
  | leaving srq =>
    rw [hpc] at h
    cases h
    exact I.leaves hpc

omit decP decC in
/-- The pending bits are read. -/
theorem SrqInv.readsPending (I : SrqInv s st) {running : Option Mask}
    (hpc : st.disp d = .testing none running) :
    SrqInv s { st with
      disp := Function.update st.disp d (.testing (some st.pending) running) } := by
  have hother : ∀ r srq, running = some r → srq ∈ r →
      ∃ d', d' ≠ d ∧ (st.disp d').Returns srq := by
    rintro r srq rfl hmem
    obtain ⟨d', h⟩ := I.run.returns d _ r srq hpc hmem
    refine ⟨d', ?_, h⟩
    rintro rfl
    rw [hpc] at h
    exact h
  constructor
  · exact I.lock.moved rfl rfl fun _ => by rw [hpc]; trivial
  · refine I.run.moved rfl rfl (fun x => ?_) (fun p r h => ?_) fun x h => ?_
    · rw [hpc]
      exact Iff.rfl
    · obtain ⟨-, rfl⟩ := Pc.testing.inj h
      exact ⟨I.run.read d _ r hpc, fun srq => hother r srq rfl⟩
    · rw [hpc] at h
      exact h.elim
  · refine I.due.moved rfl rfl rfl rfl rfl rfl rfl (fun h => ?_) fun hin _ => ?_
    · rw [hpc] at h
      exact h.elim
    · cases running with
      | none => exact .inl ⟨hin, nofun⟩
      | some r =>
        by_cases hr : s ∈ r
        · -- whoever had `s` in hand then will come back to the test
          obtain ⟨d', hne, h⟩ := hother r s rfl hr
          exact .inr ⟨d', hne, h.looks⟩
        · refine .inl ⟨hin, fun r' hr' => ?_⟩
          cases hr'
          exact hr

omit decP decC in
/-- The running bits are read. -/
theorem SrqInv.readsRunning (I : SrqInv s st) {pending : Option Mask}
    (hpc : st.disp d = .testing pending none) :
    SrqInv s { st with
      disp := Function.update st.disp d (.testing pending (some st.running)) } := by
  have hother : ∀ srq, srq ∈ st.running → ∃ d', d' ≠ d ∧ (st.disp d').Serves srq := by
    intro srq hmem
    obtain ⟨d', h⟩ := I.run.served srq hmem
    refine ⟨d', ?_, h⟩
    rintro rfl
    rw [hpc] at h
    exact h
  constructor
  · exact I.lock.moved rfl rfl fun _ => by rw [hpc]; trivial
  · refine I.run.moved rfl rfl (fun x => ?_) (fun p r h => ?_) fun x h => ?_
    · rw [hpc]
      exact Iff.rfl
    · obtain ⟨-, hr⟩ := Pc.testing.inj h
      cases hr
      refine ⟨Finset.Subset.refl _, fun srq hmem => ?_⟩
      obtain ⟨d', hne, hs⟩ := hother srq hmem
      refine ⟨d', hne, ?_⟩
      -- the lock is held by `d`
      have hh : ¬ (st.disp d').Holds := fun hh =>
        hne (I.lock.one d' d hh (by rw [hpc]; trivial))
      cases hd' : st.disp d' with
      | idle => rw [hd'] at hs; exact hs.elim
      | locking => trivial
      | testing p r => rw [hd'] at hs; exact hs.elim
      | marked x => rw [hd'] at hh; exact (hh trivial).elim
      | cleared x => rw [hd'] at hh; exact (hh trivial).elim
      | unlocked x => rw [hd'] at hs; exact hs
      | handling x => rw [hd'] at hs; exact hs
      | leaving x => rw [hd'] at hs; exact hs
    · rw [hpc] at h
      exact h.elim
  · refine I.due.moved rfl rfl rfl rfl rfl rfl rfl (fun h => ?_) fun _ h => ?_
    · rw [hpc] at h
      exact h.elim
    · cases pending with
      | none => exact .inl trivial
      | some p =>
        rw [hpc] at h
        by_cases hr : s ∈ st.running
        · obtain ⟨d', hne, h'⟩ := hother s hr
          exact .inr ⟨d', hne, h'.looks⟩
        · refine .inl ⟨h.1, fun r' hr' => ?_⟩
          cases hr'
          exact hr

omit decP decC in
theorem SrqInv.readOperand (I : SrqInv s st) {ofPending : Bool}
    (h : readOperand st d ofPending = some st') : SrqInv s st' := by
  delta RtaiLinuxSrq.readOperand at h
  cases hpc : st.disp d with
  | testing pending running =>
    rw [hpc] at h
    cases ofPending with
    | true =>
      cases pending with
      | none =>
        rw [← Option.some.inj h]
        exact I.readsPending hpc
      | some _ =>
        cases running with
        | none => exact nomatch h
        | some _ => exact nomatch h
    | false =>
      cases running with
      | none =>
        cases pending with
        | none =>
          rw [← Option.some.inj h]
          exact I.readsRunning hpc
        | some _ =>
          rw [← Option.some.inj h]
          exact I.readsRunning hpc
      | some _ =>
        cases pending with
        | none => exact nomatch h
        | some _ => exact nomatch h
  | _ =>
    rw [hpc] at h
    exact nomatch h

omit decP decC in
/-- The virtual interrupt is taken. -/
theorem SrqInv.enter (I : SrqInv s st) (hpc : st.disp d = .idle) (virq : C → Bool) :
    SrqInv s { st with
      virq := virq
      disp := Function.update st.disp d .locking } := by
  constructor
  · exact I.lock.moved rfl rfl fun h => h.elim
  · refine I.run.moved rfl rfl (fun x => ?_) nofun fun x h => ?_
    · rw [hpc]
      exact Iff.rfl
    · rw [hpc] at h
      exact h.elim
  · refine ⟨I.due.registered, I.due.entry, fun h => ?_, fun _ _ => ?_⟩
    · rcases I.due.asked h with hin | hex
      · exact .inl hin
      · refine .inr (exists_kept rfl (fun h' => ?_) hex)
        rw [hpc] at h'
        exact h'.elim
    · exact .inr (exists_moved rfl (.inl trivial))

omit decD decP decC in
/-- The dispatchers do not see what else changes. -/
theorem SrqInv.other (I : SrqInv s st) (hd : st'.disp = st.disp)
    (hl : st'.locked = st.locked) (hr : st'.running = st.running)
    (U : DueInv s st') : SrqInv s st' := by
  refine ⟨⟨?_, ?_⟩, ⟨?_, ?_, ?_, ?_, ?_⟩, U⟩
  · rw [hd, hl]
    exact I.lock.held
  · rw [hd]
    exact I.lock.one
  · rw [hd, hr]
    exact I.run.serves
  · rw [hd]
    exact I.run.alone
  · rw [hd, hr]
    exact I.run.served
  · rw [hd, hr]
    exact I.run.read
  · rw [hd]
    exact I.run.returns

omit decD decC in
/-- A pend of another service, or one that is refused, is only recorded. -/
theorem DueInv.logged (U : DueInv s st) {p : P} (srq : Nat)
    (call : Option Srq) (hcall : st.call p = none) (hne : srq ≠ s)
    {pending : Mask} (hsub : st.pending ⊆ pending)
    (hs : s ∈ pending → s ∈ st.pending) :
    DueInv s { st with
      log := .pended p srq :: st.log
      pending := pending
      call := Function.update st.call p call } := by
  have hback : ∀ {q l₁ l₂}, .pended p srq :: st.log = l₁ ++ .pended q ↑s :: l₂ →
      ∃ l₁', l₁ = .pended p srq :: l₁' ∧ st.log = l₁' ++ .pended q s :: l₂ := by
    intro q l₁ l₂ h
    rcases split_cons h with ⟨-, he, -⟩ | hl
    · exact (hne (Event.pended.inj he).2).elim
    · exact hl
  refine ⟨U.registered, fun e he => ?_, ?_, ?_⟩
  · rcases List.mem_cons.mp he with heq | he
    · exact nomatch heq
    · exact U.entry e he
  · rintro ⟨q, l₁, l₂, h, hno⟩
    obtain ⟨l₁', rfl, hl⟩ := hback h
    rcases U.asked ⟨q, l₁', l₂, hl, fun e he => hno e (.tail _ he)⟩ with
      hin | hex
    · exact .inl (hsub hin)
    · exact .inr hex
  · rintro ⟨q, l₁, l₂, h, hno, hout⟩ hin
    obtain ⟨l₁', rfl, hl⟩ := hback h
    refine U.due ⟨q, l₁', l₂, hl, fun e he => hno e (.tail _ he), ?_⟩ (hs hin)
    rintro ⟨hc, hlater⟩
    by_cases hq : q = p
    · rw [hq] at hc
      exact hc hcall
    · refine hout ⟨?_, fun x hx => ?_⟩
      · show Function.update st.call p call q ≠ none
        rw [Function.update_of_ne hq]
        exact hc
      · rcases List.mem_cons.mp hx with heq | hx
        · exact hq (Event.pended.inj heq).1
        · exact hlater x hx

omit decD decC in
/-- A pend of `s` itself. -/
theorem DueInv.pended (U : DueInv s st) {p : P} (hcall : st.call p = none) :
    DueInv s { st with
      log := .pended p s :: st.log
      pending := insert s st.pending
      call := Function.update st.call p (some s) } := by
  refine ⟨U.registered, fun e he => ?_, fun _ => .inl (Finset.mem_insert_self _ _), ?_⟩
  · rcases List.mem_cons.mp he with heq | he
    · exact nomatch heq
    · exact U.entry e he
  · rintro ⟨q, l₁, l₂, h, hno, hout⟩ -
    rcases split_cons h with ⟨rfl, he, -⟩ | ⟨l₁', rfl, hl⟩
    · -- this call has not ended
      cases he
      refine (hout ⟨?_, fun _ => List.not_mem_nil⟩).elim
      show Function.update st.call p (some s) p ≠ none
      rw [Function.update_self]
      exact nofun
    · have hno' : ∀ e, .started s e ∉ l₁' := fun e he => hno e (.tail _ he)
      have hdue : Due s st := by
        refine ⟨q, l₁', l₂, hl, hno', ?_⟩
        rintro ⟨hc, hlater⟩
        by_cases hq : q = p
        · rw [hq] at hc
          exact hc hcall
        · refine hout ⟨?_, fun x hx => ?_⟩
          · show Function.update st.call p (some s) q ≠ none
            rw [Function.update_of_ne hq]
            exact hc
          · rcases List.mem_cons.mp hx with heq | hx
            · exact hq (Event.pended.inj heq).1
            · exact hlater x hx
      rcases U.asked ⟨q, l₁', l₂, hl, hno'⟩ with hin | ⟨d, hd⟩
      · exact U.due hdue hin
      · refine .inr ⟨d, ?_⟩
        cases hpc : st.disp d with
        | idle => rw [hpc] at hd; exact hd.elim
        | testing p r => rw [hpc] at hd; exact hd.elim
        | _ => trivial

omit decD decC in
/-- **`rt_pend_linux_srq`** -/
theorem SrqInv.pend (I : SrqInv s st) (hs : s.val < RTAI_NR_SRQS) (h0 : s ≠ 0)
    {p : P} (hcall : st.call p = none) (srq : Nat) :
    SrqInv s (rtPendLinuxSrq st p srq) := by
  have hpos : 0 < s.val := Nat.pos_of_ne_zero fun h => h0 (Fin.ext h)
  have hsame : st.call = Function.update st.call p none := by
    rw [← hcall, Function.update_eq_self]
  simp only [rtPendLinuxSrq]
  by_cases hlt : srq < 64
  · rw [dif_pos hlt]
    by_cases hok : srq > 0 ∧ srq < RTAI_NR_SRQS
    · rw [if_pos hok]
      by_cases hne : srq = s.val
      · subst hne
        exact I.other rfl rfl rfl (I.due.pended hcall)
      · refine I.other rfl rfl rfl (I.due.logged _ _ hcall hne
          (Finset.subset_insert _ _) fun hin => ?_)
        rcases Finset.mem_insert.mp hin with heq | hin
        · rw [heq] at hne
          exact (hne rfl).elim
        · exact hin
    · rw [if_neg hok]
      refine I.other rfl rfl rfl ?_
      have U := I.due.logged srq none hcall
        (fun hne => hok (hne ▸ ⟨hpos, hs⟩)) (Finset.Subset.refl _) id
      rw [← hsame] at U
      exact U
  · rw [dif_neg hlt]
    refine I.other rfl rfl rfl ?_
    have U := I.due.logged srq none hcall
      (fun hne => hlt (hne ▸ s.isLt)) (Finset.Subset.refl _) id
    rw [← hsame] at U
    exact U

omit decD in
/-- The end of `rt_pend_linux_srq`. -/
theorem SrqInv.pendVirq (I : SrqInv s st) (p : P) (cpu : C) :
    SrqInv s { st with
      virq := Function.update st.virq cpu true
      call := Function.update st.call p none } := by
  refine I.other rfl rfl rfl ⟨I.due.registered, I.due.entry, I.due.asked, ?_⟩
  exact fun _ _ => .inl ⟨cpu, Function.update_self ..⟩

omit decD decP decC in
theorem SrqInv.request (I : SrqInv s st) (label : Nat) (kHandler uHandler : Option H) :
    SrqInv s (rtRequestSrq st label kHandler uHandler).1 := by
  unfold rtRequestSrq
  cases kHandler with
  | none => exact I
  | some h =>
    cases hz : ffz st.map with
    | none => exact I
    | some srq =>
      have hne : s ≠ srq := fun heq =>
        ffz_not_mem hz (heq ▸ I.due.registered)
      refine I.other rfl rfl rfl ⟨Finset.mem_insert_of_mem I.due.registered, fun e he => ?_,
          I.due.asked, I.due.due⟩
      show e = Function.update st.table srq _ s
      rw [Function.update_of_ne hne]
      exact I.due.entry e he

omit decD decP decC in
theorem SrqInv.free (I : SrqInv s st) {srq : Nat} (hne : srq ≠ s) :
    SrqInv s (rtFreeSrq st srq).1 := by
  unfold rtFreeSrq
  by_cases hlt : srq < 64
  · rw [dif_pos hlt]
    split
    · exact I
    · refine I.other rfl rfl rfl ⟨Finset.mem_erase.mpr ⟨?_, I.due.registered⟩,
        I.due.entry, I.due.asked, I.due.due⟩
      rintro rfl
      exact hne rfl
  · rw [dif_neg hlt]
    exact I

/-- `s` stays registered, and no service gets a number for which
    `rtai_sysreq_table` has no room. -/
def Proper (s : Srq) (st : Srqs D P C H) : Action D P C H → Prop
  | .free srq => srq ≠ s
  | .request _ _ _ => ∀ b, ffz st.map = some b → b.val < RTAI_NR_SRQS
  | _ => True

theorem SrqInv.step {on : D → C} (hs : s.val < RTAI_NR_SRQS) (h0 : s ≠ 0)
    {a : Action D P C H} {o : Option Int} (I : SrqInv s st)
    (ha : Proper s st a) (h : srqStep on st a = some (st', o)) :
    SrqInv s st' := by
  cases a with
  | pend p srq =>
    simp only [srqStep] at h
    split at h
    next hcall =>
      cases h
      exact I.pend hs h0 hcall srq
    next => exact nomatch h
  | pendVirq p cpu =>
    simp only [srqStep] at h
    split at h
    next => exact nomatch h
    next =>
      cases h
      exact I.pendVirq p cpu
  | request label kHandler uHandler =>
    cases h
    exact I.request label kHandler uHandler
  | free srq =>
    cases h
    exact I.free ha
  | enter d =>
    simp only [srqStep] at h
    split at h
    next hd =>
      cases h
      exact I.enter hd.1 _
    next => exact nomatch h
  | readPending d =>
    have h : (RtaiLinuxSrq.readOperand st d true).map (·, none) = some (st', o) := h
    obtain ⟨st₁, hread, heq⟩ := Option.map_eq_some_iff.mp h
    cases heq
    exact I.readOperand hread
  | readRunning d =>
    have h : (RtaiLinuxSrq.readOperand st d false).map (·, none) = some (st', o) := h
    obtain ⟨st₁, hread, heq⟩ := Option.map_eq_some_iff.mp h
    cases heq
    exact I.readOperand hread
  | advance d =>
    have h : (dispatcherStep st d).map (·, none) = some (st', o) := h
    obtain ⟨st₁, hgo, heq⟩ := Option.map_eq_some_iff.mp h
    cases heq
    exact I.advance hgo

omit decD decP decC in
theorem srqInv_start {table : Srq → Entry H} {map : Mask} (hs : s ∈ map) :
    SrqInv (D := D) (P := P) (C := C) s (start table map) := by
  refine ⟨⟨fun _ h => h.elim, fun _ _ h => h.elim⟩,
    ⟨fun _ _ h => h.elim, fun _ _ _ h => h.elim,
      fun _ h => (Finset.notMem_empty _ h).elim, nofun, nofun⟩,
    ⟨hs, nofun, ?_, ?_⟩⟩
  · rintro ⟨p, l₁, l₂, h, -⟩
    exact (List.append_ne_nil_of_right_ne_nil l₁ (List.cons_ne_nil _ _) h.symm).elim
  · rintro ⟨p, l₁, l₂, h, -⟩
    exact (List.append_ne_nil_of_right_ne_nil l₁ (List.cons_ne_nil _ _) h.symm).elim

end Steps

/-! ## The services are run -/

section Serviced

variable {D P C H : Type}

/-- No two executions of the handler overlap. -/
def NoOverlap (s : Srq) (st : Srqs D P C H) : Prop :=
  ∀ d d', st.disp d = .handling s → st.disp d' = .handling s → d = d'

/-- No dispatcher is running and no virtual interrupt is pending. -/
def Quiet (st : Srqs D P C H) : Prop :=
  (∀ d, st.disp d = .idle) ∧ ∀ c, st.virq c = false

/-- After every pend of `s` whose call is over the handler that was registered
    has been started. -/
def Serviced (s : Srq) (st : Srqs D P C H) : Prop :=
  ∀ p l₁ l₂, st.log = l₁ ++ .pended p s :: l₂ → ¬ InCall st p l₁ → .started s (st.table s) ∈ l₁

theorem SrqInv.noOverlap {s : Srq} {st : Srqs D P C H} (I : SrqInv s st) :
    NoOverlap s st := by
  intro d d' h h'
  exact I.run.alone d d' s (by rw [h]; rfl) (by rw [h']; rfl)

theorem SrqInv.serviced {s : Srq} {st : Srqs D P C H} (I : SrqInv s st)
    (hq : Quiet st) : Serviced s st := by
  intro p l₁ l₂ h hout
  by_contra hno
  have hnone : ∀ e, .started s e ∉ l₁ := by
    intro e he
    have hlog : .started s e ∈ st.log := by
      rw [h]
      exact List.mem_append_left _ he
    rw [I.due.entry e hlog] at he
    exact hno he
  rcases I.due.asked ⟨p, l₁, l₂, h, hnone⟩ with hin | ⟨d, hd⟩
  · rcases I.due.due ⟨p, l₁, l₂, h, hnone, hout⟩ hin with ⟨c, hc⟩ | ⟨d, hd⟩
    · rw [hq.2 c] at hc
      exact nomatch hc
    · rw [hq.1 d] at hd
      exact hd
  · rw [hq.1 d] at hd
    exact hd

variable [decD : DecidableEq D] [decP : DecidableEq P] [decC : DecidableEq C]

/-- **Linux service requests are serviced after every pend**, if and only if
    their number is one that `rt_pend_linux_srq` accepts: `rt_request_srq`
    hands out all the bits of a word. -/
theorem srqs_serviced [Nonempty P] (on : D → C) (table : Srq → Entry H)
    (map : Mask) (s : Srq) (hs : s ∈ map) (h0 : s ≠ 0) :
    (∀ st : Srqs D P C H, Reach (srqStep on) (Proper s) (start table map) st →
      NoOverlap s st ∧ (Quiet st → Serviced s st)) ↔
    s.val < RTAI_NR_SRQS := by
  constructor
  · intro h
    obtain ⟨p⟩ := ‹Nonempty P›
    by_contra hge
    -- the call returns without having done anything
    have hrun : Reach (srqStep on) (Proper s) (start (D := D) (P := P) (C := C) table map)
        { start table map with log := [.pended p s] } := by
      refine (Reach.refl _).tail (a := .pend p s) (o := none) trivial ?_
      simp only [srqStep, start, rtPendLinuxSrq, if_true, dif_pos s.isLt]
      rw [if_neg fun hok => hge hok.2]
    have hserv := (h _ hrun).2 ⟨fun _ => rfl, fun _ => rfl⟩ p [] [] rfl fun hin => hin.1 rfl
    exact nomatch hserv
  · intro hlt st hrun
    -- the map has a bit for the request all along
    have I : SrqInv s st := hrun.invariant (srqInv_start hs)
      fun st₁ a st₂ o I ha hstep => I.step hlt h0 ha hstep
    exact ⟨I.noOverlap, I.serviced⟩

/-- The actions of a run in which no service comes or goes. -/
def Pends : Action Unit Unit Unit Unit → Prop
  | .free _ => False
  | .request _ _ _ => False
  | _ => True

instance (a : Action Unit Unit Unit Unit) : Decidable (Pends a) := by
  cases a <;> simp only [Pends] <;> infer_instance

/-- One service is pended, and its dispatcher runs until it finds nothing. -/
def pendedRun : List (Action Unit Unit Unit Unit) :=
  let look := [.advance (), .readPending (), .readRunning (), .advance ()]
  [Action.pend () 1, .pendVirq () (), .enter ()] ++ look ++
    List.replicate 5 (Action.advance ()) ++ look

theorem srqs_serviced_one :
    ∃ st : Srqs Unit Unit Unit Unit, st.log.length = 2 ∧ NoOverlap 1 st ∧
      Serviced 1 st := by
  obtain ⟨st, hplay, hlog, hdisp, hvirq⟩ : ∃ st : Srqs Unit Unit Unit Unit,
      play (srqStep fun _ => ()) (fun _ => Pends)
        (start (fun _ => ⟨some (), none, 0⟩) {0, 1}) pendedRun = some st ∧
      st.log.length = 2 ∧ st.disp () = .idle ∧ st.virq () = false :=
    ⟨_, rfl, rfl, rfl, rfl⟩
  have hreach := (reach_of_play hplay).mono (Q := Proper 1) fun st a ha => by
    cases a with
    | free srq => exact ha.elim
    | request label k u => exact ha.elim
    | _ => trivial
  obtain ⟨hno, hserv⟩ := (srqs_serviced (fun _ => ())
    (fun _ => ⟨some (), none, 0⟩) {0, 1} 1 (by decide) (by decide)).mpr
    (by decide) st hreach
  exact ⟨st, hlog, hno, hserv ⟨fun _ => hdisp, fun _ => hvirq⟩⟩

/-- 31 services are registered, the next one is given number 32, and its pend
    is not heard. -/
theorem srq_behind_table : ∃ st : Srqs Unit Unit Unit Unit,
      Reach (srqStep fun _ => ()) (fun _ _ => True) (start (fun _ => ⟨some (), none, 0⟩)
          (Finset.univ.filter fun b => b.val < RTAI_NR_SRQS)) st ∧
      32 ∈ st.map ∧ Quiet st ∧ ¬ Serviced 32 st := by
  refine ⟨_, ((Reach.refl _).tail (a := .request 7 (some ()) none)
    (o := some 32) trivial rfl).tail (a := .pend () 32) (o := none) trivial rfl,
    by decide, ⟨fun _ => rfl, fun _ => rfl⟩, fun h => ?_⟩
  exact nomatch h () [] [] rfl fun hin => hin.1 rfl

end Serviced

end RtaiLinuxSrq
