import Rtai.Runs

/-! # rtai_hal.c: the CPUs that interrupts are sent to

    Loading the module takes every interrupt away from the isolated CPUs,
    requesting one sends it to them, and three tables keep masks to go back
    to.  The tables hold 32 bits of masks that have 64.

    `irq_set_affinity` of an interrupt chip is no code of the repository.  It
    is a parameter that says what it makes of the present affinity. -/

namespace RtaiIrqAffinity

open RtaiRuns

/-- What the code finds in the machine and in its parameters. -/
structure Machine where
  /-- `IPIPE_NR_XIRQS` -/
  nrXirqs : Nat
  /-- `cpu_online_mask` -/
  online : UInt64
  /-- `IsolCpusMask` -/
  isolCpusMask : UInt64
  /-- The interrupt has a descriptor and a chip with `irq_set_affinity`. -/
  settable : Nat → Bool
  /-- An interrupt beyond `IPIPE_NR_XIRQS` that may be requested. -/
  virtual : Nat → Bool
  /-- `chip->irq_set_affinity`: the interrupt, the mask, the affinity before. -/
  irqSetAffinity : Nat → UInt64 → UInt64 → UInt64

/-- The interrupts and the tables. -/
structure Irqs where
  /-- `irq_to_desc(irq)->irq_common_data.affinity` -/
  affinity : Nat → UInt64
  /-- `rtai_domain.irqs[irq].handler != NULL` -/
  handler : Nat → Bool
  cpumask : Nat → UInt32
  oldIrqAffinity : Nat → UInt32
  origIrqAffinity : Nat → UInt32

/-- `ipipe_set_irq_affinity` -/
def ipipeSetIrqAffinity (m : Machine) (x : Irqs) (irq : Nat) (mask : UInt64) :
    Irqs :=
  if mask &&& m.online = 0 ∨ m.settable irq = false then x
  else { x with
    affinity := Function.update x.affinity irq
      (m.irqSetAffinity irq (mask &&& m.online) (x.affinity irq)) }

/-- `rt_assign_irq_to_cpu`, which takes a mask. -/
def rtAssignIrqToCpu (m : Machine) (x : Irqs) (irq : Nat) (mask : UInt64) : Irqs × UInt64 :=
  if irq ≥ m.nrXirqs ∨ m.settable irq = false then (x, 0)
  else
    let oldmask := x.affinity irq
    let x := ipipeSetIrqAffinity m x irq mask
    ({ x with
      oldIrqAffinity :=
        if oldmask ≠ 0 then
          Function.update x.oldIrqAffinity irq oldmask.toUInt32
        else x.oldIrqAffinity }, oldmask)

/-- Its argument is an `int`; a negative one reads outside the table. -/
def rtResetIrqToSymMode (m : Machine) (x : Irqs) (irq : Int) : Option Irqs :=
  if irq ≥ m.nrXirqs then some x
  else if irq < 0 then none
  else
    let old := x.oldIrqAffinity irq.toNat
    if old = 0 then some x
    else
      let x := ipipeSetIrqAffinity m x irq.toNat old.toUInt64
      some { x with
        oldIrqAffinity := Function.update x.oldIrqAffinity irq.toNat 0 }

/-- `rt_request_irq`, and whether it has returned 0. -/
def rtRequestIrq (m : Machine) (x : Irqs) (irq : Nat) : Irqs × Bool :=
  if (irq ≥ m.nrXirqs ∧ m.virtual irq = false) ∨ x.handler irq = true then
    (x, false)
  else
    let x := { x with handler := Function.update x.handler irq true }
    if m.isolCpusMask ≠ 0 ∧ irq < m.nrXirqs then
      let (x, mask) := rtAssignIrqToCpu m x irq m.isolCpusMask
      ({ x with cpumask := Function.update x.cpumask irq mask.toUInt32 }, true)
    else (x, true)

/-- `rt_release_irq`. -/
def rtReleaseIrq (m : Machine) (x : Irqs) (irq : Nat) : Irqs :=
  let x := { x with handler := Function.update x.handler irq false }
  if m.isolCpusMask ≠ 0 ∧ irq < m.nrXirqs then
    (rtAssignIrqToCpu m x irq (x.cpumask irq).toUInt64).1
  else x

/-- The body of the loop of `__rtai_hal_init`. -/
def isolateIrq (m : Machine) (x : Irqs) (irq : Nat) : Irqs :=
  let (x, mask) := rtAssignIrqToCpu m x irq (~~~m.isolCpusMask)
  { x with
    origIrqAffinity := Function.update x.origIrqAffinity irq mask.toUInt32 }

/-- What `__rtai_hal_init` does to the interrupts. -/
def rtaiHalInit (m : Machine) (x : Irqs) : Irqs :=
  if m.isolCpusMask ≠ 0 then (List.range m.nrXirqs).foldl (isolateIrq m) x
  else x

/-- `rt_reset_irq_to_sym_mode(rtai_orig_irq_affinity[i])`: the argument is the
    mask that has been saved for the interrupt. -/
def resyncIrq (m : Machine) (x : Irqs) (irq : Nat) : Option Irqs :=
  rtResetIrqToSymMode m x (x.origIrqAffinity irq).toInt32.toInt

/-- What `__rtai_hal_exit` does to the interrupts. -/
def rtaiHalExit (m : Machine) (x : Irqs) : Option Irqs :=
  if m.isolCpusMask ≠ 0 then (List.range m.nrXirqs).foldlM (resyncIrq m) x
  else some x

/-- A machine before the module is loaded. -/
def unloaded (affinity : Nat → UInt64) : Irqs where
  affinity := affinity
  handler := fun _ => false
  cpumask := fun _ => 0
  oldIrqAffinity := fun _ => 0
  origIrqAffinity := fun _ => 0

/-! ## The runs -/

/-- The module from its loading on, with the affinity that every interrupt had
    before the request that has not been released yet, and the releases that
    did not give it back. -/
structure Hal where
  irqs : Irqs
  before : Nat → Option UInt64
  lost : List Nat
  mounted : Bool

/-- What is done to the interrupts. -/
inductive IrqAction where
  | request (irq : Nat)
  | release (irq : Nat)
  | exit
  deriving DecidableEq

/-- The module has been loaded. -/
def mount (m : Machine) (affinity : Nat → UInt64) : Hal where
  irqs := rtaiHalInit m (unloaded affinity)
  before := fun _ => none
  lost := []
  mounted := true

/-- One action, if it is loaded. -/
def halStep (m : Machine) (x : Hal) : IrqAction → Option (Hal × Bool)
  | .request irq =>
    if x.mounted then
      let (irqs, ok) := rtRequestIrq m x.irqs irq
      some ({ x with
        irqs := irqs
        before :=
          if ok then
            Function.update x.before irq (some (x.irqs.affinity irq))
          else x.before }, ok)
    else none
  | .release irq =>
    if x.mounted then
      let irqs := rtReleaseIrq m x.irqs irq
      some ({ x with
        irqs := irqs
        before := Function.update x.before irq none
        lost :=
          match x.before irq with
          | some a => if irqs.affinity irq = a then x.lost else irq :: x.lost
          | none => x.lost }, true)
    else none
  | .exit =>
    if x.mounted then do
      let irqs ← rtaiHalExit m x.irqs
      some ({ x with irqs := irqs, mounted := false }, true)
    else none

/-- **The affinities are restored**: every release has given its interrupt the
    affinity back that it had before the request, and when the module is gone
    every interrupt has the affinity it had at first. -/
def Restored (m : Machine) (affinity : Nat → UInt64) (x : Hal) : Prop :=
  x.lost = [] ∧ (x.mounted = false → ∀ irq < m.nrXirqs, x.irqs.affinity irq = affinity irq)

/-! ## When they are restored -/

/-- `ipipe_set_irq_affinity` for a mask of 32 bits leaves the affinity `a`,
    where it is `now` before. -/
def SetsBack (m : Machine) (mask : UInt32) (now a : UInt64) : Prop :=
  if mask.toUInt64 &&& m.online = 0 then now = a
  else mask.toUInt64 &&& m.online = a

/-- Some interrupt has had this number for an affinity, so that
    `__rtai_hal_exit` takes the number for an interrupt. -/
def NamedByMask (m : Machine) (x : Irqs) (irq : Nat) : Prop :=
  ∃ i < m.nrXirqs, (x.origIrqAffinity i).toInt32.toInt = irq

instance (m : Machine) (x : Irqs) (irq : Nat) : Decidable (NamedByMask m x irq) :=
  inferInstanceAs (Decidable (∃ i < _, _))

/-- A release finds the mask of the request in the table: 32 bits of it, of
    which the CPUs online are all that the mask had.  When the module goes, an
    interrupt whose number is the former affinity of some interrupt goes back
    to the last affinity that has been changed, and the others have not been
    moved. -/
def MasksSurvive (m : Machine) (affinity : Nat → UInt64) (x : Hal) : IrqAction → Prop
  | .request _ => True
  | .release irq =>
    ∀ a, x.before irq = some a → irq < m.nrXirqs → m.settable irq = true →
      SetsBack m a.toUInt32 (x.irqs.affinity irq) a
  | .exit =>
    ∀ irq < m.nrXirqs,
      if NamedByMask m x.irqs irq ∧ x.irqs.oldIrqAffinity irq ≠ 0 ∧
          m.settable irq = true then
        SetsBack m (x.irqs.oldIrqAffinity irq) (x.irqs.affinity irq) (affinity irq)
      else x.irqs.affinity irq = affinity irq

/-! ## What the functions do to one affinity -/

section Effects

variable {m : Machine} {x x' : Irqs} {irq i : Nat} {mask : UInt64}

/-- The affinity that an interrupt gets. -/
def targeted (m : Machine) (irq : Nat) (mask now : UInt64) : UInt64 :=
  if mask &&& m.online = 0 ∨ m.settable irq = false then now
  else mask &&& m.online

/-- Setting the affinity of an interrupt leaves the others. -/
theorem setIrqAffinity_affinity
    (hchip : ∀ irq mask now, m.irqSetAffinity irq mask now = mask) :
    (ipipeSetIrqAffinity m x irq mask).affinity i =
      if i = irq then targeted m irq mask (x.affinity irq)
      else x.affinity i := by
  simp only [ipipeSetIrqAffinity, targeted]
  by_cases hi : i = irq
  · subst hi
    rw [if_pos rfl]
    by_cases hc : mask &&& m.online = 0 ∨ m.settable i = false
    · rw [if_pos hc, if_pos hc]
    · rw [if_neg hc, if_neg hc]
      exact (Function.update_self ..).trans (hchip i _ _)
  · rw [if_neg hi]
    split
    · rfl
    · exact Function.update_of_ne hi ..

/-- It writes nothing else. -/
theorem setIrqAffinity_tables : (ipipeSetIrqAffinity m x irq mask).handler = x.handler ∧
      (ipipeSetIrqAffinity m x irq mask).cpumask = x.cpumask ∧
      (ipipeSetIrqAffinity m x irq mask).oldIrqAffinity = x.oldIrqAffinity ∧
      (ipipeSetIrqAffinity m x irq mask).origIrqAffinity = x.origIrqAffinity := by
  simp only [ipipeSetIrqAffinity]
  split <;> exact ⟨rfl, rfl, rfl, rfl⟩

/-- **Assigning an interrupt** moves that interrupt only, and returns where it
    was. -/
theorem assign_affinity (hchip : ∀ irq mask now, m.irqSetAffinity irq mask now = mask) :
    (rtAssignIrqToCpu m x irq mask).1.affinity i =
      if i = irq ∧ irq < m.nrXirqs then targeted m irq mask (x.affinity irq)
      else x.affinity i := by
  simp only [rtAssignIrqToCpu]
  by_cases hc : irq ≥ m.nrXirqs ∨ m.settable irq = false
  · rw [if_pos hc]
    by_cases hi : i = irq ∧ irq < m.nrXirqs
    · obtain ⟨rfl, hlt⟩ := hi
      have hset : m.settable i = false := hc.resolve_left (by omega)
      rw [if_pos ⟨rfl, hlt⟩, targeted, if_pos (Or.inr hset)]
    · rw [if_neg hi]
  · rw [if_neg hc]
    show (ipipeSetIrqAffinity m x irq mask).affinity i = _
    rw [setIrqAffinity_affinity hchip]
    have hlt : irq < m.nrXirqs := by
      by_contra hge
      exact hc (Or.inl (by omega))
    by_cases hi : i = irq
    · rw [if_pos hi, if_pos ⟨hi, hlt⟩]
    · rw [if_neg hi, if_neg fun h => hi h.1]

theorem assign_value (hlt : irq < m.nrXirqs) (hset : m.settable irq = true) :
    (rtAssignIrqToCpu m x irq mask).2 = x.affinity irq := by
  simp only [rtAssignIrqToCpu]
  rw [if_neg]
  rintro (h | h)
  · omega
  · rw [hset] at h
    exact nomatch h

theorem assign_cpumask : (rtAssignIrqToCpu m x irq mask).1.cpumask = x.cpumask := by
  simp only [rtAssignIrqToCpu]
  split
  · rfl
  · exact setIrqAffinity_tables.2.1

/-- An interrupt that is sent nowhere else stays. -/
theorem targeted_of_fixed {now : UInt64} (h : m.settable irq = false) :
    targeted m irq mask now = now :=
  if_pos (Or.inr h)

/-- When the affinity is the one wanted. -/
theorem targeted_eq_iff {old : UInt32} {now a : UInt64} (hset : m.settable irq = true) :
    targeted m irq old.toUInt64 now = a ↔ SetsBack m old now a := by
  simp only [targeted, SetsBack]
  by_cases h0 : old.toUInt64 &&& m.online = 0
  · rw [if_pos (Or.inl h0), if_pos h0]
  · rw [if_neg h0, if_neg]
    rintro (h | h)
    · exact h0 h
    · rw [hset] at h
      exact nomatch h

/-! ## Leaving the module -/

/-- Where the last mask of an interrupt sends it. -/
def resetTarget (m : Machine) (x : Irqs) (irq : Nat) : UInt64 :=
  if x.oldIrqAffinity irq ≠ 0 then
    targeted m irq (x.oldIrqAffinity irq).toUInt64 (x.affinity irq)
  else x.affinity irq

/-- One reset: the interrupt it is called with goes back, and its mask is
    forgotten. -/
theorem reset_effect (hchip : ∀ irq mask now, m.irqSetAffinity irq mask now = mask) {j : Int}
    (h : rtResetIrqToSymMode m x j = some x') :
    x'.origIrqAffinity = x.origIrqAffinity ∧ (∀ i, i < m.nrXirqs → x'.affinity i =
        if j = i then resetTarget m x i else x.affinity i) ∧
      ∀ i, i < m.nrXirqs → x'.oldIrqAffinity i =
        if j = i then 0 else x.oldIrqAffinity i := by
  simp only [rtResetIrqToSymMode] at h
  split at h
  · next hge =>
      cases h
      refine ⟨rfl, fun i hi => ?_, fun i hi => ?_⟩ <;>
        rw [if_neg (by omega)]
  · next hge =>
      split at h
      · exact nomatch h
      · next hneg =>
          obtain ⟨n, rfl⟩ : ∃ n : Nat, j = n := ⟨j.toNat, by omega⟩
          have hself : ∀ i : Nat, ((n : Int) = i) = (i = n) := by
            intro i
            exact propext ⟨fun h => by omega, fun h => by omega⟩
          simp only [hself, Int.toNat_natCast] at h ⊢
          split at h
          · next h0 =>
              cases h
              refine ⟨rfl, fun i _ => ?_, fun i _ => ?_⟩
              · by_cases hi : i = n
                · subst hi
                  rw [if_pos rfl, resetTarget, if_neg (not_not.mpr h0)]
                · rw [if_neg hi]
              · by_cases hi : i = n
                · subst hi
                  rw [if_pos rfl, h0]
                · rw [if_neg hi]
          · next h0 =>
              cases h
              refine ⟨setIrqAffinity_tables.2.2.2, fun i _ => ?_, fun i _ => ?_⟩
              · show (ipipeSetIrqAffinity m x n _).affinity i = _
                rw [setIrqAffinity_affinity hchip]
                by_cases hi : i = n
                · subst hi
                  rw [if_pos rfl, if_pos rfl, resetTarget, if_pos h0]
                · rw [if_neg hi, if_neg hi]
              · by_cases hi : i = n
                · subst hi
                  rw [if_pos rfl]
                  exact Function.update_self ..
                · rw [if_neg hi]
                  refine (Function.update_of_ne hi ..).trans ?_
                  rw [setIrqAffinity_tables.2.2.1]

/-- **The loop of `__rtai_hal_exit`** resets the interrupts whose numbers are
    among the masks of the ones it goes through. -/
theorem resyncLoop_affinity (hchip : ∀ irq mask now, m.irqSetAffinity irq mask now = mask)
    {l : List Nat} : ∀ {x : Irqs}, l.foldlM (resyncIrq m) x = some x' →
      ∀ i, i < m.nrXirqs → x'.affinity i =
        if ∃ k ∈ l, (x.origIrqAffinity k).toInt32.toInt = i then
          resetTarget m x i
        else x.affinity i := by
  induction l with
  | nil =>
    intro x h i _
    cases h
    rw [if_neg]
    rintro ⟨k, hk, -⟩
    exact nomatch hk
  | cons k l ih =>
    intro x h i hi
    rw [List.foldlM_cons] at h
    obtain ⟨x₁, hk, hl⟩ := Option.bind_eq_some_iff.mp h
    obtain ⟨horig, haff, hold⟩ := reset_effect hchip hk
    have hrest := ih hl i hi
    rw [horig] at hrest
    have ha := haff i hi
    have ho := hold i hi
    by_cases hki : (x.origIrqAffinity k).toInt32.toInt = i
    · -- a second reset finds no mask any more
      rw [if_pos hki] at ha ho
      have hlast : resetTarget m x₁ i = x₁.affinity i := by
        rw [resetTarget, if_neg (not_not.mpr ho)]
      rw [hrest, hlast, ite_self, ha, if_pos ⟨k, List.mem_cons_self, hki⟩]
    · rw [if_neg hki] at ha ho
      have hsame : resetTarget m x₁ i = resetTarget m x i := by
        rw [resetTarget, resetTarget, ha, ho]
      have hmem : (∃ k' ∈ k :: l, (x.origIrqAffinity k').toInt32.toInt = i) ↔
          ∃ k' ∈ l, (x.origIrqAffinity k').toInt32.toInt = i := by
        constructor
        · rintro ⟨k', hk', he⟩
          rcases List.mem_cons.mp hk' with rfl | hk'
          · exact absurd he hki
          · exact ⟨k', hk', he⟩
        · rintro ⟨k', hk', he⟩
          exact ⟨k', List.mem_cons_of_mem k hk', he⟩
      rw [hrest, hsame, ha]
      simp only [hmem]

/-- **`__rtai_hal_exit`** -/
theorem rtaiHalExit_affinity (hchip : ∀ irq mask now, m.irqSetAffinity irq mask now = mask)
    (hisol : m.isolCpusMask ≠ 0) (h : rtaiHalExit m x = some x')
    (hi : i < m.nrXirqs) :
    x'.affinity i =
      if NamedByMask m x i then resetTarget m x i else x.affinity i := by
  simp only [rtaiHalExit, if_pos hisol] at h
  rw [resyncLoop_affinity hchip h i hi]
  have hmem : (∃ k ∈ List.range m.nrXirqs,
      (x.origIrqAffinity k).toInt32.toInt = i) ↔ NamedByMask m x i := by
    simp only [List.mem_range, NamedByMask]
  simp only [hmem]

/-- When the exit has brought an interrupt back to `a`. -/
theorem exit_restores_iff (hchip : ∀ irq mask now, m.irqSetAffinity irq mask now = mask)
    (hisol : m.isolCpusMask ≠ 0) (h : rtaiHalExit m x = some x')
    (hi : i < m.nrXirqs) (a : UInt64) :
    x'.affinity i = a ↔
      if NamedByMask m x i ∧ x.oldIrqAffinity i ≠ 0 ∧ m.settable i = true then
        SetsBack m (x.oldIrqAffinity i) (x.affinity i) a
      else x.affinity i = a := by
  rw [rtaiHalExit_affinity hchip hisol h hi]
  by_cases hn : NamedByMask m x i
  · rw [if_pos hn, resetTarget]
    by_cases h0 : x.oldIrqAffinity i ≠ 0
    · rw [if_pos h0]
      by_cases hset : m.settable i = true
      · rw [if_pos ⟨hn, h0, hset⟩, targeted_eq_iff hset]
      · rw [if_neg fun hc => hset hc.2.2, targeted_of_fixed (by simpa using hset)]
    · rw [if_neg h0, if_neg fun hc => h0 hc.2.1]
  · rw [if_neg hn, if_neg fun hc => hn hc.1]

end Effects

/-! ## The runs -/

/-- What holds while the module is loaded: the table has the mask of every
    request that is open, and the interrupts that cannot be moved are where
    they were. -/
structure HalInv (m : Machine) (affinity : Nat → UInt64) (x : Hal) : Prop where
  saved : ∀ irq a, x.before irq = some a → irq < m.nrXirqs →
    m.settable irq = true → x.irqs.cpumask irq = a.toUInt32
  fixed : ∀ irq, ¬ (irq < m.nrXirqs ∧ m.settable irq = true) →
    x.irqs.affinity irq = affinity irq
  still : ∀ irq a, x.before irq = some a →
    ¬ (irq < m.nrXirqs ∧ m.settable irq = true) → a = affinity irq

section Runs

variable {m : Machine} {affinity : Nat → UInt64} {x x' : Hal} {irq : Nat}

/-- An assignment leaves the interrupts that cannot be moved. -/
theorem assign_fixed (hchip : ∀ irq mask now, m.irqSetAffinity irq mask now = mask)
    {y : Irqs} {mask : UInt64} {i : Nat}
    (h : ¬ (i < m.nrXirqs ∧ m.settable i = true)) :
    (rtAssignIrqToCpu m y irq mask).1.affinity i = y.affinity i := by
  rw [assign_affinity hchip]
  by_cases hi : i = irq ∧ irq < m.nrXirqs
  · obtain ⟨rfl, hlt⟩ := hi
    rw [if_pos ⟨rfl, hlt⟩]
    refine targeted_of_fixed ?_
    by_contra hset
    exact h ⟨hlt, by simpa using hset⟩
  · rw [if_neg hi]

/-- The loop of `__rtai_hal_init` leaves them too. -/
theorem isolateLoop_fixed (hchip : ∀ irq mask now, m.irqSetAffinity irq mask now = mask)
    {i : Nat} (h : ¬ (i < m.nrXirqs ∧ m.settable i = true)) {l : List Nat} :
    ∀ y : Irqs, (l.foldl (isolateIrq m) y).affinity i = y.affinity i := by
  induction l with
  | nil => intro y; rfl
  | cons k l ih =>
    intro y
    rw [List.foldl_cons, ih]
    exact assign_fixed hchip h

theorem mount_inv (hchip : ∀ irq mask now, m.irqSetAffinity irq mask now = mask) :
    HalInv m affinity (mount m affinity) where
  saved := fun _ _ h => nomatch h
  fixed := by
    intro irq h
    simp only [mount, rtaiHalInit]
    split
    · exact isolateLoop_fixed hchip h _
    · rfl
  still := fun _ _ h => nomatch h

/-- A request moves no interrupt that cannot be moved, and saves the mask. -/
theorem request_effect (hchip : ∀ irq mask now, m.irqSetAffinity irq mask now = mask)
    (hisol : m.isolCpusMask ≠ 0) {y y' : Irqs} {ok : Bool}
    (h : rtRequestIrq m y irq = (y', ok)) :
    (ok = false → y' = y) ∧ (ok = true → irq < m.nrXirqs → m.settable irq = true →
        y'.cpumask irq = (y.affinity irq).toUInt32) ∧
      (∀ i, i ≠ irq → y'.cpumask i = y.cpumask i) ∧
      ∀ i, ¬ (i < m.nrXirqs ∧ m.settable i = true) → y'.affinity i = y.affinity i := by
  simp only [rtRequestIrq] at h
  split at h
  · cases h
    exact ⟨fun _ => rfl, nofun, fun _ _ => rfl, fun _ _ => rfl⟩
  · split at h
    · next hx =>
        cases h
        refine ⟨nofun, fun _ hlt hset => ?_, fun i hi => ?_, fun i hi => ?_⟩
        · refine (Function.update_self ..).trans ?_
          rw [assign_value hlt hset]
        · refine (Function.update_of_ne hi ..).trans ?_
          rw [assign_cpumask]
        · exact assign_fixed hchip hi
    · next hx =>
        cases h
        refine ⟨nofun, fun _ hlt _ => absurd ⟨hisol, hlt⟩ hx, fun _ _ => rfl, fun _ _ => rfl⟩

/-- A release sends the interrupt to the mask in the table. -/
theorem release_affinity (hchip : ∀ irq mask now, m.irqSetAffinity irq mask now = mask)
    (hisol : m.isolCpusMask ≠ 0) {y : Irqs} {i : Nat} :
    (rtReleaseIrq m y irq).affinity i =
      if i = irq ∧ irq < m.nrXirqs then
        targeted m irq (y.cpumask irq).toUInt64 (y.affinity irq)
      else y.affinity i := by
  simp only [rtReleaseIrq]
  by_cases hlt : irq < m.nrXirqs
  · rw [if_pos ⟨hisol, hlt⟩, assign_affinity hchip]
  · rw [if_neg fun h => hlt h.2, if_neg fun h => hlt h.2]

theorem release_cpumask {y : Irqs} : (rtReleaseIrq m y irq).cpumask = y.cpumask := by
  simp only [rtReleaseIrq]
  split
  · exact assign_cpumask
  · rfl

/-- **When a release gives the affinity back.** -/
theorem release_restores_iff (hchip : ∀ irq mask now, m.irqSetAffinity irq mask now = mask)
    (hisol : m.isolCpusMask ≠ 0) (I : HalInv m affinity x) {a : UInt64}
    (ha : x.before irq = some a) :
    (rtReleaseIrq m x.irqs irq).affinity irq = a ↔ (irq < m.nrXirqs → m.settable irq = true →
        SetsBack m a.toUInt32 (x.irqs.affinity irq) a) := by
  rw [release_affinity hchip hisol]
  by_cases hmove : irq < m.nrXirqs ∧ m.settable irq = true
  · obtain ⟨hlt, hset⟩ := hmove
    rw [if_pos ⟨rfl, hlt⟩, I.saved irq a ha hlt hset, targeted_eq_iff hset]
    exact ⟨fun h _ _ => h, fun h => h hlt hset⟩
  · constructor
    · exact fun _ hlt hset => absurd ⟨hlt, hset⟩ hmove
    · intro _
      rw [I.still irq a ha hmove]
      by_cases hlt : irq < m.nrXirqs
      · rw [if_pos ⟨rfl, hlt⟩, targeted_of_fixed]
        · exact I.fixed irq hmove
        · by_contra hset
          exact hmove ⟨hlt, by simpa using hset⟩
      · rw [if_neg fun h => hlt h.2]
        exact I.fixed irq hmove

/-- The actions are taken while the module is loaded. -/
theorem halStep_mounted {a : IrqAction} {o : Bool}
    (h : halStep m x a = some (x', o)) : x.mounted = true := by
  by_contra hm
  cases a <;> simp only [halStep, if_neg hm] at h <;> exact nomatch h

/-- **One step keeps the invariant**, up to the exit. -/
theorem HalInv.step (hchip : ∀ irq mask now, m.irqSetAffinity irq mask now = mask)
    (hisol : m.isolCpusMask ≠ 0) (I : HalInv m affinity x) {a : IrqAction}
    {o : Bool} (h : halStep m x a = some (x', o)) :
    HalInv m affinity x' ∨ x'.mounted = false := by
  have hm := halStep_mounted h
  cases a with
  | request irq =>
    simp only [halStep, if_pos hm] at h
    generalize hr : rtRequestIrq m x.irqs irq = r at h
    obtain ⟨y, ok⟩ := r
    cases h
    obtain ⟨hno, hyes, hother, hfix⟩ := request_effect hchip hisol hr
    cases ok with
    | false =>
      rw [hno rfl]
      exact Or.inl ⟨I.saved, I.fixed, I.still⟩
    | true =>
      refine Or.inl ⟨?_, ?_, ?_⟩
      · intro i b hb hlt hset
        replace hb : Function.update x.before irq (some (x.irqs.affinity irq)) i = some b := hb
        show y.cpumask i = _
        by_cases hi : i = irq
        · subst hi
          rw [Function.update_self] at hb
          cases hb
          exact hyes rfl hlt hset
        · rw [Function.update_of_ne hi] at hb
          rw [hother i hi]
          exact I.saved i b hb hlt hset
      · intro i hi
        exact (hfix i hi).trans (I.fixed i hi)
      · intro i b hb hi
        replace hb : Function.update x.before irq (some (x.irqs.affinity irq)) i = some b := hb
        by_cases he : i = irq
        · subst he
          rw [Function.update_self] at hb
          cases hb
          exact I.fixed i hi
        · rw [Function.update_of_ne he] at hb
          exact I.still i b hb hi
  | release irq =>
    simp only [halStep, if_pos hm] at h
    cases h
    refine Or.inl ⟨?_, ?_, ?_⟩
    · intro i b hb hlt hset
      replace hb : Function.update x.before irq none i = some b := hb
      show (rtReleaseIrq m x.irqs irq).cpumask i = _
      rw [release_cpumask]
      by_cases hi : i = irq
      · subst hi
        rw [Function.update_self] at hb
        exact nomatch hb
      · rw [Function.update_of_ne hi] at hb
        exact I.saved i b hb hlt hset
    · intro i hi
      show (rtReleaseIrq m x.irqs irq).affinity i = _
      rw [release_affinity hchip hisol]
      split
      · next hc =>
          obtain ⟨rfl, hlt⟩ := hc
          rw [targeted_of_fixed]
          · exact I.fixed i hi
          · by_contra hset
            exact hi ⟨hlt, by simpa using hset⟩
      · exact I.fixed i hi
    · intro i b hb hi
      replace hb : Function.update x.before irq none i = some b := hb
      by_cases he : i = irq
      · subst he
        rw [Function.update_self] at hb
        exact nomatch hb
      · rw [Function.update_of_ne he] at hb
        exact I.still i b hb hi
  | exit =>
    simp only [halStep, if_pos hm] at h
    obtain ⟨y, -, h⟩ := Option.bind_eq_some_iff.mp h
    cases h
    exact Or.inr rfl

/-- **One step keeps the affinities restored if and only if the masks
    survive.** -/
theorem restored_step (hchip : ∀ irq mask now, m.irqSetAffinity irq mask now = mask)
    (hisol : m.isolCpusMask ≠ 0) (I : HalInv m affinity x) {a : IrqAction}
    {o : Bool} (h : halStep m x a = some (x', o)) :
    Restored m affinity x' ↔ Restored m affinity x ∧ MasksSurvive m affinity x a := by
  have hm := halStep_mounted h
  have hloaded : Restored m affinity x ↔ x.lost = [] := by
    refine ⟨fun h => h.1, fun h => ⟨h, fun hn => ?_⟩⟩
    rw [hm] at hn
    exact nomatch hn
  rw [hloaded]
  cases a with
  | request irq =>
    simp only [halStep, if_pos hm] at h
    cases h
    refine ⟨fun h => ⟨h.1, trivial⟩, fun h => ⟨h.1, fun hn => ?_⟩⟩
    rw [show _ = true from hm] at hn
    exact nomatch hn
  | release irq =>
    simp only [halStep, if_pos hm] at h
    cases h
    have hlost : Restored m affinity
        { x with
          irqs := rtReleaseIrq m x.irqs irq
          before := Function.update x.before irq none
          lost :=
            match x.before irq with
            | some a =>
              if (rtReleaseIrq m x.irqs irq).affinity irq = a then x.lost
              else irq :: x.lost
            | none => x.lost } ↔
        x.lost = [] ∧ ∀ a, x.before irq = some a →
          (rtReleaseIrq m x.irqs irq).affinity irq = a := by
      refine ⟨fun h => ?_, fun h => ⟨?_, fun hn => ?_⟩⟩
      · have h1 := h.1
        dsimp only at h1
        cases hb : x.before irq with
        | none =>
          rw [hb] at h1
          exact ⟨h1, nofun⟩
        | some b =>
          rw [hb] at h1
          dsimp only at h1
          split at h1
          · next he =>
              refine ⟨h1, fun a ha => ?_⟩
              cases ha
              exact he
          · exact nomatch h1
      · dsimp only
        cases hb : x.before irq with
        | none => exact h.1
        | some b =>
          dsimp only
          rw [if_pos (h.2 b hb)]
          exact h.1
      · rw [show _ = true from hm] at hn
        exact nomatch hn
    rw [hlost]
    refine and_congr_right fun _ => ?_
    exact forall_congr' fun a => forall_congr' fun ha =>
      release_restores_iff hchip hisol I ha
  | exit =>
    simp only [halStep, if_pos hm] at h
    obtain ⟨y, hy, h⟩ := Option.bind_eq_some_iff.mp h
    cases h
    refine and_congr_right fun _ => ?_
    constructor
    · intro hr i hi
      exact (exit_restores_iff hchip hisol hy hi _).mp (hr rfl i hi)
    · intro hc _ i hi
      exact (exit_restores_iff hchip hisol hy hi _).mpr (hc i hi)

end Runs

/-- **THE AFFINITIES ARE RESTORED IN EXACTLY THE RUNS IN WHICH THE MASKS
    SURVIVE**: a request has been made with a mask that 32 bits hold and that
    names CPUs online only, and at the end every interrupt that has been moved
    has a number that is the former affinity of some interrupt, and its last
    mask in the table. -/
theorem affinities_restored (m : Machine) (affinity : Nat → UInt64) (x : Hal)
    (hisol : m.isolCpusMask ≠ 0)
    (hchip : ∀ irq mask now, m.irqSetAffinity irq mask now = mask)
    (h : Reach (halStep m) (fun _ _ => True) (mount m affinity) x) :
    Restored m affinity x ↔
      Reach (halStep m) (MasksSurvive m affinity) (mount m affinity) x := by
  -- every action is allowed, so the guard is the condition alone
  have hguard : Reach (halStep m) (fun x a => True ∧ MasksSurvive m affinity x a)
      (mount m affinity) x ↔
      Reach (halStep m) (MasksSurvive m affinity) (mount m affinity) x :=
    ⟨fun h => h.mono fun _ _ hg => hg.2, fun h => h.mono fun _ _ hg => ⟨trivial, hg⟩⟩
  rw [← hguard]
  refine h.good_iff (I := fun x => HalInv m affinity x ∨ x.mounted = false)
    (Or.inl (mount_inv hchip)) ⟨rfl, nofun⟩ ?_ ?_
  · intro y a y' o hy _ he
    rcases hy with I | hm
    · exact I.step hchip hisol he
    · rw [halStep_mounted he] at hm
      exact nomatch hm
  · intro y a y' o hy _ he
    rcases hy with I | hm
    · exact restored_step hchip hisol I he
    · rw [halStep_mounted he] at hm
      exact nomatch hm

/-- Two CPUs, the second isolated, and three interrupts: the first two cannot
    be moved. -/
def oneMovable : Machine where
  nrXirqs := 3
  online := 3
  isolCpusMask := 2
  settable := fun irq => irq = 2
  virtual := fun _ => false
  irqSetAffinity := fun _ mask _ => mask

/-- An interrupt that is not moved by the loading is requested and released,
    and the module goes. -/
theorem affinities_restored_unmoved :
    ∃ x, Reach (halStep oneMovable) (MasksSurvive oneMovable fun _ => 1)
        (mount oneMovable fun _ => 1) x ∧
      x.mounted = false ∧ Restored oneMovable (fun _ => 1) x := by
  obtain ⟨x, hplay, hm, hl, h0, h1, h2⟩ : ∃ x, play (halStep oneMovable) (fun _ _ => True)
        (mount oneMovable fun _ => 1)
        [.request 2, .release 2, .exit] = some x ∧
      x.mounted = false ∧ x.lost = [] ∧ x.irqs.affinity 0 = 1 ∧
      x.irqs.affinity 1 = 1 ∧ x.irqs.affinity 2 = 1 :=
    ⟨_, rfl, rfl, rfl, by decide, by decide, by decide⟩
  have hr : Restored oneMovable (fun _ => 1) x := by
    refine ⟨hl, fun _ irq hirq => ?_⟩
    have hlt : irq < 3 := hirq
    obtain rfl | rfl | rfl : irq = 0 ∨ irq = 1 ∨ irq = 2 := by omega
    · exact h0
    · exact h1
    · exact h2
  exact ⟨x, (affinities_restored oneMovable (fun _ => 1) x (by decide)
    (fun _ _ _ => rfl) (reach_of_play hplay)).mp hr, hm, hr⟩

/-- The same machine with chips that move every interrupt. -/
def allMovable : Machine :=
  { oneMovable with settable := fun _ => true }

/-- **INTERRUPT 0 STAYS AWAY FROM THE ISOLATED CPU**: at the end the code
    resets the interrupt whose number is the mask. -/
theorem affinity_not_restored : ∃ x, Reach (halStep allMovable) (fun _ _ => True)
        (mount allMovable fun _ => 3) x ∧
      ¬ Restored allMovable (fun _ => 3) x := by
  obtain ⟨x, hplay, hm, h0⟩ : ∃ x, play (halStep allMovable) (fun _ _ => True)
        (mount allMovable fun _ => 3) [.exit] = some x ∧
      x.mounted = false ∧ x.irqs.affinity 0 = 1 :=
    ⟨_, rfl, rfl, by decide⟩
  refine ⟨x, reach_of_play hplay, fun h => ?_⟩
  have h3 := h.2 hm 0 (by decide)
  rw [h0] at h3
  exact absurd h3 (by decide)

end RtaiIrqAffinity
