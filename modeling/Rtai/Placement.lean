import Rtai.Cpus
import Rtai.Minima

/-! # sys.c: the CPU that a task is put on

    `__task_init` chooses a CPU of a mask, for a thread that becomes a task and
    for one that is a task already.  A mask of one CPU gives that CPU, from a
    larger one `get_min_tasks_cpuid` takes the CPU with the fewest tasks; its
    search starts from CPU 0. -/

namespace RtaiPlacement

open RtaiCpus RtaiMinima
open RtaiKernel (RTAI_TIME_LIMIT BASE_SOFT_PRIORITY)

variable {T : Type} [decT : DecidableEq T]

/-- The lowest priority of a task. -/
def RT_SCHED_LOWEST_PRIORITY : Int := 0x3fffffff

/-- The size of the buffers of a task. -/
def USRLAND_MAX_MSG_SIZE : Int := 128

/-- `configure` allows 32 CPUs, and RTAI is not mounted with more CPUs online
    than it is configured for. -/
structure Smp extends Machine where
  nrCpus_le : nrCpus ≤ 32
  online_le : online ≤ nrCpus
  two_online : 2 ≤ online

/-- The tasks and the calling thread. -/
structure Threads (T : Type) where
  cpus : Cpus T
  /-- `max_msg_size[0]` and `max_msg_size[1]` -/
  maxMsgSize : T → Int
  /-- `rtai_tskext(current, TSKEXT0)` -/
  tskext0 : Option T
  /-- The CPUs that Linux lets the thread run on. -/
  affinity : Finset Nat

/-- What a call of `__task_init` finds: the registry, the memory and Linux. -/
structure Outside (T : Type) where
  /-- `rt_get_adr(name)` is not null. -/
  nameKnown : Bool
  /-- Whether there is memory for the two message buffers. -/
  msgBuf0 : Int → Bool
  msgBuf1 : Int → Bool
  /-- The memory for the task. -/
  task : Option T
  /-- `rt_register` returns a slot. -/
  registers : Bool
  /-- `rtai_cpuid()` -/
  cpuid : Nat
  /-- `set_cpus_allowed_ptr(current, cpumask_of(cpuid))` returns 0. -/
  setsCpu : Nat → Bool

/-! ## Choosing a CPU -/

/-- `hweight32` -/
def hweight32 (w : BitVec 32) : Nat :=
  ((Finset.range 32).filter fun i => w.getLsbD i).card

/-- `bsfq`, which says nothing of 0. -/
def ffnz (word : BitVec 64) : Nat :=
  ((List.range 64).find? fun i => word.getLsbD i).getD 64

/-- The mask is an `int`, and an `unsigned long` in the calls.  The same lines
    stand twice in `__task_init`. -/
def chooseCpu (m : Machine) (x : Cpus T) (cpuid : Nat) (cpusAllowed : BitVec 32) : Nat :=
  if m.online > 1 ∧ cpusAllowed ≠ 0 then
    if hweight32 cpusAllowed > 1 then
      getMinTasksCpuid m x (cpusAllowed.signExtend 64).toNat
    else ffnz (cpusAllowed.signExtend 64)
  else cpuid

/-- `set_cpus_allowed_ptr` of Linux. -/
def setCpusAllowedPtr (w : Outside T) (x : Threads T) (cpuid : Nat) : Threads T :=
  if w.setsCpu cpuid then { x with affinity := {cpuid} } else x

/-- A thread that cannot be put on the CPU stays where it is. -/
def putCurrentOnCpu (w : Outside T) (x : Threads T) (cpuid : Nat) : Threads T :=
  if w.setsCpu cpuid then setCpusAllowedPtr w x cpuid
  else
    match x.tskext0 with
    | none => x
    | some t => setCpusAllowedPtr w { x with
        cpus := { x.cpus with
          runnableOnCpus := Function.update x.cpus.runnableOnCpus t w.cpuid } } w.cpuid

/-- `set_rtext`, for a thread of Linux. -/
def setRtext (m : Machine) (w : Outside T) (x : Threads T) (t : T) (priority : Int)
    (cpuid : Nat) : Option (Threads T) :=
  let cpuid := if m.online ≤ 1 then 0 else cpuid
  if x.cpus.magic t ∨ cpuid ≥ m.nrCpus ∨ priority < 0 then none
  else
    let c := x.cpus
    let x := { x with
      cpus := { c with
        magic := Function.update c.magic t true
        lnxtsk := Function.update c.lnxtsk t true
        state := Function.update c.state t {.ready}
        priority := Function.update c.priority t (BASE_SOFT_PRIORITY + priority)
        period := Function.update c.period t 0
        resumeTime := Function.update c.resumeTime t RTAI_TIME_LIMIT
        periodicResumeTime := Function.update c.periodicResumeTime t RTAI_TIME_LIMIT
        runnableOnCpus := Function.update c.runnableOnCpus t cpuid
        ready := c.ready.selfLink (.elem t)
        timed := c.timed.selfLink (.elem t)
        tasksPerCpu := Function.update c.tasksPerCpu cpuid (toInt (c.tasksPerCpu cpuid + 1)) }
      tskext0 := some t }
    let x := putCurrentOnCpu w x cpuid
    some { x with cpus := appendTask x.cpus t cpuid }

/-- The two message buffers and the task. -/
def allocTask (w : Outside T) (maxMsgSize : Int) : Option T :=
  if !w.msgBuf0 maxMsgSize then none
  else if !w.msgBuf1 maxMsgSize then none
  else w.task

/-- `rt_task->magic = 0` -/
def clearMagic (x : Threads T) (t : T) : Threads T :=
  { x with cpus := { x.cpus with magic := Function.update x.cpus.magic t false } }

/-- What `__task_init` does with the memory for a task. -/
def initTask (m : Machine) (w : Outside T) (x : Threads T) (t : T) (prio maxMsgSize : Int)
    (cpusAllowed : BitVec 32) : Threads T × Option T :=
  let x := clearMagic x t
  match setRtext m w x t prio (chooseCpu m x.cpus w.cpuid cpusAllowed) with
  | none => (x, none)
  | some x =>
    let x := { x with maxMsgSize := Function.update x.maxMsgSize t maxMsgSize }
    if w.registers then
      let c := { x.cpus with state := Function.update x.cpus.state t ∅ }
      ({ x with cpus := rtSetTaskPid c t }, some t)
    else ({ x with cpus := clrRtext x.cpus t }, none)

/-- `__task_init`, with the task that it returns. -/
def taskInit (m : Machine) (w : Outside T) (x : Threads T) (prio maxMsgSize : Int)
    (cpusAllowed : BitVec 32) : Threads T × Option T :=
  match x.tskext0 with
  | some t => (putCurrentOnCpu w x (chooseCpu m x.cpus w.cpuid cpusAllowed), some t)
  | none =>
    if w.nameKnown then (x, none)
    else
      let prio := if prio > RT_SCHED_LOWEST_PRIORITY then RT_SCHED_LOWEST_PRIORITY else prio
      let maxMsgSize := if maxMsgSize = 0 then USRLAND_MAX_MSG_SIZE else maxMsgSize
      match allocTask w maxMsgSize with
      | none => (x, none)
      | some t => initTask m w x t prio maxMsgSize cpusAllowed

/-! ## What the mask allows -/

/-- The CPUs of the mask that are online. -/
def allowedCpus (m : Machine) (cpusAllowed : BitVec 32) : List Nat :=
  (List.range m.online).filter fun i => cpusAllowed.getLsbD i

/-- An online CPU of the mask, and when there are several one with the smallest
    load among them. -/
def Respects (m : Machine) (load : Nat → Int) (cpusAllowed : BitVec 32) (c : Nat) : Prop :=
  c ∈ allowedCpus m cpusAllowed ∧ ((allowedCpus m cpusAllowed).length > 1 →
      ∀ i ∈ allowedCpus m cpusAllowed, load c ≤ load i)

/-- The first of the least loaded CPUs of the mask. -/
def IsFirstLeast (m : Machine) (load : Nat → Int) (cpusAllowed : BitVec 32) (c : Nat) :
    Prop :=
  c ∈ (allowedCpus m cpusAllowed).argmin load

/-- The mask is that of one CPU, or it has CPU 0, or it has a CPU that is online
    and less loaded than CPU 0. -/
def Searchable (m : Machine) (load : Nat → Int) (cpusAllowed : BitVec 32) : Prop :=
  hweight32 cpusAllowed = 1 ∨ cpusAllowed.getLsbD 0 = true ∨
    ∃ i ∈ allowedCpus m cpusAllowed, load i < load 0

section Masks

variable {m : Smp} {load : Nat → Int} {mask : BitVec 32} {c i : Nat}

theorem mem_allowedCpus {m : Machine} :
    c ∈ allowedCpus m mask ↔ c < m.online ∧ mask.getLsbD c = true := by
  rw [allowedCpus, List.mem_filter, List.mem_range]

theorem Smp.online_le_32 (m : Smp) : m.online ≤ 32 := m.online_le.trans m.nrCpus_le

theorem allowed_signExtend (hi : i < 32) :
    (mask.signExtend 64).getLsbD i = mask.getLsbD i := by
  rw [BitVec.getLsbD_signExtend, if_pos hi, decide_eq_true (by omega), Bool.true_and]

theorem hweight32_pos (hc : c < 32) (hm : mask.getLsbD c = true) : 0 < hweight32 mask :=
  Finset.card_pos.mpr ⟨c, Finset.mem_filter.mpr ⟨Finset.mem_range.mpr hc, hm⟩⟩

/-- Of a mask with one bit `ffnz` finds the bit. -/
theorem ffnz_eq (hc : c < 32) (hm : mask.getLsbD c = true) (hw : hweight32 mask ≤ 1) :
    ffnz (mask.signExtend 64) = c := by
  have hbelow : ∀ j < c, mask.getLsbD j = false := by
    intro j hj
    by_contra hset
    have heq := Finset.card_le_one.mp hw j
      (Finset.mem_filter.mpr ⟨Finset.mem_range.mpr (hj.trans hc), by simpa using hset⟩)
      c (Finset.mem_filter.mpr ⟨Finset.mem_range.mpr hc, hm⟩)
    exact absurd heq (Nat.ne_of_lt hj)
  have hfind : ((List.range 64).find? fun i => (mask.signExtend 64).getLsbD i) = some c := by
    rw [List.find?_range_eq_some]
    refine ⟨(allowed_signExtend hc).trans hm, List.mem_range.mpr (by omega), ?_⟩
    intro j hj
    rw [allowed_signExtend (hj.trans hc), hbelow j hj]
    rfl
  rw [ffnz, hfind]
  rfl

/-- The CPUs of the mask behind CPU 0. -/
def laterCpus (m : Machine) (mask : BitVec 32) : List Nat :=
  ((List.range m.online).drop 1).filter fun i => mask.getLsbD i

theorem allowedCpus_eq : allowedCpus m.toMachine mask =
      if mask.getLsbD 0 then 0 :: laterCpus m.toMachine mask
      else laterCpus m.toMachine mask := by
  have hrange : List.range m.online = 0 :: (List.range m.online).drop 1 := by
    obtain ⟨n, hn⟩ := Nat.exists_eq_succ_of_ne_zero
      (show m.online ≠ 0 by have := m.two_online; omega)
    rw [hn, List.range_succ_eq_map]
    rfl
  rw [allowedCpus, laterCpus, hrange, List.filter_cons]
  rfl

omit decT in
/-- **`get_min_tasks_cpuid`** considers CPU 0 whatever the mask. -/
theorem getMinTasksCpuid_mem (m : Smp) (mask : BitVec 32) (x : Cpus T) :
    getMinTasksCpuid m.toMachine x (mask.signExtend 64).toNat ∈
      (0 :: laterCpus m.toMachine mask).argmin x.tasksPerCpu := by
  have hsame : laterCpus m.toMachine mask =
      ((List.range m.online).drop 1).filter fun i => (mask.signExtend 64).toNat.testBit i := by
    refine List.filter_congr fun i hi => ?_
    have hlt : i < m.online := List.mem_range.mp (List.mem_of_mem_drop hi)
    exact (allowed_signExtend (hlt.trans_le m.online_le_32)).symm
  rw [hsame]
  exact foldl_mem_argmin _ _ _ _

variable (x : Cpus T) (cpuid : Nat)

omit decT in
theorem chooseCpu_eq (hmask : ∃ c < m.online, mask.getLsbD c = true) :
    chooseCpu m.toMachine x cpuid mask =
      if hweight32 mask > 1 then
        getMinTasksCpuid m.toMachine x (mask.signExtend 64).toNat
      else ffnz (mask.signExtend 64) := by
  obtain ⟨c, -, hc⟩ := hmask
  have hne : mask ≠ 0 := by
    rintro rfl
    exact absurd hc (by simp)
  exact if_pos ⟨m.two_online, hne⟩

omit decT in
/-- A mask in which the search finds the first of the least loaded CPUs. -/
theorem chooseCpu_least (hmask : ∃ c < m.online, mask.getLsbD c = true)
    (hs : Searchable m.toMachine x.tasksPerCpu mask) :
    IsFirstLeast m.toMachine x.tasksPerCpu mask (chooseCpu m.toMachine x cpuid mask) := by
  rw [chooseCpu_eq x cpuid hmask, IsFirstLeast]
  by_cases hw : hweight32 mask > 1
  · rw [if_pos hw]
    have hmem := getMinTasksCpuid_mem m mask x
    rw [allowedCpus_eq]
    by_cases h0 : mask.getLsbD 0 = true
    · rw [if_pos h0]
      exact hmem
    · rw [if_neg h0]
      rcases hs with hs | hs | hs
      · omega
      · exact absurd hs h0
      · rw [allowedCpus_eq, if_neg h0] at hs
        rw [argmin_cons_of_lt hs] at hmem
        exact hmem
  · rw [if_neg hw]
    obtain ⟨c, hc, hm⟩ := hmask
    cases hl : (allowedCpus m.toMachine mask).argmin x.tasksPerCpu with
    | none =>
      have hmem := mem_allowedCpus.mpr ⟨hc, hm⟩
      exact absurd (List.argmin_eq_none.mp hl) (List.ne_nil_of_mem hmem)
    | some a =>
      -- the only bit of the mask
      obtain ⟨ha, hbit⟩ := mem_allowedCpus.mp (List.argmin_mem hl)
      rw [ffnz_eq (ha.trans_le m.online_le_32) hbit (by omega)]
      exact rfl

omit decT in
/-- In any other mask it finds CPU 0, which the mask does not have. -/
theorem chooseCpu_zero (hmask : ∃ c < m.online, mask.getLsbD c = true)
    (hs : ¬ Searchable m.toMachine x.tasksPerCpu mask) :
    chooseCpu m.toMachine x cpuid mask = 0 := by
  obtain ⟨c, hc, hm⟩ := id hmask
  have hpos := hweight32_pos (hc.trans_le m.online_le_32) hm
  have hw : hweight32 mask > 1 := by
    have hone : hweight32 mask ≠ 1 := fun h => hs (Or.inl h)
    omega
  have hleast : ∀ i ∈ laterCpus m.toMachine mask, x.tasksPerCpu 0 ≤ x.tasksPerCpu i := by
    intro i hi
    by_contra hlt
    refine hs (Or.inr (Or.inr ⟨i, ?_, not_le.mp hlt⟩))
    rw [allowedCpus_eq, if_neg fun h0 => hs (Or.inr (Or.inl h0))]
    exact hi
  have hmem := getMinTasksCpuid_mem m mask x
  rw [argmin_cons_of_le hleast] at hmem
  rw [chooseCpu_eq x cpuid hmask, if_pos hw]
  exact (Option.mem_some_iff.mp hmem).symm

theorem IsFirstLeast.respects {m : Machine} (h : IsFirstLeast m load mask c) :
    Respects m load mask c :=
  ⟨List.argmin_mem h, fun _ _ hi => List.le_of_mem_argmin hi h⟩

omit decT in
/-- **THE CHOICE RESPECTS THE MASK** if and only if it can be searched. -/
theorem chooseCpu_respects_iff (hmask : ∃ c < m.online, mask.getLsbD c = true) :
    Respects m.toMachine x.tasksPerCpu mask (chooseCpu m.toMachine x cpuid mask) ↔
      Searchable m.toMachine x.tasksPerCpu mask := by
  constructor
  · intro h
    by_contra hs
    have hmem := h.1
    rw [chooseCpu_zero x cpuid hmask hs] at hmem
    exact hs (Or.inr (Or.inl (mem_allowedCpus.mp hmem).2))
  · exact fun hs => (chooseCpu_least x cpuid hmask hs).respects

omit decT in
theorem chooseCpu_online (hmask : ∃ c < m.online, mask.getLsbD c = true) :
    chooseCpu m.toMachine x cpuid mask < m.online := by
  by_cases hs : Searchable m.toMachine x.tasksPerCpu mask
  · exact (mem_allowedCpus.mp (chooseCpu_least x cpuid hmask hs).respects.1).1
  · rw [chooseCpu_zero x cpuid hmask hs]
    exact Nat.lt_of_lt_of_le Nat.two_pos m.two_online

end Masks

/-! ## Where the task is put -/

section Placing

variable {m : Smp} {w : Outside T} {x x' : Threads T} {t : T} {prio maxMsgSize : Int}
  {mask : BitVec 32} {cpuid : Nat}

theorem putCurrentOnCpu_eq (h : w.setsCpu cpuid = true) :
    putCurrentOnCpu w x cpuid = { x with affinity := {cpuid} } := by
  rw [putCurrentOnCpu, if_pos h, setCpusAllowedPtr, if_pos h]

/-- **A new task** is put on the CPU with its thread. -/
theorem setRtext_spec {priority : Int} (hlinux : w.setsCpu cpuid = true)
    (h : setRtext m.toMachine w x t priority cpuid = some x') :
    x'.affinity = {cpuid} ∧ x'.cpus.runnableOnCpus t = cpuid := by
  have hmany : ¬ m.online ≤ 1 := Nat.not_le.mpr m.two_online
  rw [setRtext, if_neg hmany] at h
  split at h
  · exact nomatch h
  · dsimp only at h
    rw [putCurrentOnCpu_eq hlinux] at h
    cases h
    exact ⟨rfl, Function.update_self ..⟩

theorem initTask_spec {u : T} (hmask : ∃ c < m.online, mask.getLsbD c = true)
    (hlinux : ∀ c < m.online, w.setsCpu c = true)
    (h : initTask m.toMachine w x t prio maxMsgSize mask = (x', some u)) :
    x'.affinity = {chooseCpu m.toMachine x.cpus w.cpuid mask} ∧
      x'.cpus.runnableOnCpus u = chooseCpu m.toMachine x.cpus w.cpuid mask := by
  have hset := hlinux _ (chooseCpu_online x.cpus w.cpuid hmask)
  rw [initTask] at h
  dsimp only at h
  cases hs : setRtext m.toMachine w (clearMagic x t) t prio
      (chooseCpu m.toMachine (clearMagic x t).cpus w.cpuid mask) with
  | none =>
    rw [hs] at h
    exact nomatch h
  | some y =>
    rw [hs] at h
    dsimp only at h
    -- the search reads the loads only
    have hspec := setRtext_spec hset hs
    by_cases hreg : w.registers
    · rw [if_pos hreg] at h
      cases h
      exact hspec
    · rw [if_neg hreg] at h
      exact nomatch h

/-- **WHAT `__task_init` DOES**: the thread is put on the CPU that has been
    chosen, a new task too, and a task that there is stays where it is. -/
theorem taskInit_spec (hmask : ∃ c < m.online, mask.getLsbD c = true)
    (hlinux : ∀ c < m.online, w.setsCpu c = true)
    (h : taskInit m.toMachine w x prio maxMsgSize mask = (x', some t)) :
    x'.affinity = {chooseCpu m.toMachine x.cpus w.cpuid mask} ∧ ((x.tskext0 = none ∧
        x'.cpus.runnableOnCpus t = chooseCpu m.toMachine x.cpus w.cpuid mask) ∨
      (x.tskext0 = some t ∧ x'.cpus.runnableOnCpus t = x.cpus.runnableOnCpus t)) := by
  rw [taskInit] at h
  cases htsk : x.tskext0 with
  | some u =>
    rw [htsk] at h
    dsimp only at h
    rw [putCurrentOnCpu_eq (hlinux _ (chooseCpu_online x.cpus w.cpuid hmask))] at h
    cases h
    exact ⟨rfl, Or.inr ⟨rfl, rfl⟩⟩
  | none =>
    rw [htsk] at h
    dsimp only at h
    by_cases hname : w.nameKnown
    · rw [if_pos hname] at h
      exact nomatch h
    · rw [if_neg hname] at h
      cases halloc : allocTask w
          (if maxMsgSize = 0 then USRLAND_MAX_MSG_SIZE else maxMsgSize) with
      | none =>
        rw [halloc] at h
        exact nomatch h
      | some u =>
        rw [halloc] at h
        obtain ⟨haff, hcpu⟩ := initTask_spec hmask hlinux h
        exact ⟨haff, Or.inl ⟨rfl, hcpu⟩⟩

/-- The thread may run on the CPU only, and the task is one of that CPU. -/
def On (x : Threads T) (t : T) (c : Nat) : Prop :=
  x.affinity = {c} ∧ x.cpus.runnableOnCpus t = c

/-- **PLACEMENT RESPECTS THE MASK**: the thread is put on a CPU that the mask
    allows, and on one with the smallest load, if and only if the mask can be
    searched.  The task is put there too if it is new; a task that there is
    would have to be on that CPU already. -/
theorem placement_iff (hmask : ∃ c < m.online, mask.getLsbD c = true)
    (hlinux : ∀ c < m.online, w.setsCpu c = true)
    (h : taskInit m.toMachine w x prio maxMsgSize mask = (x', some t)) :
    ((∃ c, x'.affinity = {c} ∧ Respects m.toMachine x.cpus.tasksPerCpu mask c) ↔
      Searchable m.toMachine x.cpus.tasksPerCpu mask) ∧
    ((∃ c, On x' t c ∧ Respects m.toMachine x.cpus.tasksPerCpu mask c) ↔
      Searchable m.toMachine x.cpus.tasksPerCpu mask ∧
        (x.tskext0 = some t → IsFirstLeast m.toMachine x.cpus.tasksPerCpu mask
          (x.cpus.runnableOnCpus t))) := by
  obtain ⟨haff, htask⟩ := taskInit_spec hmask hlinux h
  have hiff := chooseCpu_respects_iff x.cpus w.cpuid hmask
  have hone : ∀ c, x'.affinity = {c} ↔ c = chooseCpu m.toMachine x.cpus w.cpuid mask := by
    intro c
    rw [haff, Finset.singleton_inj]
    exact eq_comm
  constructor
  · simp only [hone, exists_eq_left]
    exact hiff
  · simp only [On, hone, and_assoc, exists_eq_left, hiff]
    -- a thread that is a task already stays where it is
    rcases htask with ⟨hnew, hcpu⟩ | ⟨hold, hcpu⟩
    · rw [hnew]
      exact ⟨fun hs => ⟨hs.2, nofun⟩, fun hs => ⟨hcpu, hs.1⟩⟩
    · rw [hcpu]
      constructor
      · rintro ⟨hc, hs⟩
        exact ⟨hs, fun _ => hc ▸ chooseCpu_least x.cpus w.cpuid hmask hs⟩
      · rintro ⟨hs, hfirst⟩
        exact ⟨Option.mem_unique (hfirst hold) (chooseCpu_least x.cpus w.cpuid hmask hs), hs⟩

end Placing

/-! ## Four CPUs -/

/-- Four CPUs at one frequency. -/
def fourCpus : Smp where
  nrCpus := 16
  online := 4
  timerFreq := 1000000000
  clockFreq := 1000000000
  nrCpus_le := by decide
  online_le := by decide
  two_online := by decide

/-- Linux and the allocator give what is asked for. -/
def obliging : Outside Unit where
  nameKnown := false
  msgBuf0 := fun _ => true
  msgBuf1 := fun _ => true
  task := some ()
  registers := true
  cpuid := 3
  setsCpu := fun c => c < 4

/-- A thread that is no task yet. -/
def thread (load : Nat → Int) : Threads Unit where
  cpus := { noTasks with tasksPerCpu := load }
  maxMsgSize := fun _ => 0
  tskext0 := none
  affinity := {0, 1, 2, 3}

/-- CPU 0 has a task, and of the CPUs 1 and 2 the second has none. -/
theorem placement_two : ∃ x',
    taskInit fourCpus.toMachine obliging (thread fun c => if c = 2 then 0 else 1) 5 0 0b110 =
        (x', some ()) ∧
      ∃ c, On x' () c ∧ Respects fourCpus.toMachine (fun c => if c = 2 then 0 else 1) 0b110 c := by
  obtain ⟨x', h⟩ : ∃ x', taskInit fourCpus.toMachine obliging
      (thread fun c => if c = 2 then 0 else 1) 5 0 0b110 = (x', some ()) := ⟨_, rfl⟩
  refine ⟨x', h, ((placement_iff ?_ ?_ h).2).mpr ⟨?_, nofun⟩⟩
  · exact ⟨1, by decide, by decide⟩
  · exact fun c hc => decide_eq_true hc
  · exact Or.inr (Or.inr ⟨2, by decide, by decide⟩)

/-- **A TASK IS PUT ON CPU 0**, which the mask does not allow: no CPU has a task,
    and the search starts from CPU 0.  The same call again puts the thread on
    CPU 1, since CPU 0 has a task now, and leaves the task on CPU 0. -/
theorem placed_outside_mask : ∃ x',
    taskInit fourCpus.toMachine obliging (thread fun _ => 0) 5 0 0b110 = (x', some ()) ∧
      On x' () 0 ∧
      (¬ ∃ c, x'.affinity = {c} ∧ Respects fourCpus.toMachine (fun _ => 0) 0b110 c) ∧
      ∃ x'', taskInit fourCpus.toMachine obliging x' 5 0 0b110 = (x'', some ()) ∧
        x''.affinity = {1} ∧ x''.cpus.runnableOnCpus () = 0 := by
  refine ⟨_, rfl, ⟨rfl, rfl⟩, ?_, _, rfl, rfl, rfl⟩
  rintro ⟨c, hc, hr⟩
  obtain rfl : 0 = c := Finset.singleton_inj.mp hc
  exact absurd hr.1 (by decide)

end RtaiPlacement
