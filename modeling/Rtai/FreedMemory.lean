import Rtai.NamedRaces
import Rtai.RegistryLinks

/-! # sys.c, api.c: objects that are registered, deleted and freed

    `LXRT_SEM_INIT`, `LXRT_MBX_INIT`, `rt_named_task_init` and `__task_init`
    look a name up, make an object, and register it; the deletions tear it down,
    free it, and deregister its address, not all in this order.  Any number of
    tasks come between each other's steps, and memory that has been freed may be
    allocated again. -/

namespace RtaiFreedMemory

open RtaiRuns RtaiProbing RtaiRegistry RtaiRegistrySlots RtaiRegistryMap
open RtaiRegistryErrors RtaiNamedRaces RtaiRegistryLinks

/-! ## Memory -/

/-- The magic numbers. -/
inductive Kind where
  | sem
  | mbx
  | task
  deriving DecidableEq

/-- Memory in use.  `stamp` is a ghost: it tells this allocation from the others
    of the address. -/
structure Cell where
  stamp : Nat
  magic : Option Kind
  deriving DecidableEq

/-! ## The functions -/

/-- The calls that create. -/
inductive Init where
  | lxrtSemInit
  | lxrtMbxInit
  | rtNamedTaskInit
  | taskInit
  deriving DecidableEq

/-- What a call creates. -/
def Init.kind : Init → Kind
  | .lxrtSemInit => .sem
  | .lxrtMbxInit => .mbx
  | .rtNamedTaskInit => .task
  | .taskInit => .task

/-- The type that `rt_register` gets. -/
def Init.type : Init → Int
  | .lxrtSemInit => IS_SEM
  | .lxrtMbxInit => IS_MBX
  | .rtNamedTaskInit => IS_TASK
  | .taskInit => IS_TASK

/-- The calls that delete. -/
inductive Del where
  | lxrtSemDelete
  | lxrtMbxDelete
  | rtNamedTaskDelete
  | taskDelete
  | rtNamedSemDelete
  deriving DecidableEq

/-- What a call deletes. -/
def Del.kind : Del → Kind
  | .lxrtSemDelete => .sem
  | .lxrtMbxDelete => .mbx
  | .rtNamedTaskDelete => .task
  | .taskDelete => .task
  | .rtNamedSemDelete => .sem

/-- Where a task stands in its call. -/
inductive Pc where
  | idle
  | lookup (i : Init) (name : Nat)
  | make (i : Init) (name : Nat)
  | check (i : Init) (name adr : Nat)
  | insName (i : Init) (name adr : Nat)
  | insAdr (adr k : Nat)
  | giveUp (adr : Nat)
  | drgCnt (adr : Nat)
  | tear (d : Del) (adr : Nat)
  | free (d : Del) (adr : Nat) (own : Option Nat)
  | drg (adr : Nat) (own : Option Nat)
  deriving DecidableEq

/-- What a task calls. -/
inductive Call where
  | init (i : Init) (name : Nat)
  | delete (d : Del) (adr : Nat)
  deriving DecidableEq

/-- What decides a step besides the state: what `rt_malloc` returns, whether the
    initialisation of the object succeeds or `clr_rtext` may be called, and
    whether `clr_rtext` leaves a task that owns semaphores to be deleted
    later. -/
structure Choice where
  mem : Option Nat
  ok : Bool
  later : Bool
  deriving DecidableEq

/-- A call is made, or goes on. -/
inductive Act where
  | call (c : Call)
  | go (ch : Choice)
  deriving DecidableEq

/-- The registry, the memory, and the tasks.  `clock` gives out the stamps, and
    `named` has, for each address, the one it was registered with: both are
    ghosts. -/
structure Sys (T : Type) where
  reg : Registry
  heap : Nat → Option Cell
  clock : Nat
  named : Nat → Option Nat
  pc : T → Pc

section Sys

variable {T : Type} [decT : DecidableEq T] (s : Sys T) (t : T)

/-- Which use of the memory it is. -/
def Sys.stampAt (adr : Nat) : Option Nat := (s.heap adr).map Cell.stamp

/-- The `magic` found in the memory. -/
def Sys.magicAt (adr : Nat) : Option Kind := (s.heap adr).bind Cell.magic

/-- A process moves. -/
def Sys.goto (p : Pc) : Sys T := { s with pc := Function.update s.pc t p }

/-- A piece of memory is taken or freed. -/
def Sys.setHeap (adr : Nat) (c : Option Cell) : Sys T :=
  { s with heap := Function.update s.heap adr c }

/-- The registry changes. -/
def Sys.setSlots (list : Slots) : Sys T :=
  { s with reg := { s.reg with lxrtList := list } }

/-- `rt_malloc`, and the initialisation of what it returns. -/
def Sys.makes (i : Init) (name : Nat) (ch : Choice) : Sys T :=
  match ch.mem with
  | none => s.goto t .idle
  | some adr =>
    { s with clock := s.clock + 1 }.setHeap adr
      (some ⟨s.clock, if ch.ok then some i.kind else none⟩) |>.goto t
      (if ch.ok then .check i name adr else .giveUp adr)

/-- `rt_sem_delete`, `rt_mbx_delete` and `clr_rtext` fail when the magic number
    is not there, and take it away.  `__task_delete` is for the task itself, and
    `rt_task_delete` does not say that `clr_rtext` has failed. -/
def Sys.tears (d : Del) (adr : Nat) (ch : Choice) : Sys T :=
  if s.magicAt adr = some d.kind ∧ (d.kind = .task → ch.ok) then
    if d.kind = .task ∧ ch.later then s.goto t (.free d adr (s.stampAt adr))
    else
      s.setHeap adr ((s.heap adr).map fun c => { c with magic := none })
        |>.goto t (.free d adr (s.stampAt adr))
  else if d = .rtNamedTaskDelete then s.goto t (.free d adr (s.stampAt adr))
  else s.goto t .idle

/-- The next step of a task. -/
def Sys.next (a : Act) : Sys T :=
  match s.pc t, a with
  | .idle, .call (.init i name) => s.goto t (.lookup i name)
  | .idle, .call (.delete d adr) =>
    s.goto t (if d = .rtNamedSemDelete then .drgCnt adr else .tear d adr)
  | .lookup i name, .go _ =>
    s.goto t (if getAdr s.reg name ≠ 0 then .idle else .make i name)
  | .make i name, .go ch => s.makes t i name ch
  | .check i name adr, .go _ =>
    s.goto t (if getAdr s.reg name ≠ 0 then .giveUp adr
      else .insName i name adr)
  | .insName i name adr, .go _ =>
    match insNameSection name i.type 0 s.reg.lxrtList s.reg.maxSlots true with
    | (list, .inl v) =>
      (s.setSlots list).goto t (if |v| ≠ 0 then .idle else .giveUp adr)
    | (list, .inr k) => (s.setSlots list).goto t (.insAdr adr k)
  | .insAdr adr k, .go _ =>
    let r := insAdrSection adr s.reg.lxrtList s.reg.maxSlots k
    if |r.2| ≠ 0 then
      { s.setSlots r.1 with
        named := Function.update s.named adr (s.stampAt adr) }.goto t .idle
    else (s.setSlots r.1).goto t (.giveUp adr)
  | .giveUp adr, .go _ => (s.setHeap adr none).goto t .idle
  | .drgCnt adr, .go _ =>
    let r := rtDrgOnAdrCnt s.reg adr
    { s with reg := r.1 }.goto t (if r.2 = 0 then .tear .rtNamedSemDelete adr else .idle)
  | .tear d adr, .go ch => s.tears t d adr ch
  | .free d adr own, .go _ =>
    (s.setHeap adr none).goto t (if d = .rtNamedSemDelete then .idle else .drg adr own)
  | .drg adr _, .go _ => { s with reg := (rtDrgOnAdr s.reg adr).1 }.goto t .idle
  | _, _ => s

/-- The tasks go on in any order. -/
def running (s : Sys T) (a : T × Act) : Option (Sys T × Unit) :=
  some (s.next a.1 a.2, ())

/-- Before any call. -/
def Sys.start (n : Nat) : Sys T where
  reg := rtRegistryAlloc n
  heap := fun _ => none
  clock := 0
  named := fun _ => none
  pc := fun _ => .idle

/-! ## What the steps are subject to -/

/-- An object that is being made. -/
def Pc.building : Pc → Option Nat
  | .check _ _ adr => some adr
  | .insName _ _ adr => some adr
  | .insAdr adr _ => some adr
  | .giveUp adr => some adr
  | _ => none

/-- No slot has the address. -/
def Unregistered (s : Sys T) (adr : Nat) : Prop :=
  ∀ j, Seat s.reg.maxSlots j → (s.reg.lxrtList j).adr ≠ adr

/-- The allocation returns memory that is not in use. -/
def Mallocs (s : Sys T) (a : T × Act) : Prop :=
  match a.2 with
  | .go ch => ∀ adr ∈ ch.mem, NOADR < adr ∧ s.heap adr = none
  | _ => True

/-- Nothing is freed that is registered, and nothing is registered that a
    deletion is about to deregister; what is deleted is not being made, and when
    it is a task, it is one and is deleted at once. -/
def Spares (s : Sys T) (a : T × Act) : Prop :=
  match s.pc a.1, a.2 with
  | .idle, .call (.init _ name) => NONAME < name
  | .idle, .call (.delete _ adr) => NOADR < adr
  | .tear d adr, .go ch =>
    (∀ u, (s.pc u).building ≠ some adr) ∧ (d.kind = .task → ch.later = false) ∧
      (d = .rtNamedTaskDelete → s.magicAt adr = some .task ∧ ch.ok)
  | .free _ adr _, .go _ => Unregistered s adr
  | .insAdr adr _, .go _ => ∀ u own, s.pc u ≠ .drg adr own
  | _, _ => True

/-- The task is about to deregister the object it deletes. -/
def Own (s : Sys T) (t : T) (adr : Nat) : Prop :=
  s.pc t = .drgCnt adr ∨ s.pc t = .drg adr (s.named adr)

/-- **THE REGISTRY NAMES MEMORY IN USE**, and no step takes an address from a
    name except in the deletion of the object. -/
def NamesInUse (s : Sys T) : Prop :=
  (∀ name, NONAME < name → getAdr s.reg name ≠ 0 → s.heap (getAdr s.reg name) ≠ none) ∧
  (∀ name, NONAME < name → (getAdrCnt s.reg name).2 ≠ 0 →
    s.heap (getAdrCnt s.reg name).2 ≠ none) ∧
  ∀ t a name adr, Names s.reg.lxrtList s.reg.maxSlots name adr →
    ¬ Names (s.next t a).reg.lxrtList (s.next t a).reg.maxSlots name adr →
    Own s t adr

/-! ## The invariant -/

/-- The address that a step will free or register. -/
def Pc.holds : Pc → Option Nat
  | .free _ adr _ => some adr
  | p => p.building

/-- The address that a task is concerned with. -/
def Pc.about : Pc → Option Nat
  | .drg adr _ => some adr
  | .drgCnt adr => some adr
  | .tear _ adr => some adr
  | p => p.holds

/-- The name that a task is concerned with. -/
def Pc.name : Pc → Option Nat
  | .lookup _ name => some name
  | .make _ name => some name
  | .check _ name _ => some name
  | .insName _ name _ => some name
  | _ => none

/-- The slot in which a name waits for its address. -/
def Pc.slot : Pc → Option Nat
  | .insAdr _ k => some k
  | _ => none

/-- What holds where a task stands: what is being made is in use and not
    registered, what is being freed is the object that was torn down, and what
    is still to be deregistered, if it is registered, is that object. -/
structure Stands (s : Sys T) (p : Pc) : Prop where
  about : ∀ adr, p.about = some adr → NOADR < adr
  name : ∀ name, p.name = some name → NONAME < name
  building : ∀ adr, p.building = some adr → s.heap adr ≠ none ∧ Unregistered s adr
  slot : ∀ k, p.slot = some k → Waiting s.reg.lxrtList s.reg.maxSlots k
  free : ∀ d adr own, p = .free d adr own → s.heap adr ≠ none ∧ s.magicAt adr = none
  drg : ∀ adr own, p = .drg adr own → Unregistered s adr ∨ own = s.named adr

/-- Every registered address is in use, by what was registered. -/
def InUse (s : Sys T) : Prop :=
  ∀ j, Seat s.reg.maxSlots j → NOADR < (s.reg.lxrtList j).adr →
    s.heap (s.reg.lxrtList j).adr ≠ none ∧
      s.named (s.reg.lxrtList j).adr = s.stampAt (s.reg.lxrtList j).adr

/-- Registered memory is in use. -/
structure MemInv (s : Sys T) : Prop where
  linked : Linked s.reg.lxrtList s.reg.maxSlots
  registered : InUse s
  stands : ∀ t, Stands s (s.pc t)
  apart : ∀ t u adr, (s.pc t).holds = some adr → (s.pc u).holds = some adr → t = u
  slots : ∀ t u k, (s.pc t).slot = some k → (s.pc u).slot = some k → t = u

section Inv

variable {s s' : Sys T} {t : T} {p : Pc}

theorem Pc.holds_of_building {q : Pc} {adr : Nat} (h : q.building = some adr) :
    q.holds = some adr := by
  cases q <;> first | exact h | exact nomatch h

theorem Pc.about_of_building {q : Pc} {adr : Nat} (h : q.building = some adr) :
    q.about = some adr := by
  cases q <;> first | exact h | exact nomatch h

theorem Pc.holds_cases {q : Pc} {adr : Nat} (h : q.holds = some adr) :
    q.building = some adr ∨ ∃ d own, q = .free d adr own := by
  cases q with
  | free d b own =>
    obtain rfl := Option.some.inj h
    exact Or.inr ⟨d, own, rfl⟩
  | _ => exact Or.inl h

omit decT in
/-- What another task does is not in the way. -/
theorem Stands.frame (h : Stands s p) (hn : s'.reg.maxSlots = s.reg.maxSlots)
    (hheap : ∀ adr, p.holds = some adr → s'.heap adr = s.heap adr)
    (hadr : ∀ adr, p.about = some adr → ∀ j, Seat s.reg.maxSlots j →
      (s'.reg.lxrtList j).adr = adr → (s.reg.lxrtList j).adr = adr)
    (hnamed : ∀ adr, p.about = some adr → s'.named adr = s.named adr)
    (hslot : ∀ k, p.slot = some k → Waiting s.reg.lxrtList s.reg.maxSlots k →
      Waiting s'.reg.lxrtList s.reg.maxSlots k) : Stands s' p where
  about := h.about
  name := h.name
  building := by
    intro adr hb
    obtain ⟨h1, h2⟩ := h.building adr hb
    rw [hheap adr (Pc.holds_of_building hb)]
    refine ⟨h1, ?_⟩
    intro j hj heq
    rw [hn] at hj
    exact h2 j hj (hadr adr (Pc.about_of_building hb) j hj heq)
  slot := by
    intro k hk
    rw [hn]
    exact hslot k hk (h.slot k hk)
  free := by
    rintro d adr own rfl
    unfold Sys.magicAt
    rw [hheap adr rfl]
    exact h.free d adr own rfl
  drg := by
    rintro adr own rfl
    rcases h.drg adr own rfl with hno | hown
    · left
      intro j hj heq
      rw [hn] at hj
      exact hno j hj (hadr adr rfl j hj heq)
    · right
      rw [hnamed adr rfl]
      exact hown

theorem Sys.goto_pc (s : Sys T) (t : T) (p : Pc) (u : T) :
    (s.goto t p).pc u = if u = t then p else s.pc u :=
  Function.update_apply ..

omit decT in
theorem Sys.setHeap_self (s : Sys T) (adr : Nat) (c : Option Cell) :
    (s.setHeap adr c).heap adr = c :=
  Function.update_self ..

/-- **ONE TASK GOES ON**: what it changes is not in the way of the others. -/
theorem MemInv.moves (I : MemInv s) {s₁ : Sys T} (hpc : s₁.pc = s.pc)
    (hlinked : Linked s₁.reg.lxrtList s₁.reg.maxSlots)
    (hreg : InUse s₁)
    (hothers : ∀ u, u ≠ t → Stands s₁ (s.pc u)) (hp : Stands s₁ p)
    (hholds : ∀ adr, p.holds = some adr → ∀ u, u ≠ t → (s.pc u).holds ≠ some adr)
    (hslot : ∀ k, p.slot = some k → ∀ u, u ≠ t → (s.pc u).slot ≠ some k) :
    MemInv (s₁.goto t p) := by
  have hpcs : ∀ u, (s₁.goto t p).pc u = if u = t then p else s.pc u := by
    intro u
    rw [Sys.goto_pc, hpc]
  refine ⟨hlinked, hreg, ?_, ?_, ?_⟩
  · intro u
    rw [hpcs]
    have hsame : ∀ q, Stands s₁ q → Stands (s₁.goto t p) q :=
      fun q h => ⟨h.about, h.name, h.building, h.slot, h.free, h.drg⟩
    by_cases hu : u = t
    · rw [if_pos hu]
      exact hsame p hp
    · rw [if_neg hu]
      exact hsame _ (hothers u hu)
  · intro u v adr hu hv
    rw [hpcs] at hu hv
    by_cases hut : u = t
    · by_cases hvt : v = t
      · rw [hut, hvt]
      · rw [if_pos hut] at hu
        rw [if_neg hvt] at hv
        exact absurd hv (hholds adr hu v hvt)
    · rw [if_neg hut] at hu
      by_cases hvt : v = t
      · rw [if_pos hvt] at hv
        exact absurd hu (hholds adr hv u hut)
      · rw [if_neg hvt] at hv
        exact I.apart u v adr hu hv
  · intro u v k hu hv
    rw [hpcs] at hu hv
    by_cases hut : u = t
    · by_cases hvt : v = t
      · rw [hut, hvt]
      · rw [if_pos hut] at hu
        rw [if_neg hvt] at hv
        exact absurd hv (hslot k hu v hvt)
    · rw [if_neg hut] at hu
      by_cases hvt : v = t
      · rw [if_pos hvt] at hv
        exact absurd hu (hslot k hv u hut)
      · rw [if_neg hvt] at hv
        exact I.slots u v k hu hv

/-- A task goes on with what it has, and nothing else changes. -/
theorem MemInv.goto (I : MemInv s) (hp : Stands s p)
    (hholds : ∀ adr, p.holds = some adr → (s.pc t).holds = some adr)
    (hslot : p.slot = none) : MemInv (s.goto t p) := by
  refine I.moves rfl I.linked I.registered (fun u _ => I.stands u) hp ?_ ?_
  · intro adr h u hu hheld
    exact hu (I.apart u t adr hheld (hholds adr h))
  · intro k h
    rw [hslot] at h
    exact nomatch h

omit decT in
/-- A task that holds nothing. -/
theorem Stands.light (ha : ∀ adr, p.about = some adr → NOADR < adr)
    (hn : ∀ name, p.name = some name → NONAME < name) (hb : p.holds = none)
    (hs : p.slot = none) (hd : ∀ adr own, p ≠ .drg adr own) : Stands s p where
  about := ha
  name := hn
  building := by
    intro adr h
    have hh := Pc.holds_of_building h
    rw [hb] at hh
    exact nomatch hh
  slot := by
    intro k h
    rw [hs] at h
    exact nomatch h
  free := by
    rintro d adr own rfl
    exact nomatch hb
  drg := fun adr own h => absurd h (hd adr own)

omit decT in
theorem Stands.idle : Stands s .idle :=
  .light nofun nofun rfl rfl nofun

/-- A task goes on that holds nothing any more. -/
theorem MemInv.lets (I : MemInv s) (ha : ∀ adr, p.about = some adr → NOADR < adr)
    (hn : ∀ name, p.name = some name → NONAME < name) (hb : p.holds = none)
    (hs : p.slot = none) (hd : ∀ adr own, p ≠ .drg adr own) :
    MemInv (s.goto t p) := by
  refine I.goto (.light ha hn hb hs hd) ?_ hs
  intro adr h
  rw [hb] at h
  exact nomatch h

omit decT in
/-- An object goes from hand to hand. -/
theorem Stands.keeps {q : Pc} {adr : Nat} (h : Stands s p)
    (hp : p.building = some adr) (hq : q.building = some adr)
    (hn : ∀ name, q.name = some name → NONAME < name) (hs : q.slot = none) :
    Stands s q := by
  have hlt : NOADR < adr := h.about adr (Pc.about_of_building hp)
  refine ⟨?_, hn, ?_, ?_, ?_, ?_⟩
  · intro b hb
    rw [Pc.about_of_building hq] at hb
    exact Option.some.inj hb ▸ hlt
  · intro b hb
    rw [hq] at hb
    exact Option.some.inj hb ▸ h.building adr hp
  · intro k hk
    rw [hs] at hk
    exact nomatch hk
  · rintro d b own rfl
    exact nomatch hq
  · rintro b own rfl
    exact nomatch hq

theorem MemInv.keeps (I : MemInv s) {q : Pc} {adr : Nat}
    (hp : (s.pc t).building = some adr) (hq : q.building = some adr)
    (hn : ∀ name, q.name = some name → NONAME < name) (hs : q.slot = none) :
    MemInv (s.goto t q) := by
  refine I.goto ((I.stands t).keeps hp hq hn hs) ?_ hs
  intro b hb
  rw [Pc.holds_of_building hq] at hb
  rw [← hb]
  exact Pc.holds_of_building hp

/-! ## Memory is allocated, torn down and freed -/

/-- The memory at one address changes, of which no other task holds anything. -/
theorem MemInv.setHeap (I : MemInv s) {adr : Nat} {c : Option Cell}
    (hreg : Unregistered s adr ∨ c ≠ none ∧ c.map Cell.stamp = s.stampAt adr)
    (hothers : ∀ u, u ≠ t → (s.pc u).holds ≠ some adr)
    (hp : Stands (s.setHeap adr c) p)
    (hholds : ∀ b, p.holds = some b → b = adr) (hslot : p.slot = none) :
    MemInv ((s.setHeap adr c).goto t p) := by
  refine I.moves rfl I.linked ?_ ?_ hp ?_ ?_
  · intro j hj hlt
    obtain ⟨h1, h2⟩ := I.registered j hj hlt
    show Function.update s.heap adr c (s.reg.lxrtList j).adr ≠ none ∧
      s.named (s.reg.lxrtList j).adr =
        (Function.update s.heap adr c (s.reg.lxrtList j).adr).map Cell.stamp
    by_cases hb : (s.reg.lxrtList j).adr = adr
    · rcases hreg with hno | ⟨hc, hstamp⟩
      · exact absurd hb (hno j hj)
      · rw [hb] at h2 ⊢
        rw [Function.update_self]
        exact ⟨hc, h2.trans hstamp.symm⟩
    · rw [Function.update_of_ne hb]
      exact ⟨h1, h2⟩
  · intro u hu
    refine (I.stands u).frame rfl ?_ (fun _ _ _ _ h => h) (fun _ _ => rfl) fun _ _ h => h
    intro b hb
    refine Function.update_of_ne ?_ ..
    rintro rfl
    exact hothers u hu hb
  · intro b hb u hu
    rw [hholds b hb]
    exact hothers u hu
  · intro k hk
    rw [hslot] at hk
    exact nomatch hk

omit decT in
/-- Memory that is not in use is not registered, and nobody holds it. -/
theorem MemInv.unused (I : MemInv s) {adr : Nat} (hadr : NOADR < adr) (h : s.heap adr = none) :
    Unregistered s adr ∧ ∀ u, (s.pc u).holds ≠ some adr := by
  constructor
  · rintro j hj rfl
    exact (I.registered j hj hadr).1 h
  · intro u hu
    rcases Pc.holds_cases hu with hb | ⟨d, own, hf⟩
    · exact ((I.stands u).building adr hb).1 h
    · exact ((I.stands u).free d adr own hf).1 h

/-- **AN OBJECT IS MADE.** -/
theorem MemInv.makes (I : MemInv s) {i : Init} {name : Nat} {ch : Choice}
    (hname : NONAME < name)
    (hm : ∀ adr ∈ ch.mem, NOADR < adr ∧ s.heap adr = none) :
    MemInv (s.makes t i name ch) := by
  unfold Sys.makes
  cases hmem : ch.mem with
  | none => exact I.lets nofun nofun rfl rfl nofun
  | some adr =>
    obtain ⟨hadr, hfree⟩ := hm adr hmem
    obtain ⟨hno, hheld⟩ := I.unused hadr hfree
    have I' : MemInv { s with clock := s.clock + 1 } := by
      refine ⟨I.linked, I.registered, ?_, I.apart, I.slots⟩
      intro u
      have h := I.stands u
      exact ⟨h.about, h.name, h.building, h.slot, h.free, h.drg⟩
    dsimp only
    refine I'.setHeap (Or.inl hno) (fun u _ => hheld u) ?_ ?_ ?_
    · refine ⟨?_, ?_, ?_, ?_, ?_, ?_⟩
      · intro b hb
        have heq : b = adr := by
          cases hok : ch.ok <;> rw [hok] at hb <;> exact (Option.some.inj hb).symm
        rw [heq]
        exact hadr
      · intro m hmn
        cases hok : ch.ok <;> rw [hok] at hmn
        · exact nomatch hmn
        · exact Option.some.inj hmn ▸ hname
      · intro b hb
        have heq : b = adr := by
          cases hok : ch.ok <;> rw [hok] at hb <;> exact (Option.some.inj hb).symm
        subst heq
        refine ⟨?_, hno⟩
        show Function.update s.heap b _ b ≠ none
        rw [Function.update_self]
        exact Option.some_ne_none _
      · intro k hk
        cases hok : ch.ok <;> rw [hok] at hk <;> exact nomatch hk
      · intro d b own h
        cases hok : ch.ok <;> rw [hok] at h <;> exact nomatch h
      · intro b own h
        cases hok : ch.ok <;> rw [hok] at h <;> exact nomatch h
    · intro b hb
      cases hok : ch.ok <;> rw [hok] at hb <;> exact (Option.some.inj hb).symm
    · cases ch.ok <;> rfl

/-- **AN OBJECT IS TORN DOWN.** -/
theorem MemInv.tears (I : MemInv s) {d : Del} {adr : Nat} {ch : Choice}
    (hpc : s.pc t = .tear d adr) (hs : Spares s (t, .go ch)) :
    MemInv (s.tears t d adr ch) := by
  simp only [Spares, hpc] at hs
  obtain ⟨hbuild, hlater, htask⟩ := hs
  have hadr : NOADR < adr := (I.stands t).about adr (by rw [hpc]; rfl)
  unfold Sys.tears
  by_cases hfits : s.magicAt adr = some d.kind ∧ (d.kind = .task → ch.ok)
  · have hnow : ¬ (d.kind = .task ∧ ch.later) := by
      rintro ⟨hk, hl⟩
      rw [hlater hk] at hl
      exact nomatch hl
    rw [if_pos hfits, if_neg hnow]
    obtain ⟨c, hc, hmagic⟩ := Option.bind_eq_some_iff.mp hfits.1
    have hheap : (s.setHeap adr
        ((s.heap adr).map fun c => { c with magic := none })).heap adr =
        some { c with magic := none } := by
      rw [Sys.setHeap_self, hc]
      rfl
    refine I.setHeap (Or.inr ?_) ?_ ?_ ?_ rfl
    · unfold Sys.stampAt
      rw [hc]
      exact ⟨Option.some_ne_none _, rfl⟩
    · intro u _ hu
      rcases Pc.holds_cases hu with hb | ⟨d', own, hf⟩
      · exact hbuild u hb
      · have hnone := ((I.stands u).free d' adr own hf).2
        rw [hfits.1] at hnone
        exact nomatch hnone
    · refine ⟨?_, nofun, nofun, nofun, ?_, nofun⟩
      · rintro b hb
        exact Option.some.inj hb ▸ hadr
      · rintro d' b own hb
        obtain ⟨-, rfl, -⟩ := Pc.free.inj hb
        unfold Sys.magicAt
        rw [hheap]
        exact ⟨Option.some_ne_none _, rfl⟩
    · intro b hb
      exact (Option.some.inj hb).symm
  · rw [if_neg hfits]
    by_cases hd : d = .rtNamedTaskDelete
    · subst hd
      exact absurd ⟨(htask rfl).1, fun _ => (htask rfl).2⟩ hfits
    · rw [if_neg hd]
      exact I.lets nofun nofun rfl rfl nofun

omit decT in
/-- Nobody else holds what a task holds. -/
theorem MemInv.alone (I : MemInv s) {adr : Nat}
    (h : (s.pc t).holds = some adr) (u : T) (hu : u ≠ t) :
    (s.pc u).holds ≠ some adr :=
  fun hheld => hu (I.apart u t adr hheld h)

/-- **AN OBJECT IS FREED** that is not registered. -/
theorem MemInv.frees (I : MemInv s) {adr : Nat} (hno : Unregistered s adr)
    (hheld : (s.pc t).holds = some adr) (hp : Stands (s.setHeap adr none) p)
    (hb : p.holds = none) (hslot : p.slot = none) :
    MemInv ((s.setHeap adr none).goto t p) := by
  refine I.setHeap (Or.inl hno) (I.alone hheld) hp ?_ hslot
  intro b h
  rw [hb] at h
  exact nomatch h

/-! ## The registry changes -/

/-- No address is added to the registry. -/
theorem MemInv.setSlots (I : MemInv s) {list : Slots} (hl : Linked list s.reg.maxSlots)
    (hadr : ∀ j, (list j).adr = (s.reg.lxrtList j).adr ∨ (list j).adr ≤ NOADR)
    (hwait : ∀ k, Waiting s.reg.lxrtList s.reg.maxSlots k → Waiting list s.reg.maxSlots k)
    (hp : Stands (s.setSlots list) p)
    (hholds : ∀ adr, p.holds = some adr → (s.pc t).holds = some adr)
    (hslot : ∀ k, p.slot = some k → ∀ u, u ≠ t → (s.pc u).slot ≠ some k) :
    MemInv ((s.setSlots list).goto t p) := by
  have hsame : ∀ j, NOADR < (list j).adr → (list j).adr = (s.reg.lxrtList j).adr :=
    fun j hlt => (hadr j).resolve_right (not_le.mpr hlt)
  refine I.moves rfl hl ?_ ?_ hp ?_ hslot
  · intro j hj hlt
    show s.heap (list j).adr ≠ none ∧ s.named (list j).adr = s.stampAt (list j).adr
    rw [hsame j hlt]
    exact I.registered j hj (hsame j hlt ▸ hlt)
  · intro u _
    refine (I.stands u).frame rfl (fun _ _ => rfl) ?_ (fun _ _ => rfl) fun k _ => hwait k
    intro adr ha j _ heq
    have hlt : NOADR < (list j).adr := by
      rw [show (list j).adr = adr from heq]
      exact (I.stands u).about adr ha
    exact (hsame j hlt).symm.trans heq
  · intro adr h u hu hheld
    exact hu (I.apart u t adr hheld (hholds adr h))

theorem MemInv.leaves (I : MemInv s) {list : Slots} {adr : Nat}
    (h : Leaves s.reg.lxrtList list s.reg.maxSlots adr)
    (ha : ∀ b, p.about = some b → NOADR < b) (hn : p.name = none)
    (hb : p.holds = none) (hs : p.slot = none)
    (hd : ∀ b own, p ≠ .drg b own) : MemInv ((s.setSlots list).goto t p) := by
  refine I.setSlots h.linked h.adrs h.waiting (.light ha ?_ hb hs hd) ?_ ?_
  · intro name hname
    rw [hn] at hname
    exact nomatch hname
  · intro b hheld
    rw [hb] at hheld
    exact nomatch hheld
  · intro k hk
    rw [hs] at hk
    exact nomatch hk

/-- **THE SECTION OF THE NAME.** -/
theorem MemInv.insertsName (I : MemInv s) {i : Init} {name adr : Nat}
    (hpc : s.pc t = .insName i name adr) (ch : Choice) :
    MemInv (s.next t (.go ch)) := by
  have L := I.linked
  have hname : NONAME < name := (I.stands t).name name (by rw [hpc]; rfl)
  have hbuild : (s.pc t).building = some adr := by rw [hpc]; rfl
  have hadr : NOADR < adr :=
    (I.stands t).about adr (Pc.about_of_building hbuild)
  obtain ⟨hused, hno⟩ := (I.stands t).building adr hbuild
  unfold Sys.next
  rw [hpc]
  dsimp only
  unfold insNameSection
  rcases vacancy_cases L.pos name (names s.reg.lxrtList) with
    ⟨k, hk, hs, hf⟩ | ⟨hs, -⟩
  · rw [hs]
    dsimp only
    by_cases hkn : (s.reg.lxrtList k).name = name
    · -- the name has appeared: the object is taken for registered
      rw [if_pos hkn]
      dsimp only
      rw [if_pos rfl]
      have hfields := @relabel_count s.reg.lxrtList k (toCount ((s.reg.lxrtList k).count + 1))
      have hk0 : |-(k : Int)| ≠ 0 := by
        have := hk.1
        rw [abs_ne_zero]
        omega
      rw [if_pos hk0]
      have hleaves : Leaves s.reg.lxrtList (incCount s.reg.lxrtList k)
          s.reg.maxSlots adr := by
        refine ⟨L.relabel hfields, ?_, ?_, ?_⟩
        · intro m a h _
          exact (names_relabel hfields).mpr h
        · intro x
          exact Or.inl (hfields x).2.1
        · rintro x ⟨h1, h2, h3⟩
          exact ⟨h1, (hfields x).1.symm ▸ h2, (hfields x).2.2.1.trans h3⟩
      exact I.leaves hleaves nofun rfl rfl rfl nofun
    · have hle := hf.resolve_left hkn
      rw [if_neg hkn]
      dsimp only
      have hadrs : ∀ x, (setName name i.type 0 s.reg.lxrtList k x).adr =
          (s.reg.lxrtList x).adr :=
        fun x => congrFun (adrs_setName s.reg.lxrtList k) x
      have hnew : Waiting (setName name i.type 0 s.reg.lxrtList k)
          s.reg.maxSlots k := by
        refine ⟨hk, ?_, ?_⟩ <;> rw [setName_self]
        exact hname
      have hne : ∀ x, Waiting s.reg.lxrtList s.reg.maxSlots x → x ≠ k := by
        rintro x hx rfl
        exact absurd hx.2.1 (not_lt.mpr hle)
      refine I.setSlots (L.setName hle) (fun x => Or.inl (hadrs x)) ?_ ?_ ?_ ?_
      · intro x hx
        refine ⟨hx.1, ?_, ?_⟩ <;> rw [setName_of_ne _ (hne x hx)]
        · exact hx.2.1
        · exact hx.2.2
      · refine ⟨?_, nofun, ?_, ?_, nofun, nofun⟩
        · intro b hb
          exact Option.some.inj hb ▸ hadr
        · intro b hb
          obtain rfl := Option.some.inj hb
          refine ⟨hused, ?_⟩
          intro j hj heq
          exact hno j hj ((hadrs j).symm.trans heq)
        · intro x hx
          exact Option.some.inj hx ▸ hnew
      · intro b hb
        rw [← hb]
        exact Pc.holds_of_building hbuild
      · intro x hx u _ hu
        refine hne x ((I.stands u).slot x hu) ?_
        exact (Option.some.inj hx).symm
  · rw [hs]
    dsimp only
    rw [if_neg (by rw [abs_zero]; exact not_not.mpr rfl)]
    exact I.keeps hbuild rfl nofun rfl

/-- What the section of the address does. -/
theorem insAdrSection_cases {list : Slots} {n adr k : Nat} (L : Linked list n)
    (hadr : NOADR < adr) (hno : ∀ j, Seat n j → (list j).adr ≠ adr) :
    insAdrSection adr list n k = (list, 0) ∨ ∃ j, Seat n j ∧ (list j).adr ≤ NOADR ∧
        insAdrSection adr list n k = (setAdr adr list k j, (k : Int)) ∧
        Column n (Function.update (adrs list) j adr) := by
  unfold insAdrSection hashInsAdr
  rcases L.adrs.places L.pos hadr hno with ⟨j, hj, hs, hle, hcol⟩ | ⟨hs, -⟩
  · right
    refine ⟨j, hj, hle, ?_, hcol⟩
    have hpos : ¬ (j : Int) ≤ 0 := by
      have := hj.1
      omega
    rw [hs]
    dsimp only
    rw [if_neg (hno j hj)]
    dsimp only
    rw [if_neg hpos]
  · left
    rw [hs]
    rfl

/-- **THE SECTION OF THE ADDRESS**: the object is registered. -/
theorem MemInv.insertsAdr (I : MemInv s) {adr k : Nat}
    (hpc : s.pc t = .insAdr adr k) {ch : Choice}
    (hs : Spares s (t, .go ch)) : MemInv (s.next t (.go ch)) := by
  simp only [Spares, hpc] at hs
  have L := I.linked
  have hbuild : (s.pc t).building = some adr := by rw [hpc]; rfl
  have hadr : NOADR < adr :=
    (I.stands t).about adr (Pc.about_of_building hbuild)
  obtain ⟨hused, hno⟩ := (I.stands t).building adr hbuild
  have hwait := (I.stands t).slot k (by rw [hpc]; rfl)
  unfold Sys.next
  rw [hpc]
  dsimp only
  rcases @insAdrSection_cases s.reg.lxrtList s.reg.maxSlots adr k L hadr hno with
    hsec | ⟨j, hj, hle, hsec, hcol⟩
  · rw [hsec]
    dsimp only
    rw [if_neg (by rw [abs_zero]; exact not_not.mpr rfl)]
    exact I.keeps hbuild rfl nofun rfl
  · have hk0 : |(k : Int)| ≠ 0 := by
      have := hwait.1.1
      rw [abs_ne_zero]
      omega
    rw [hsec]
    dsimp only
    rw [if_pos hk0]
    have hf := setAdr_fields adr s.reg.lxrtList k j
    refine I.moves rfl (L.setAdr hwait hj hle hadr hcol) ?_ ?_ .idle nofun nofun
    · intro x hx hlt
      show s.heap (setAdr adr s.reg.lxrtList k j x).adr ≠ none ∧
        Function.update s.named adr (s.stampAt adr) (setAdr adr s.reg.lxrtList k j x).adr =
          s.stampAt (setAdr adr s.reg.lxrtList k j x).adr
      have hlt' : NOADR < (setAdr adr s.reg.lxrtList k j x).adr := hlt
      rw [(hf x).2.1] at hlt' ⊢
      by_cases hxj : x = j
      · rw [if_pos hxj, Function.update_self]
        exact ⟨hused, rfl⟩
      · rw [if_neg hxj] at hlt' ⊢
        rw [Function.update_of_ne (hno x hx)]
        exact I.registered x hx hlt'
    · intro u hu
      -- nobody else has to do with the new address
      have hother : ∀ b, (s.pc u).holds = some b → b ≠ adr := by
        rintro b hb rfl
        exact I.alone (Pc.holds_of_building hbuild) u hu hb
      have hstands := I.stands u
      refine ⟨hstands.about, hstands.name, ?_, ?_, hstands.free, ?_⟩
      · intro b hb
        obtain ⟨h1, h2⟩ := hstands.building b hb
        refine ⟨h1, ?_⟩
        intro x hx heq
        have heq' : (setAdr adr s.reg.lxrtList k j x).adr = b := heq
        rw [(hf x).2.1] at heq'
        by_cases hxj : x = j
        · rw [if_pos hxj] at heq'
          exact hother b (Pc.holds_of_building hb) heq'.symm
        · rw [if_neg hxj] at heq'
          exact h2 x hx heq'
      · intro x hx
        obtain ⟨h1, h2, h3⟩ := hstands.slot x hx
        have hxk : x ≠ k := by
          rintro rfl
          exact hu (I.slots u t x hx (by rw [hpc]; rfl))
        refine ⟨h1, ?_, ?_⟩
        · show NONAME < (setAdr adr s.reg.lxrtList k j x).name
          rw [(hf x).1]
          exact h2
        · show (setAdr adr s.reg.lxrtList k j x).alink = 0
          rw [(hf x).2.2.1, if_neg hxk]
          exact h3
      · intro b own hb
        have hba : b ≠ adr := by
          rintro rfl
          exact hs u own hb
        rcases hstands.drg b own hb with hunreg | hown
        · left
          intro x hx heq
          have heq' : (setAdr adr s.reg.lxrtList k j x).adr = b := heq
          rw [(hf x).2.1] at heq'
          by_cases hxj : x = j
          · rw [if_pos hxj] at heq'
            exact hba heq'.symm
          · rw [if_neg hxj] at heq'
            exact hunreg x hx heq'
        · right
          show own = Function.update s.named adr (s.stampAt adr) b
          rw [Function.update_of_ne hba]
          exact hown

/-- **EVERY STEP KEEPS THE INVARIANT.** -/
theorem MemInv.next (I : MemInv s) {a : Act} (hm : Mallocs s (t, a))
    (hs : Spares s (t, a)) : MemInv (s.next t a) := by
  have L := I.linked
  have ha := (I.stands t).about
  have hn := (I.stands t).name
  cases hpc : s.pc t with
  | idle =>
    cases a with
    | call c =>
      cases c with
      | init i name =>
        simp only [Spares, hpc] at hs
        unfold Sys.next
        rw [hpc]
        dsimp only
        refine I.lets nofun ?_ rfl rfl nofun
        intro m hname
        exact Option.some.inj hname ▸ hs
      | delete d adr =>
        simp only [Spares, hpc] at hs
        unfold Sys.next
        rw [hpc]
        dsimp only
        have habout : ∀ b, some adr = some b → NOADR < b :=
          fun b hb => Option.some.inj hb ▸ hs
        split
        · exact I.lets habout nofun rfl rfl nofun
        · exact I.lets habout nofun rfl rfl nofun
    | go ch =>
      unfold Sys.next
      rw [hpc]
      dsimp only
      exact I
  | lookup i name =>
    cases a with
    | call c =>
      unfold Sys.next
      rw [hpc]
      dsimp only
      exact I
    | go ch =>
      rw [hpc] at hn
      unfold Sys.next
      rw [hpc]
      dsimp only
      split
      · exact I.lets nofun nofun rfl rfl nofun
      · exact I.lets nofun hn rfl rfl nofun
  | make i name =>
    cases a with
    | call c =>
      unfold Sys.next
      rw [hpc]
      dsimp only
      exact I
    | go ch =>
      rw [hpc] at hn
      unfold Sys.next
      rw [hpc]
      dsimp only
      exact I.makes (hn name rfl) hm
  | check i name adr =>
    cases a with
    | call c =>
      unfold Sys.next
      rw [hpc]
      dsimp only
      exact I
    | go ch =>
      have hbuild : (s.pc t).building = some adr := by rw [hpc]; rfl
      rw [hpc] at hn
      unfold Sys.next
      rw [hpc]
      dsimp only
      split
      · exact I.keeps hbuild rfl nofun rfl
      · exact I.keeps hbuild rfl hn rfl
  | insName i name adr =>
    cases a with
    | call c =>
      unfold Sys.next
      rw [hpc]
      dsimp only
      exact I
    | go ch => exact I.insertsName hpc ch
  | insAdr adr k =>
    cases a with
    | call c =>
      unfold Sys.next
      rw [hpc]
      dsimp only
      exact I
    | go ch => exact I.insertsAdr hpc hs
  | giveUp adr =>
    cases a with
    | call c =>
      unfold Sys.next
      rw [hpc]
      dsimp only
      exact I
    | go ch =>
      have hbuild : (s.pc t).building = some adr := by rw [hpc]; rfl
      unfold Sys.next
      rw [hpc]
      dsimp only
      exact I.frees ((I.stands t).building adr hbuild).2
        (Pc.holds_of_building hbuild) .idle rfl rfl
  | drgCnt adr =>
    cases a with
    | call c =>
      unfold Sys.next
      rw [hpc]
      dsimp only
      exact I
    | go ch =>
      rw [hpc] at ha
      have hadr : NOADR < adr := ha adr rfl
      unfold Sys.next
      rw [hpc]
      dsimp only
      have hrem := L.remAdr hadr (-EFAULT)
      split
      · exact I.leaves hrem ha rfl rfl rfl nofun
      · exact I.leaves hrem nofun rfl rfl rfl nofun
  | tear d adr =>
    cases a with
    | call c =>
      unfold Sys.next
      rw [hpc]
      dsimp only
      exact I
    | go ch =>
      unfold Sys.next
      rw [hpc]
      dsimp only
      exact I.tears hpc hs
  | free d adr own =>
    cases a with
    | call c =>
      unfold Sys.next
      rw [hpc]
      dsimp only
      exact I
    | go ch =>
      simp only [Spares, hpc] at hs
      have hheld : (s.pc t).holds = some adr := by rw [hpc]; rfl
      rw [hpc] at ha
      unfold Sys.next
      rw [hpc]
      dsimp only
      split
      · exact I.frees hs hheld .idle rfl rfl
      · refine I.frees hs hheld ⟨ha, nofun, nofun, nofun, nofun, ?_⟩ rfl rfl
        rintro b o hb
        obtain ⟨rfl, rfl⟩ := Pc.drg.inj hb
        exact Or.inl hs
  | drg adr own =>
    cases a with
    | call c =>
      unfold Sys.next
      rw [hpc]
      dsimp only
      exact I
    | go ch =>
      rw [hpc] at ha
      unfold Sys.next
      rw [hpc]
      dsimp only
      exact I.leaves (L.remAdr (ha adr rfl) 0) nofun rfl rfl rfl nofun

/-- **A NAME LOSES ITS ADDRESS ONLY WITH ITS OBJECT.** -/
theorem MemInv.names_kept (I : MemInv s) (a : Act) {name adr : Nat}
    (h : Names s.reg.lxrtList s.reg.maxSlots name adr)
    (hlost : ¬ Names (s.next t a).reg.lxrtList (s.next t a).reg.maxSlots name
      adr) : Own s t adr := by
  have L := I.linked
  have hstands := I.stands t
  cases hpc : s.pc t <;> rw [hpc] at hstands <;> cases a <;>
    simp only [Sys.next, hpc] at hlost
  case make.go i m ch =>
    exfalso
    refine hlost ?_
    unfold Sys.makes
    split
    · exact h
    · exact h
  case insName.go i m b ch =>
    exfalso
    refine hlost ?_
    unfold insNameSection
    rcases vacancy_cases L.pos m (names s.reg.lxrtList) with
      ⟨k, hk, hs, hf⟩ | ⟨hs, -⟩
    · rw [hs]
      dsimp only
      by_cases hkn : (s.reg.lxrtList k).name = m
      · rw [if_pos hkn]
        exact (names_relabel (relabel_count _)).mpr h
      · rw [if_neg hkn]
        exact (names_setName (hf.resolve_left hkn)).mpr h
    · rw [hs]
      exact h
  case insAdr.go b k ch =>
    exfalso
    have hadr : NOADR < b := hstands.about b rfl
    obtain ⟨-, hno⟩ := hstands.building b rfl
    have hwait := hstands.slot k rfl
    rcases @insAdrSection_cases s.reg.lxrtList s.reg.maxSlots b k L hadr hno with
      hsec | ⟨j, hj, hle, hsec, -⟩
    · rw [hsec] at hlost
      dsimp only at hlost
      rw [if_neg (by rw [abs_zero]; exact not_not.mpr rfl)] at hlost
      exact hlost h
    · rw [hsec] at hlost
      dsimp only at hlost
      refine hlost ?_
      split
      · exact (L.names_setAdr hwait hj hle).mpr (Or.inl h)
      · exact (L.names_setAdr hwait hj hle).mpr (Or.inl h)
  case drgCnt.go b ch =>
    have hrem := L.remAdr (hstands.about b rfl) (-EFAULT)
    by_cases hab : adr = b
    · left
      rw [hpc, hab]
    · exact absurd (hrem.names name adr h hab) hlost
  case tear.go d b ch =>
    exfalso
    refine hlost ?_
    unfold Sys.tears
    split
    · split
      · exact h
      · exact h
    · split
      · exact h
      · exact h
  case drg.go b own ch =>
    have hrem := L.remAdr (hstands.about b rfl) 0
    by_cases hab : adr = b
    · subst hab
      right
      obtain ⟨-, j, hj, heq⟩ := L.names_adr h
      rcases hstands.drg adr own rfl with hno | hown
      · exact absurd heq (hno j hj)
      · rw [hpc, hown]
    · exact absurd (hrem.names name adr h hab) hlost
  case idle.call c =>
    cases c <;> exact absurd h hlost
  all_goals exact absurd h hlost

end Inv

theorem MemInv.namesInUse {s : Sys T} (I : MemInv s) : NamesInUse s := by
  have hfound : ∀ name, NONAME < name → getAdr s.reg name ≠ 0 →
      s.heap (getAdr s.reg name) ≠ none := by
    intro name hname h
    have hnames : Names s.reg.lxrtList s.reg.maxSlots name
        (getAdr s.reg name) := I.linked.getAdr_names hname h
    obtain ⟨hlt, j, hj, heq⟩ := I.linked.names_adr hnames
    rw [← heq] at hlt ⊢
    exact (I.registered j hj hlt).1
  refine ⟨hfound, ?_, ?_⟩
  · intro name hname h
    rw [getAdrCnt_adr] at h ⊢
    exact hfound name hname h
  · intro t a name adr h hlost
    exact I.names_kept a h hlost

omit decT in
instance (s : Sys T) (a : T × Act) : Decidable (Mallocs s a) := by
  obtain ⟨t, a⟩ := a
  cases a <;> unfold Mallocs <;> infer_instance

end Sys

/-- What decides the steps that nothing decides. -/
def Choice.plain : Choice where
  mem := none
  ok := true
  later := false

/-- `LXRT_SEM_INIT` of the name 2, in which `rt_malloc` returns 4096. -/
def making : List (Unit × Act) :=
  [((), .call (.init .lxrtSemInit 2)), ((), .go .plain),
    ((), .go { Choice.plain with mem := some 4096 }), ((), .go .plain),
    ((), .go .plain), ((), .go .plain)]

/-- `LXRT_SEM_DELETE` of it, up to where it has been freed. -/
def unmaking : List (Unit × Act) :=
  [((), .call (.delete .lxrtSemDelete 4096)), ((), .go .plain), ((), .go .plain)]

end RtaiFreedMemory
