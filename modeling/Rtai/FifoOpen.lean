import Rtai.Proxies
import Rtai.Runs
import Rtai.Tallies

/-! # Opening and destroying a fifo

    `rtf_create` with the `rtf_resize` it makes, and `rtf_destroy`, for one minor
    and any number of callers.  A step is an operation on `opncnt`, an allocation,
    an initialisation, the swap of the buffers or a release. -/

namespace RtaiFifoOpen

open RtaiRuns RtaiTallies
open RtaiProxies (atomicInc atomicDec atomicInc_eq atomicDec_eq)

/-- `malloc_type`; what is not `'k'` is freed by `vfree`. -/
inductive MallocType where
  | k
  | v
  deriving DecidableEq

/-- Where a caller stands. -/
inductive Pc where
  | idle
  /-- The first to open, before its allocation. -/
  | alloc (size : Int)
  /-- `fifo[minor].opncnt = 0` -/
  | failed
  | setType (size : Int) (buf : Nat) (type : MallocType)
  | init (size : Int) (buf : Nat) (type : MallocType)
  /-- `if (size > fifo[minor].mbx.size)` -/
  | look (size : Int)
  /-- `rtf_resize`, up to its allocation. -/
  | resizeAlloc (size : Int)
  | resize (size : Int) (newbuf : Nat) (type : MallocType)
  | resizeFree (buf : Option Nat) (type : MallocType)
  /-- `atomic_inc` -/
  | inc
  /-- `atomic_dec_and_test` -/
  | dec
  | free
  /-- `return fifo[minor].opncnt` -/
  | ret
  deriving DecidableEq

/-- A first opener is under way. -/
def Pc.opening : Pc → Bool
  | .alloc _ | .failed | .setType _ _ _ | .init _ _ _ => true
  | _ => false

/-- The buffer a caller has in hand. -/
def Pc.buffer : Pc → Option (Nat × MallocType)
  | .setType _ buf type | .init _ buf type | .resize _ buf type => some (buf, type)
  | .resizeFree (some buf) type => some (buf, type)
  | _ => none

/-- The type recorded for a buffer that is not in the mailbox yet. -/
def Pc.recorded : Pc → Option MallocType
  | .init _ _ type => some type
  | _ => none

/-- After `atomic_dec_and_test`. -/
def Pc.afterDec (opncnt : Int) : Pc := if opncnt = 0 then .free else .ret

/-- The fields of a fifo that its callers share.  The rest are ghosts: whether the
    mailbox has been initialised and not released since, how many buffers have been
    allocated, by which function each, and how often it has been released, whether
    one has been released by the other function, and the creations of each caller
    that it has not destroyed. -/
structure Fifo (T : Type) where
  opncnt : Int
  mallocType : MallocType
  bufadr : Option Nat
  size : Int
  inited : Bool
  clock : Nat
  type : Nat → MallocType
  released : Nat → Nat
  wrong : Bool
  owns : T → Nat
  pc : T → Pc

section Model

variable {T : Type} [decT : DecidableEq T]

/-- A fifo nobody has created. -/
def Fifo.start : Fifo T where
  opncnt := 0
  mallocType := .v
  bufadr := none
  size := 0
  inited := false
  clock := 0
  type := fun _ => .v
  released := fun _ => 0
  wrong := false
  owns := fun _ => 0
  pc := fun _ => .idle

namespace Fifo

variable (s : Fifo T)

/-- The caller goes on. -/
def goto (t : T) (pc : Pc) : Fifo T := { s with pc := Function.update s.pc t pc }

/-- `kmalloc` or `vmalloc`, when it succeeds: the buffer is the number `clock`. -/
def malloc (type : MallocType) : Fifo T :=
  { s with clock := s.clock + 1, type := Function.update s.type s.clock type }

/-- `kfree` or `vfree`.  Freeing `NULL` does nothing. -/
def free (type : MallocType) : Option Nat → Fifo T
  | none => s
  | some b =>
    { s with
      released := Function.update s.released b (s.released b + 1)
      wrong := s.wrong || s.type b != type }

end Fifo

/-- The errors. -/
def EINVAL : Int := 22

def ENOMEM : Int := 12

/-- `size <= PAGE_SIZE*32`, where `PAGE_SIZE` is unsigned long. -/
def typeFor (PAGE_SIZE : Nat) (size : Int) : MallocType :=
  if 0 ≤ size ∧ size ≤ PAGE_SIZE * 32 then .k else .v

/-- What becomes of the swap in `rtf_resize`. -/
inductive Swap where
  /-- `mbx_sem_wait` has been interrupted: `-EBADF`. -/
  | interrupted
  /-- The mailbox has more bytes in it: `-EBUSY`. -/
  | busy
  | swapped (semval : Bool)
  deriving DecidableEq

/-- The sections of the calls. -/
inductive Action (T : Type) where
  /-- `rtf_create` is called, up to its `atomic_cmpxchg`. -/
  | create (t : T) (size : Int)
  /-- The allocation of `rtf_create` or `rtf_resize`, and whether it succeeds. -/
  | alloc (t : T) (got : Bool)
  | resize (t : T) (swap : Swap)
  /-- `rtf_destroy` is called, up to `VALID_FIFO`. -/
  | destroy (t : T)
  /-- The next step of any other kind. -/
  | next (t : T)
  deriving DecidableEq

/-- A step, with what the call returns if it ends. -/
def step (PAGE_SIZE : Nat) (s : Fifo T) : Action T → Option (Fifo T × Option Int)
  | .create t size =>
    if s.pc t = .idle then
      if s.opncnt = 0 then
        some ({ s with opncnt := 1 }.goto t (.alloc size), none)
      else some (s.goto t (.look size), none)
    else none
  | .alloc t got =>
    match s.pc t with
    | .alloc size =>
      let type := typeFor PAGE_SIZE size
      if got then
        some ((s.malloc type).goto t (.setType size s.clock type), none)
      else some (s.goto t .failed, none)
    | .resizeAlloc size =>
      let type := typeFor PAGE_SIZE size
      if s.opncnt = 0 ∨ size = 0 ∨ got = false then some (s.goto t .inc, none)
      else some ((s.malloc type).goto t (.resize size s.clock type), none)
    | _ => none
  | .resize t swap =>
    match s.pc t with
    | .resize size newbuf type =>
      match swap with
      | .interrupted => some (s.goto t .inc, none)
      | .busy => some (s.goto t (.resizeFree (some newbuf) type), none)
      | .swapped semval =>
        some ({ s with
          bufadr := some newbuf
          mallocType := type
          size := if semval = true ∨ size > s.size then size else s.size
          }.goto t (.resizeFree s.bufadr s.mallocType), none)
    | _ => none
  | .destroy t =>
    if s.pc t = .idle then
      if s.opncnt = 0 then some (s, some (-EINVAL))
      else some (s.goto t .dec, none)
    else none
  | .next t =>
    match s.pc t with
    | .failed => some ({ s with opncnt := 0 }.goto t .idle, some (-ENOMEM))
    | .setType size buf type =>
      some ({ s with mallocType := type }.goto t (.init size buf type), none)
    | .init size buf _ =>
      some ({ s with
        bufadr := some buf
        size := size
        inited := true
        owns := Function.update s.owns t (s.owns t + 1) }.goto t .idle, some 0)
    | .look size =>
      if size > s.size then some (s.goto t (.resizeAlloc size), none)
      else some (s.goto t .inc, none)
    | .resizeFree buf type => some ((s.free type buf).goto t .inc, none)
    | .inc =>
      some ({ s with
        opncnt := atomicInc s.opncnt
        owns := Function.update s.owns t (s.owns t + 1) }.goto t .idle, some 0)
    | .dec =>
      let opncnt := atomicDec s.opncnt
      some ({ s with
        opncnt := opncnt
        owns := Function.update s.owns t (s.owns t - 1)
        }.goto t (.afterDec opncnt), none)
    | .free =>
      some ({ s.free s.mallocType s.bufadr with inited := false }.goto t .ret, none)
    | .ret => some (s.goto t .idle, some s.opncnt)
    | _ => none

/-- Each caller destroys only what it has created. -/
def Calls (s : Fifo T) : Action T → Prop
  | .destroy t => 0 < s.owns t
  | _ => True

/-- **THE CALLS KEEP APART**: nobody overwrites what a release under way still has
    to read; a swap is not interrupted, finds an initialised mailbox, and leaves
    the type that a first opener has just recorded; and a further creation counts
    itself while the fifo is open and no first opener is under way. -/
def Apart (s : Fifo T) : Action T → Prop
  | .resize t swap =>
    match s.pc t, swap with
    | .resize _ _ _, .interrupted => False
    | .resize _ _ type, .swapped _ =>
      s.inited = true ∧ ∀ u, (s.pc u).recorded = none ∨ (s.pc u).recorded = some type
    | _, _ => True
  | .next t =>
    match s.pc t with
    | .setType _ _ type => s.mallocType = type ∨ ∀ u, s.pc u ≠ .free
    | .init _ _ _ => ∀ u, s.pc u ≠ .free
    | .inc =>
      s.opncnt ≠ 0 ∧ (∀ u, (s.pc u).opening = false) ∧ s.opncnt ≠ 2 ^ 31 - 1
    | _ => True
  | _ => True

/-- The creations of a caller that have not been destroyed.  That of a first opener
    counts from its `atomic_cmpxchg` until it succeeds or fails. -/
def Fifo.creations (s : Fifo T) (t : T) : Nat := s.owns t + (s.pc t).opening.toNat

/-- **OPEN COUNTING PROTECTS THE BUFFER.** -/
structure Good [Fintype T] (s : Fifo T) : Prop where
  count : s.opncnt = ((∑ t, s.creations t : Nat) : Int)
  sees : ∀ t, 0 < s.owns t → s.inited = true ∧
    ∃ b, s.bufadr = some b ∧ b < s.clock ∧ s.released b = 0 ∧ s.type b = s.mallocType
  once : ∀ b, s.released b ≤ if b < s.clock then 1 else 0
  rightly : s.wrong = false
  all : (∀ t, s.pc t = .idle) → ∀ b < s.clock, s.released b = 1 ∨
    s.released b = 0 ∧ s.bufadr = some b ∧ ∃ t, 0 < s.owns t

end Model

/-! ## The counter -/

section Counter

variable {T : Type} [decT : DecidableEq T] [finT : Fintype T] {s s' : Fifo T} {t u : T}
  {p : Pc}

omit finT in
@[simp] theorem goto_self : (s.goto t p).pc t = p := Function.update_self ..

omit finT in
theorem goto_of_ne (h : u ≠ t) : (s.goto t p).pc u = s.pc u :=
  Function.update_of_ne h ..

omit finT in
theorem goto_free (h : p = .free ↔ s.pc t = .free) :
    (s.goto t p).pc u = .free ↔ s.pc u = .free := by
  by_cases hu : u = t
  · rw [hu, goto_self, h]
  · rw [goto_of_ne hu]

omit finT in
theorem goto_dec (hp : p ≠ .dec) (h : (s.goto t p).pc u = .dec) : u ≠ t ∧ s.pc u = .dec := by
  by_cases hu : u = t
  · rw [hu, goto_self] at h
    exact absurd h hp
  · rw [goto_of_ne hu] at h
    exact ⟨hu, h⟩

/-- **WHAT THE COUNTER SAYS**: a first opener is alone, a caller that releases is
    the last, and the mailbox is there for as long as it is owned or is being
    released. -/
structure Counts (s : Fifo T) : Prop where
  count : s.opncnt = ((∑ u, s.owns u + ∑ u, (s.pc u).opening.toNat : Nat) : Int)
  bound : s.opncnt < 2 ^ 31
  opener : ∀ u, (s.pc u).opening = true → s.opncnt = 1
  destroying : ∀ u, s.pc u = .dec → 0 < s.owns u
  last : ∀ u, s.pc u = .free → ∀ v, s.owns v = 0
  single : ∀ u v, s.pc u = .free → s.pc v = .free → u = v
  inited : s.inited = true ↔ (∃ u, 0 < s.owns u) ∨ ∃ u, s.pc u = .free

theorem counts_start : Counts (Fifo.start : Fifo T) where
  count := by simp [Fifo.start, Pc.opening]
  bound := Int.pow_pos (by decide)
  opener := nofun
  destroying := nofun
  last := nofun
  single := nofun
  inited := by simp [Fifo.start]

omit decT in
/-- The other fields do not matter. -/
theorem Counts.same (C : Counts s) (hcnt : s'.opncnt = s.opncnt)
    (howns : s'.owns = s.owns) (hpc : s'.pc = s.pc) (hin : s'.inited = s.inited) :
    Counts s' := by
  obtain ⟨h1, h2, h3, h4, h5, h6, h7⟩ := C
  constructor
  · rw [hcnt, howns, hpc]
    exact h1
  · rw [hcnt]
    exact h2
  · rw [hcnt, hpc]
    exact h3
  · rw [howns, hpc]
    exact h4
  · rw [howns, hpc]
    exact h5
  · rw [hpc]
    exact h6
  · rw [howns, hpc, hin]
    exact h7

/-- A first opener is the only one, and nobody owns the fifo yet. -/
theorem Counts.alone (C : Counts s) (h : (s.pc t).opening = true) :
    (∀ u, s.owns u = 0) ∧ ∀ u, (s.pc u).opening = true → u = t := by
  have hone := C.opener t h
  have hcount := C.count
  have hshare := share_le (fun u => (s.pc u).opening.toNat) t
  simp only [h, Bool.toNat_true] at hshare
  constructor
  · intro u
    have hu := share_le s.owns u
    omega
  · intro u hu
    refine only_one (f := fun u => (s.pc u).opening.toNat) (by omega) ?_ ?_
    · simp only [h, Bool.toNat_true, Nat.one_pos]
    · simp only [hu, Bool.toNat_true, Nat.one_pos]

omit decT in
/-- Who owns the fifo keeps the counter from 0. -/
theorem Counts.pos (C : Counts s) (h : 0 < s.owns t) : 0 < s.opncnt := by
  have hcount := C.count
  have hshare := share_le s.owns t
  omega

/-- A caller goes on inside its call. -/
theorem Counts.goto (C : Counts s) (hop : p.opening = (s.pc t).opening)
    (hfree : p = .free ↔ s.pc t = .free) (hdec : p = .dec → 0 < s.owns t) :
    Counts (s.goto t p) := by
  have hopening : ∀ u, ((s.goto t p).pc u).opening = (s.pc u).opening := by
    intro u
    by_cases hu : u = t
    · rw [hu, goto_self, hop]
    · rw [goto_of_ne hu]
  constructor
  · simp only [hopening]
    exact C.count
  · exact C.bound
  · intro u hu
    exact C.opener u ((hopening u).symm.trans hu)
  · intro u hu
    by_cases hut : u = t
    · rw [hut, goto_self] at hu
      rw [hut]
      exact hdec hu
    · rw [goto_of_ne hut] at hu
      exact C.destroying u hu
  · intro u hu
    exact C.last u ((goto_free hfree).mp hu)
  · intro u v hu hv
    exact C.single u v ((goto_free hfree).mp hu) ((goto_free hfree).mp hv)
  · simp only [goto_free hfree]
    exact C.inited

/-- The openers after a caller has gone on. -/
theorem openings_goto {m n : Nat} (h : (s.pc t).opening.toNat = m) (hp : p.opening.toNat = n) :
    (∑ u, ((s.goto t p).pc u).opening.toNat) + m = (∑ u, (s.pc u).opening.toNat) + n := by
  rw [← h, ← hp]
  exact sum_moved (fun p => p.opening.toNat) s.pc t p

/-- **THE FIRST OPENER** finds the counter at 0 and puts it to 1. -/
theorem Counts.created (C : Counts s) (hpc : s.pc t = .idle) (h0 : s.opncnt = 0)
    (size : Int) : Counts ({ s with opncnt := 1 }.goto t (.alloc size)) := by
  have hcount := C.count
  have hsum := openings_goto (s := s) (t := t) (p := .alloc size)
    (by rw [hpc]; exact rfl : _ = 0) (rfl : _ = 1)
  have hfree : ∀ u, (s.goto t (.alloc size)).pc u = .free ↔ s.pc u = .free :=
    fun u => goto_free (by rw [hpc]; exact ⟨nofun, nofun⟩)
  constructor
  · show (1 : Int) = ((∑ u, s.owns u +
      ∑ u, ((s.goto t (.alloc size)).pc u).opening.toNat : Nat) : Int)
    omega
  · show (1 : Int) < 2 ^ 31
    omega
  · exact fun _ _ => rfl
  · intro u hu
    exact C.destroying u (goto_dec (s := s) (p := .alloc size) nofun hu).2
  · intro u hu
    exact C.last u ((hfree u).mp hu)
  · intro u v hu hv
    exact C.single u v ((hfree u).mp hu) ((hfree v).mp hv)
  · show s.inited = true ↔ (∃ u, 0 < s.owns u) ∨ ∃ u, (s.goto t (.alloc size)).pc u = .free
    simp only [hfree]
    exact C.inited

/-- A first opener that fails leaves the counter at 0. -/
theorem Counts.failed (C : Counts s) (hpc : s.pc t = .failed) :
    Counts ({ s with opncnt := 0 }.goto t .idle) := by
  have hop : (s.pc t).opening = true := by
    rw [hpc]
    rfl
  have hcount := C.count
  have hone := C.opener t hop
  have halone := C.alone hop
  have hsum := openings_goto (s := s) (t := t) (p := .idle)
    (by rw [hpc]; exact rfl : _ = 1) (rfl : _ = 0)
  have hfree : ∀ u, (s.goto t .idle).pc u = .free ↔ s.pc u = .free :=
    fun u => goto_free (by rw [hpc]; exact ⟨nofun, nofun⟩)
  constructor
  · show (0 : Int) = ((∑ u, s.owns u + ∑ u, ((s.goto t .idle).pc u).opening.toNat : Nat) : Int)
    omega
  · show (0 : Int) < 2 ^ 31
    omega
  · intro u hu
    by_cases hut : u = t
    · rw [hut, goto_self] at hu
      exact nomatch hu
    · rw [goto_of_ne hut] at hu
      exact absurd (halone.2 u hu) hut
  · intro u hu
    exact C.destroying u (goto_dec (s := s) (p := .idle) nofun hu).2
  · intro u hu
    exact C.last u ((hfree u).mp hu)
  · intro u v hu hv
    exact C.single u v ((hfree u).mp hu) ((hfree v).mp hv)
  · show s.inited = true ↔ (∃ u, 0 < s.owns u) ∨ ∃ u, (s.goto t .idle).pc u = .free
    simp only [hfree]
    exact C.inited

/-- A caller that has created once more. -/
theorem owns_update (s : Fifo T) (t u : T) :
    s.owns u ≤ Function.update s.owns t (s.owns t + 1) u := by
  by_cases hu : u = t
  · rw [hu, Function.update_self]
    exact Nat.le_succ _
  · rw [Function.update_of_ne hu]

/-- The first opener has succeeded. -/
theorem Counts.opened (C : Counts s) (hop : (s.pc t).opening = true)
    (hfree : ∀ u, s.pc u ≠ .free) :
    Counts ({ s with
      inited := true
      owns := Function.update s.owns t (s.owns t + 1) }.goto t .idle) := by
  have hcount := C.count
  have hone := C.opener t hop
  have hsum := openings_goto (s := s) (t := t) (p := .idle)
    (by rw [hop]; exact rfl : _ = 1) (rfl : _ = 0)
  have howns := sum_update s.owns t (s.owns t + 1)
  have hnone : ∀ u, (s.goto t .idle).pc u ≠ .free := by
    intro u hu
    by_cases hut : u = t
    · rw [hut, goto_self] at hu
      exact nomatch hu
    · rw [goto_of_ne hut] at hu
      exact hfree u hu
  constructor
  · show s.opncnt = ((∑ u, Function.update s.owns t (s.owns t + 1) u +
      ∑ u, ((s.goto t .idle).pc u).opening.toNat : Nat) : Int)
    omega
  · exact C.bound
  · exact fun _ _ => hone
  · intro u hu
    obtain ⟨-, hd⟩ := goto_dec (s := s) (p := .idle) nofun hu
    exact lt_of_lt_of_le (C.destroying u hd) (owns_update s t u)
  · intro u hu
    exact absurd hu (hnone u)
  · intro u v hu
    exact absurd hu (hnone u)
  · refine iff_of_true rfl (Or.inl ⟨t, ?_⟩)
    show 0 < Function.update s.owns t (s.owns t + 1) t
    rw [Function.update_self]
    exact Nat.succ_pos _

/-- **A FURTHER CREATION** of an open fifo. -/
theorem Counts.counted (C : Counts s) (hpc : s.pc t = .inc) (h0 : s.opncnt ≠ 0)
    (hnone : ∀ u, (s.pc u).opening = false) (hmax : s.opncnt ≠ 2 ^ 31 - 1) :
    Counts ({ s with
      opncnt := atomicInc s.opncnt
      owns := Function.update s.owns t (s.owns t + 1) }.goto t .idle) := by
  have hcount := C.count
  have hbound := C.bound
  have heq : atomicInc s.opncnt = s.opncnt + 1 := atomicInc_eq (by omega) (by omega)
  have hsum := openings_goto (s := s) (t := t) (p := .idle)
    (by rw [hpc]; exact rfl : _ = 0) (rfl : _ = 0)
  have howns := sum_update s.owns t (s.owns t + 1)
  have hzero : ∑ u, (s.pc u).opening.toNat = 0 :=
    Finset.sum_eq_zero fun u _ => by rw [hnone u]; rfl
  -- somebody owns the fifo, so that nobody releases it
  obtain ⟨v, hv⟩ : ∃ v, 0 < s.owns v := sum_pos.mp (by omega)
  have hfree : ∀ u, s.pc u ≠ .free := fun u hu => by
    have hlast := C.last u hu v
    omega
  have hnofree : ∀ u, (s.goto t .idle).pc u ≠ .free := fun u hu =>
    hfree u ((goto_free (by rw [hpc]; exact ⟨nofun, nofun⟩)).mp hu)
  constructor
  · show atomicInc s.opncnt = ((∑ u, Function.update s.owns t (s.owns t + 1) u +
      ∑ u, ((s.goto t .idle).pc u).opening.toNat : Nat) : Int)
    omega
  · show atomicInc s.opncnt < 2 ^ 31
    omega
  · intro u hu
    by_cases hut : u = t
    · rw [hut, goto_self] at hu
      exact nomatch hu
    · rw [goto_of_ne hut] at hu
      exact absurd hu (by rw [hnone u]; exact nofun)
  · intro u hu
    obtain ⟨-, hd⟩ := goto_dec (s := s) (p := .idle) nofun hu
    exact lt_of_lt_of_le (C.destroying u hd) (owns_update s t u)
  · intro u hu
    exact absurd hu (hnofree u)
  · intro u v hu
    exact absurd hu (hnofree u)
  · have hin : s.inited = true := C.inited.mpr (Or.inl ⟨v, hv⟩)
    refine iff_of_true hin (Or.inl ⟨v, ?_⟩)
    exact lt_of_lt_of_le hv (owns_update s t v)

/-- **A DESTRUCTION**: the last one goes on to release the mailbox. -/
theorem Counts.decremented (C : Counts s) (hpc : s.pc t = .dec) :
    Counts ({ s with
      opncnt := atomicDec s.opncnt
      owns := Function.update s.owns t (s.owns t - 1)
      }.goto t (.afterDec (atomicDec s.opncnt))) := by
  have hown := C.destroying t hpc
  have hcount := C.count
  have hbound := C.bound
  have hpos := C.pos hown
  have heq : atomicDec s.opncnt = s.opncnt - 1 := atomicDec_eq hpos hbound
  have hnone : ∀ u, (s.pc u).opening = false := fun u => by
    by_contra hu
    have h0 := (C.alone (Bool.eq_true_of_not_eq_false hu)).1 t
    omega
  have hnofree : ∀ u, s.pc u ≠ .free := fun u hu => by
    have h0 := C.last u hu t
    omega
  generalize hn : atomicDec s.opncnt = n
  have hopening : (Pc.afterDec n).opening = false := by
    unfold Pc.afterDec
    split <;> rfl
  have hnodec : Pc.afterDec n ≠ .dec := by
    unfold Pc.afterDec
    split <;> exact nofun
  have hzero : ∑ u, ((s.goto t (.afterDec n)).pc u).opening.toNat = 0 := by
    refine Finset.sum_eq_zero fun u _ => ?_
    by_cases hu : u = t
    · rw [hu, goto_self, hopening]
      rfl
    · rw [goto_of_ne hu, hnone u]
      rfl
  have hzero' : ∑ u, (s.pc u).opening.toNat = 0 :=
    Finset.sum_eq_zero fun u _ => by rw [hnone u]; rfl
  have howns := sum_update s.owns t (s.owns t - 1)
  have hfree : ∀ u, (s.goto t (.afterDec n)).pc u = .free → u = t ∧ n = 0 := by
    intro u hu
    by_cases hut : u = t
    · rw [hut, goto_self] at hu
      unfold Pc.afterDec at hu
      split at hu
      · next h => exact ⟨hut, h⟩
      · exact nomatch hu
    · rw [goto_of_ne hut] at hu
      exact absurd hu (hnofree u)
  constructor
  · show n = ((∑ u, Function.update s.owns t (s.owns t - 1) u +
      ∑ u, ((s.goto t (.afterDec n)).pc u).opening.toNat : Nat) : Int)
    omega
  · show n < 2 ^ 31
    omega
  · intro u hu
    by_cases hut : u = t
    · rw [hut, goto_self, hopening] at hu
      exact nomatch hu
    · rw [goto_of_ne hut] at hu
      exact absurd hu (by rw [hnone u]; exact nofun)
  · intro u hu
    obtain ⟨hut, hd⟩ := goto_dec (s := s) hnodec hu
    show 0 < Function.update s.owns t (s.owns t - 1) u
    rw [Function.update_of_ne hut]
    exact C.destroying u hd
  · intro u hu v
    obtain ⟨-, h0⟩ := hfree u hu
    have hle := share_le (Function.update s.owns t (s.owns t - 1)) v
    show Function.update s.owns t (s.owns t - 1) v = 0
    omega
  · intro u v hu hv
    exact (hfree u hu).1.trans (hfree v hv).1.symm
  · have hin : s.inited = true := C.inited.mpr (Or.inl ⟨t, hown⟩)
    refine iff_of_true hin ?_
    by_cases h0 : n = 0
    · right
      refine ⟨t, ?_⟩
      show Function.update s.pc t (.afterDec n) t = .free
      rw [Function.update_self]
      exact if_pos h0
    · left
      show ∃ u, 0 < Function.update s.owns t (s.owns t - 1) u
      exact sum_pos.mp (by omega)

/-- The mailbox has been released. -/
theorem Counts.released (C : Counts s) (hpc : s.pc t = .free) :
    Counts ({ s with inited := false }.goto t .ret) := by
  have hlast := C.last t hpc
  have hsum := openings_goto (s := s) (t := t) (p := .ret)
    (by rw [hpc]; exact rfl : _ = 0) (rfl : _ = 0)
  have hnofree : ∀ u, (s.goto t .ret).pc u ≠ .free := by
    intro u hu
    by_cases hut : u = t
    · rw [hut, goto_self] at hu
      exact nomatch hu
    · rw [goto_of_ne hut] at hu
      exact hut (C.single u t hu hpc)
  have hcount := C.count
  constructor
  · show s.opncnt = ((∑ u, s.owns u + ∑ u, ((s.goto t .ret).pc u).opening.toNat : Nat) : Int)
    omega
  · exact C.bound
  · intro u hu
    by_cases hut : u = t
    · rw [hut, goto_self] at hu
      exact nomatch hu
    · rw [goto_of_ne hut] at hu
      exact C.opener u hu
  · intro u hu
    exact C.destroying u (goto_dec (s := s) (p := .ret) nofun hu).2
  · intro u hu
    exact absurd hu (hnofree u)
  · intro u v hu
    exact absurd hu (hnofree u)
  · refine iff_of_false Bool.false_ne_true ?_
    rintro (⟨u, hu⟩ | ⟨u, hu⟩)
    · exact absurd (hlast u) (Nat.pos_iff_ne_zero.mp hu)
    · exact hnofree u hu

end Counter

/-! ## The buffers -/

section Ledger

variable {T : Type} [decT : DecidableEq T] [finT : Fintype T] {s s' : Fifo T} {t u : T}
  {p : Pc} {b : Nat} {type : MallocType}

/-- What a caller has of a buffer. -/
def Pc.has (p : Pc) (b : Nat) : Nat :=
  if p.buffer.map Prod.fst = some b then 1 else 0

/-- What the mailbox has of a buffer. -/
def Fifo.boxed (s : Fifo T) (b : Nat) : Nat :=
  if s.inited = true ∧ s.bufadr = some b then 1 else 0

/-- **THE LEDGER**: a buffer that has been allocated has been released, or a caller
    has it in hand, or it is that of the mailbox, and only one of these. -/
structure Buffers (s : Fifo T) : Prop where
  ledger : ∀ b, s.released b + ∑ u, (s.pc u).has b + s.boxed b =
    if b < s.clock then 1 else 0
  types : ∀ u b type, (s.pc u).buffer = some (b, type) → s.type b = type
  recorded : ∀ u type, (s.pc u).recorded = some type → s.mallocType = type
  mailbox : s.inited = true → ∃ b, s.bufadr = some b ∧ s.type b = s.mallocType
  rightly : s.wrong = false

omit decT in
theorem buffers_start : Buffers (Fifo.start : Fifo T) where
  ledger := by simp [Fifo.start, Pc.has, Pc.buffer, Fifo.boxed]
  types := nofun
  recorded := nofun
  mailbox := nofun
  rightly := rfl

theorem held_goto (s : Fifo T) (t : T) (p : Pc) (b : Nat) :
    (∑ u, ((s.goto t p).pc u).has b) + (s.pc t).has b = (∑ u, (s.pc u).has b) + p.has b :=
  sum_moved (fun p => p.has b) s.pc t p

theorem has_of_buffer (h : p.buffer = some (b, type)) (c : Nat) :
    p.has c = if b = c then 1 else 0 := by
  unfold Pc.has
  rw [h]
  simp only [Option.map_some, Option.some.injEq]

theorem has_none (h : p.buffer = none) (c : Nat) : p.has c = 0 := by
  unfold Pc.has
  rw [h]
  rfl

omit decT in
/-- The counter and the owners do not matter. -/
theorem Buffers.counters (B : Buffers s) (opncnt : Int) (owns : T → Nat) :
    Buffers { s with opncnt := opncnt, owns := owns } :=
  ⟨B.ledger, B.types, B.recorded, B.mailbox, B.rightly⟩

omit decT in
/-- What is in hand has been allocated. -/
theorem Buffers.lt (B : Buffers s) (h : (s.pc u).buffer = some (b, type)) : b < s.clock := by
  have hled := B.ledger b
  have hshare := share_le (fun u => (s.pc u).has b) u
  simp only [has_of_buffer h, if_true] at hshare
  by_contra hb
  rw [if_neg hb] at hled
  omega

omit decT in
/-- The buffer of the mailbox is allocated. -/
theorem Buffers.boxed_lt (B : Buffers s) (hin : s.inited = true)
    (h : s.bufadr = some b) : b < s.clock ∧ s.released b = 0 := by
  have hled := B.ledger b
  have hbox : s.boxed b = 1 := if_pos ⟨hin, h⟩
  by_cases hb : b < s.clock
  · rw [if_pos hb] at hled
    exact ⟨hb, by omega⟩
  · rw [if_neg hb] at hled
    omega

/-- The types of what the callers have in hand, when one of them goes on. -/
theorem types_goto {types : Nat → MallocType}
    (h : ∀ u, u ≠ t → ∀ b type, (s.pc u).buffer = some (b, type) → types b = type)
    (hp : ∀ b type, p.buffer = some (b, type) → types b = type) :
    ∀ u b type, ((s.goto t p).pc u).buffer = some (b, type) → types b = type := by
  intro u b type hu
  by_cases hut : u = t
  · rw [hut, goto_self] at hu
    exact hp b type hu
  · rw [goto_of_ne hut] at hu
    exact h u hut b type hu

theorem recorded_goto {m : MallocType}
    (h : ∀ u, u ≠ t → ∀ type, (s.pc u).recorded = some type → m = type)
    (hp : ∀ type, p.recorded = some type → m = type) :
    ∀ u type, ((s.goto t p).pc u).recorded = some type → m = type := by
  intro u type hu
  by_cases hut : u = t
  · rw [hut, goto_self] at hu
    exact hp type hu
  · rw [goto_of_ne hut] at hu
    exact h u hut type hu

/-- A caller goes on with what it has in hand. -/
theorem Buffers.goto (B : Buffers s) (hbuf : p.buffer = (s.pc t).buffer)
    (hrec : p.recorded = none) : Buffers (s.goto t p) := by
  constructor
  · intro b
    have hheld := held_goto s t p b
    have hsame : p.has b = (s.pc t).has b := by
      unfold Pc.has
      rw [hbuf]
    have hled := B.ledger b
    show s.released b + ∑ u, ((s.goto t p).pc u).has b + s.boxed b = _
    rw [show ∑ u, ((s.goto t p).pc u).has b = ∑ u, (s.pc u).has b by omega]
    exact hled
  · refine types_goto (fun u _ => B.types u) fun b type h => ?_
    exact B.types t b type (hbuf.symm.trans h)
  · refine recorded_goto (fun u _ => B.recorded u) fun type h => ?_
    rw [hrec] at h
    exact nomatch h
  · exact B.mailbox
  · exact B.rightly

/-- **AN ALLOCATION**: the buffer is in the hand of the caller. -/
theorem Buffers.allocated (B : Buffers s) (hpc : (s.pc t).buffer = none)
    (hp : p.buffer = some (s.clock, type)) (hrec : p.recorded = none) :
    Buffers ((s.malloc type).goto t p) := by
  have hold : ∀ b, b < s.clock → Function.update s.type s.clock type b = s.type b := by
    intro b hb
    exact Function.update_of_ne (Nat.ne_of_lt hb) ..
  constructor
  · intro b
    have hheld := held_goto s t p b
    rw [has_none hpc, has_of_buffer hp] at hheld
    have hled := B.ledger b
    show s.released b + ∑ u, ((s.goto t p).pc u).has b + s.boxed b =
      if b < s.clock + 1 then 1 else 0
    by_cases hb : s.clock = b
    · rw [if_pos hb] at hheld
      rw [if_neg (by omega)] at hled
      rw [if_pos (by omega)]
      omega
    · rw [if_neg hb] at hheld
      by_cases hlt : b < s.clock
      · rw [if_pos hlt] at hled
        rw [if_pos (by omega)]
        omega
      · rw [if_neg hlt] at hled
        rw [if_neg (by omega)]
        omega
  · refine types_goto (s := s.malloc type) (fun u _ b k h => ?_) fun b k h => ?_
    · exact (hold b (B.lt h)).trans (B.types u b k h)
    · rw [hp] at h
      obtain ⟨rfl, rfl⟩ := Prod.mk.inj (Option.some.inj h)
      exact Function.update_self ..
  · refine recorded_goto (s := s.malloc type) (fun u _ => B.recorded u) fun k h => ?_
    rw [hrec] at h
    exact nomatch h
  · intro hin
    obtain ⟨b, hb, htype⟩ := B.mailbox hin
    exact ⟨b, hb, (hold b (B.boxed_lt hin hb).1).trans htype⟩
  · exact B.rightly

/-- The type of the new buffer is recorded. -/
theorem Buffers.typed (B : Buffers s) {size : Int} (hpc : s.pc t = .setType size b type)
    (halone : ∀ u, u ≠ t → (s.pc u).recorded = none)
    (hmt : s.inited = true → s.mallocType = type) :
    Buffers ({ s with mallocType := type }.goto t (.init size b type)) := by
  have hbuf : (s.pc t).buffer = some (b, type) := by
    rw [hpc]
    rfl
  constructor
  · intro c
    have hheld := held_goto s t (.init size b type) c
    rw [has_of_buffer hbuf, has_of_buffer (p := .init size b type) rfl] at hheld
    have hled := B.ledger c
    show s.released c + ∑ u, ((s.goto t (.init size b type)).pc u).has c +
      s.boxed c = if c < s.clock then 1 else 0
    omega
  · refine types_goto (s := { s with mallocType := type })
      (fun u _ => B.types u) fun c k h => ?_
    exact B.types t c k (hbuf.trans h)
  · refine recorded_goto (s := { s with mallocType := type })
      (fun u hu k h => ?_) fun k h => Option.some.inj h
    exact absurd ((halone u hu).symm.trans h) nofun
  · intro hin
    obtain ⟨c, hc, htype⟩ := B.mailbox hin
    exact ⟨c, hc, htype.trans (hmt hin)⟩
  · exact B.rightly

/-- **THE INITIALISATION**: the mailbox gets the buffer. -/
theorem Buffers.initialised (B : Buffers s) {size : Int} (owns : T → Nat)
    (hpc : s.pc t = .init size b type) (hin : s.inited = false) :
    Buffers ({ s with
      bufadr := some b
      size := size
      inited := true
      owns := owns }.goto t .idle) := by
  have hbuf : (s.pc t).buffer = some (b, type) := by
    rw [hpc]
    rfl
  constructor
  · intro c
    have hheld := held_goto s t .idle c
    rw [has_of_buffer hbuf, has_none (p := .idle) rfl] at hheld
    have hled := B.ledger c
    have hbox : s.boxed c = 0 := if_neg fun h => by
      rw [hin] at h
      exact nomatch h.1
    have hbox' : Fifo.boxed { s with bufadr := some b, inited := true } c =
        if b = c then 1 else 0 := by
      simp only [Fifo.boxed, Option.some.injEq, true_and]
    show s.released c + ∑ u, ((s.goto t .idle).pc u).has c +
      Fifo.boxed { s with bufadr := some b, inited := true } c =
        if c < s.clock then 1 else 0
    omega
  · exact types_goto (fun u _ => B.types u) nofun
  · exact recorded_goto (fun u _ => B.recorded u) nofun
  · intro _
    refine ⟨b, rfl, (B.types t b type hbuf).trans (B.recorded t type ?_).symm⟩
    rw [hpc]
    rfl
  · exact B.rightly

/-- **THE SWAP** of `rtf_resize`: the new buffer for the old one. -/
theorem Buffers.swapped (B : Buffers s) {size : Int} (n : Int)
    (hpc : s.pc t = .resize size b type) (hin : s.inited = true)
    (hrec : ∀ u, (s.pc u).recorded = none ∨ (s.pc u).recorded = some type) :
    Buffers ({ s with
      bufadr := some b
      mallocType := type
      size := n }.goto t (.resizeFree s.bufadr s.mallocType)) := by
  have hbuf : (s.pc t).buffer = some (b, type) := by
    rw [hpc]
    rfl
  obtain ⟨old, hold, htype⟩ := B.mailbox hin
  rw [hold]
  constructor
  · intro c
    have hheld := held_goto s t (.resizeFree (some old) s.mallocType) c
    rw [has_of_buffer hbuf,
      has_of_buffer (p := .resizeFree (some old) s.mallocType) rfl] at hheld
    have hled := B.ledger c
    have hbox : s.boxed c = if old = c then 1 else 0 := by
      simp only [Fifo.boxed, hin, hold, Option.some.injEq, true_and]
    have hbox' : Fifo.boxed { s with bufadr := some b } c =
        if b = c then 1 else 0 := by
      simp only [Fifo.boxed, hin, Option.some.injEq, true_and]
    show s.released c + ∑ u, ((s.goto t (.resizeFree (some old) s.mallocType)).pc u).has c +
      Fifo.boxed { s with bufadr := some b } c = if c < s.clock then 1 else 0
    omega
  · refine types_goto (fun u _ => B.types u) fun c k h => ?_
    obtain ⟨rfl, rfl⟩ := Prod.mk.inj (Option.some.inj h)
    exact htype
  · refine recorded_goto (fun u _ k h => ?_) nofun
    rcases hrec u with hu | hu
    · exact absurd (hu.symm.trans h) nofun
    · exact Option.some.inj (hu.symm.trans h)
  · intro _
    exact ⟨b, rfl, B.types t b type hbuf⟩
  · exact B.rightly

/-- **A RELEASE** of what a caller has in hand. -/
theorem Buffers.freed (B : Buffers s) (hpc : s.pc t = .resizeFree (some b) type) :
    Buffers ((s.free type (some b)).goto t .inc) := by
  have hbuf : (s.pc t).buffer = some (b, type) := by
    rw [hpc]
    rfl
  constructor
  · intro c
    have hheld := held_goto s t .inc c
    rw [has_of_buffer hbuf, has_none (p := .inc) rfl] at hheld
    have hled := B.ledger c
    have hrel : Function.update s.released b (s.released b + 1) c =
        s.released c + if b = c then 1 else 0 := by
      by_cases hc : b = c
      · rw [hc, Function.update_self, if_pos rfl]
      · rw [Function.update_of_ne (Ne.symm hc), if_neg hc, Nat.add_zero]
    show Function.update s.released b (s.released b + 1) c +
      ∑ u, ((s.goto t .inc).pc u).has c + s.boxed c = if c < s.clock then 1 else 0
    omega
  · exact types_goto (fun u _ => B.types u) nofun
  · exact recorded_goto (fun u _ => B.recorded u) nofun
  · exact B.mailbox
  · show (s.wrong || s.type b != type) = false
    rw [B.rightly, B.types t b type hbuf, bne_self_eq_false]
    rfl

/-- **THE LAST RELEASE**: the buffer of the mailbox. -/
theorem Buffers.released (B : Buffers s) (hpc : s.pc t = .free) (hin : s.inited = true) :
    Buffers ({ s.free s.mallocType s.bufadr with inited := false }.goto t .ret) := by
  obtain ⟨b, hb, htype⟩ := B.mailbox hin
  have hnone : (s.pc t).buffer = none := by
    rw [hpc]
    rfl
  rw [hb]
  constructor
  · intro c
    have hheld := held_goto s t .ret c
    rw [has_none hnone, has_none (p := .ret) rfl] at hheld
    have hled := B.ledger c
    have hrel : Function.update s.released b (s.released b + 1) c =
        s.released c + if b = c then 1 else 0 := by
      by_cases hc : b = c
      · rw [hc, Function.update_self, if_pos rfl]
      · rw [Function.update_of_ne (Ne.symm hc), if_neg hc, Nat.add_zero]
    have hbox : s.boxed c = if b = c then 1 else 0 := by
      simp only [Fifo.boxed, hin, hb, Option.some.injEq, true_and]
    show Function.update s.released b (s.released b + 1) c +
      ∑ u, ((s.goto t .ret).pc u).has c + Fifo.boxed { s with inited := false } c =
        if c < s.clock then 1 else 0
    have hbox' : Fifo.boxed { s with inited := false } c = 0 :=
      if_neg fun h => Bool.false_ne_true h.1
    omega
  · exact types_goto (fun u _ => B.types u) nofun
  · exact recorded_goto (fun u _ => B.recorded u) nofun
  · exact nofun
  · show (s.wrong || s.type b != s.mallocType) = false
    rw [B.rightly, htype, bne_self_eq_false]
    rfl

end Ledger

/-! ## Runs -/

section Runs

variable {T : Type} [decT : DecidableEq T] [finT : Fintype T] {s s' : Fifo T} {t u : T}

/-- The counter and the ledger together. -/
structure Inv (s : Fifo T) : Prop where
  counts : Counts s
  buffers : Buffers s

/-- A caller that does not touch the fifo. -/
theorem Inv.goto (I : Inv s) {p : Pc} (hop : p.opening = (s.pc t).opening)
    (hfree : p = .free ↔ s.pc t = .free) (hdec : p = .dec → 0 < s.owns t)
    (hbuf : p.buffer = (s.pc t).buffer) (hrec : p.recorded = none) :
    Inv (s.goto t p) :=
  ⟨I.counts.goto hop hfree hdec, I.buffers.goto hbuf hrec⟩

/-- The mailbox of a first opener is one that is still being released. -/
theorem Inv.stale (I : Inv s) (hop : (s.pc t).opening = true)
    (hin : s.inited = true) : ∃ u, s.pc u = .free := by
  rcases I.counts.inited.mp hin with ⟨u, hu⟩ | h
  · have h0 := (I.counts.alone hop).1 u
    omega
  · exact h

theorem Inv.next (I : Inv s) {o : Option Int} {PAGE_SIZE : Nat}
    (ha : Apart s (.next t)) (hs : step PAGE_SIZE s (.next t) = some (s', o)) :
    Inv s' := by
  simp only [step] at hs
  simp only [Apart] at ha
  -- the counter and the buffer are two halves of the invariant
  have C := I.counts
  have B := I.buffers
  split at hs <;> rename_i hpc
  · -- the allocation has failed
    cases hs
    refine ⟨C.failed hpc, ?_⟩
    exact (B.counters 0 s.owns).goto (by rw [hpc]; rfl) rfl
  · next size b type =>
      cases hs
      rw [hpc] at ha
      have hop : (s.pc t).opening = true := by
        rw [hpc]
        rfl
      constructor
      · have C' : Counts { s with mallocType := type } := C.same rfl rfl rfl rfl
        refine C'.goto ?_ ?_ nofun
        · rw [hop]
          rfl
        · show _ ↔ s.pc t = .free
          rw [hpc]
          exact ⟨nofun, nofun⟩
      · refine B.typed hpc (fun u hu => ?_) fun hin => ?_
        · cases hr : (s.pc u).recorded with
          | none => rfl
          | some k =>
            refine absurd ((C.alone hop).2 u ?_) hu
            cases hpu : s.pc u <;> rw [hpu] at hr <;> first | rfl | exact nomatch hr
        · obtain ⟨v, hv⟩ := I.stale hop hin
          exact ha.resolve_right fun h => h v hv
  · next size b type =>
      cases hs
      rw [hpc] at ha
      have hop : (s.pc t).opening = true := by
        rw [hpc]
        rfl
      have hin : s.inited = false := by
        by_contra hin
        obtain ⟨v, hv⟩ := I.stale hop (Bool.eq_true_of_not_eq_false hin)
        exact ha v hv
      refine ⟨?_, B.initialised _ hpc hin⟩
      exact (C.opened hop ha).same rfl rfl rfl rfl
  · next size =>
      have hgo : ∀ p : Pc, p.opening = false → p ≠ .free → p ≠ .dec →
          p.buffer = none → p.recorded = none → Inv (s.goto t p) := by
        intro p h1 h2 h3 h4 h5
        refine I.goto (by rw [hpc]; exact h1) ?_ (fun h => absurd h h3)
          (by rw [hpc]; exact h4) h5
        rw [hpc]
        exact ⟨fun h => absurd h h2, nofun⟩
      split at hs
      · cases hs
        exact hgo _ rfl nofun nofun rfl rfl
      · cases hs
        exact hgo _ rfl nofun nofun rfl rfl
  · next buf type =>
      cases hs
      constructor
      · have hsame : Counts (s.free type buf) := by
          cases buf <;> exact C.same rfl rfl rfl rfl
        have hpc' : (s.free type buf).pc t = .resizeFree buf type := by
          cases buf <;> exact hpc
        refine hsame.goto (by rw [hpc']; rfl) ?_ nofun
        rw [hpc']
        exact ⟨nofun, nofun⟩
      · cases buf with
        | none => exact B.goto (by rw [hpc]; rfl) rfl
        | some b => exact B.freed hpc
  · cases hs
    rw [hpc] at ha
    obtain ⟨h0, hnone, hmax⟩ := ha
    refine ⟨C.counted hpc h0 hnone hmax, ?_⟩
    exact (B.counters _ _).goto (by show _ = (s.pc t).buffer; rw [hpc]; rfl) rfl
  · cases hs
    refine ⟨C.decremented hpc, ?_⟩
    refine (B.counters _ _).goto ?_ ?_
    · show _ = (s.pc t).buffer
      rw [hpc]
      unfold Pc.afterDec
      split <;> rfl
    · unfold Pc.afterDec
      split <;> rfl
  · cases hs
    have hin : s.inited = true := C.inited.mpr (Or.inr ⟨t, hpc⟩)
    refine ⟨?_, B.released hpc hin⟩
    refine (C.released hpc).same ?_ ?_ ?_ rfl
    all_goals cases s.bufadr <;> rfl
  · cases hs
    refine I.goto (by rw [hpc]; rfl) ?_ nofun (by rw [hpc]; rfl) rfl
    rw [hpc]
    exact ⟨nofun, nofun⟩
  · exact nomatch hs

theorem Inv.create (I : Inv s) {size : Int} {o : Option Int} {PAGE_SIZE : Nat}
    (hs : step PAGE_SIZE s (.create t size) = some (s', o)) : Inv s' := by
  simp only [step] at hs
  split at hs
  · next hpc =>
      split at hs
      · next h0 =>
          cases hs
          refine ⟨I.counts.created hpc h0 size, ?_⟩
          exact (I.buffers.counters 1 s.owns).goto
            (by show _ = (s.pc t).buffer; rw [hpc]; rfl) rfl
      · cases hs
        refine I.goto (by rw [hpc]; rfl) ?_ nofun (by rw [hpc]; rfl) rfl
        rw [hpc]
        exact ⟨nofun, nofun⟩
  · exact nomatch hs

/-- A caller that gets a buffer. -/
theorem Inv.allocated (I : Inv s) {p : Pc} {type : MallocType}
    (hop : p.opening = (s.pc t).opening) (hpc : (s.pc t).buffer = none)
    (hfree : p = .free ↔ s.pc t = .free)
    (hp : p.buffer = some (s.clock, type)) (hrec : p.recorded = none)
    (hdec : p ≠ .dec) : Inv ((s.malloc type).goto t p) := by
  have C : Counts (s.malloc type) := I.counts.same rfl rfl rfl rfl
  exact ⟨C.goto hop hfree fun h => absurd h hdec, I.buffers.allocated hpc hp hrec⟩

theorem Inv.alloc (I : Inv s) {got : Bool} {o : Option Int} {PAGE_SIZE : Nat}
    (hs : step PAGE_SIZE s (.alloc t got) = some (s', o)) : Inv s' := by
  simp only [step] at hs
  split at hs <;> rename_i hpc
  · split at hs
    · cases hs
      refine I.allocated (by rw [hpc]; rfl) (by rw [hpc]; rfl) ?_ rfl rfl nofun
      rw [hpc]
      exact ⟨nofun, nofun⟩
    · cases hs
      refine I.goto (by rw [hpc]; rfl) ?_ nofun (by rw [hpc]; rfl) rfl
      rw [hpc]
      exact ⟨nofun, nofun⟩
  · split at hs
    · cases hs
      refine I.goto (by rw [hpc]; rfl) ?_ nofun (by rw [hpc]; rfl) rfl
      rw [hpc]
      exact ⟨nofun, nofun⟩
    · cases hs
      refine I.allocated (by rw [hpc]; rfl) (by rw [hpc]; rfl) ?_ rfl rfl nofun
      rw [hpc]
      exact ⟨nofun, nofun⟩
  · exact nomatch hs

theorem Inv.resize (I : Inv s) {swap : Swap} {o : Option Int} {PAGE_SIZE : Nat}
    (ha : Apart s (.resize t swap))
    (hs : step PAGE_SIZE s (.resize t swap) = some (s', o)) : Inv s' := by
  simp only [step] at hs
  simp only [Apart] at ha
  split at hs
  · next size b type hpc =>
      rw [hpc] at ha
      cases swap with
      | interrupted => exact ha.elim
      | busy =>
        cases hs
        refine I.goto (by rw [hpc]; rfl) ?_ nofun (by rw [hpc]; rfl) rfl
        rw [hpc]
        exact ⟨nofun, nofun⟩
      | swapped semval =>
        cases hs
        refine ⟨?_, I.buffers.swapped _ hpc ha.1 ha.2⟩
        refine Counts.goto (I.counts.same rfl rfl rfl rfl) ?_ ?_ nofun
        · show _ = (s.pc t).opening
          rw [hpc]
          rfl
        · show _ ↔ s.pc t = .free
          rw [hpc]
          exact ⟨nofun, nofun⟩
  · exact nomatch hs

theorem Inv.destroy (I : Inv s) {o : Option Int} {PAGE_SIZE : Nat} (ha : Calls s (.destroy t))
    (hs : step PAGE_SIZE s (.destroy t) = some (s', o)) : Inv s' := by
  simp only [step] at hs
  split at hs
  · next hpc =>
      split at hs
      · cases hs
        exact I
      · cases hs
        refine I.goto (by rw [hpc]; rfl) ?_ (fun _ => ha) (by rw [hpc]; rfl) rfl
        rw [hpc]
        exact ⟨nofun, nofun⟩
  · exact nomatch hs

theorem Inv.step (I : Inv s) {a : Action T} {o : Option Int} {PAGE_SIZE : Nat}
    (ha : Calls s a ∧ Apart s a)
    (hs : step PAGE_SIZE s a = some (s', o)) : Inv s' := by
  cases a with
  | create t size => exact I.create hs
  | alloc t got => exact I.alloc hs
  | resize t swap => exact I.resize ha.2 hs
  | destroy t => exact I.destroy ha.1 hs
  | next t => exact I.next ha.2 hs

theorem Inv.good (I : Inv s) : Good s where
  count := by
    rw [I.counts.count]
    exact congrArg Nat.cast Finset.sum_add_distrib.symm
  sees := by
    intro t ht
    have hin := I.counts.inited.mpr (Or.inl ⟨t, ht⟩)
    obtain ⟨b, hb, htype⟩ := I.buffers.mailbox hin
    obtain ⟨hlt, hrel⟩ := I.buffers.boxed_lt hin hb
    exact ⟨hin, b, hb, hlt, hrel, htype⟩
  once := by
    intro b
    have hled := I.buffers.ledger b
    omega
  rightly := I.buffers.rightly
  all := by
    intro hidle b hb
    have hled := I.buffers.ledger b
    have hheld : ∑ u, (s.pc u).has b = 0 :=
      Finset.sum_eq_zero fun u _ => by rw [hidle u]; rfl
    rw [if_pos hb, hheld] at hled
    by_cases hbox : s.inited = true ∧ s.bufadr = some b
    · have hone : s.boxed b = 1 := if_pos hbox
      refine Or.inr ⟨by omega, hbox.2, ?_⟩
      rcases I.counts.inited.mp hbox.1 with h | ⟨u, hu⟩
      · exact h
      · exact absurd ((hidle u).symm.trans hu) nofun
    · have hzero : s.boxed b = 0 := if_neg hbox
      exact Or.inl (by omega)

end Runs

instance {n : Nat} (s : Fifo (Fin n)) (a : Action (Fin n)) : Decidable (Calls s a) := by
  cases a <;> unfold Calls <;> infer_instance

instance {n : Nat} (s : Fifo (Fin n)) (a : Action (Fin n)) : Decidable (Apart s a) := by
  unfold Apart
  split
  · split <;> infer_instance
  · split <;> infer_instance
  · infer_instance

/-- A creation, a second one that makes the fifo larger, and both destructions. -/
def twice : List (Action (Fin 2)) :=
  [.create 0 64, .alloc 0 true, .next 0, .next 0,
    .create 1 128, .next 1, .alloc 1 true, .resize 1 (.swapped true), .next 1, .next 1,
    .destroy 0, .next 0, .next 0, .destroy 1, .next 1, .next 1, .next 1]

/-- A fifo is created and destroyed.  Then a first opener has put `opncnt` to 1 and
    has not allocated yet when a second creation returns. -/
def hasty : List (Action (Fin 2)) :=
  [.create 0 64, .alloc 0 true, .next 0, .next 0, .destroy 0, .next 0, .next 0, .next 0,
    .create 0 64, .create 1 64, .next 1, .next 1]

end RtaiFifoOpen
