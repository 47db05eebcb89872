import Rtai.Kvmem
import Rtai.WhileLoops

/-! # kvmem.c and shm.c: the pages of a kmalloc'ed shared area

    `rkmalloc` marks the pages of the block that it has got as reserved, and
    `rkfree` unmarks them.  The size of the area is in the registry as the type
    of its name, negative for a block of `kmalloc` or `__get_free_pages`.  The
    loops count an unsigned size down page by page. -/

namespace RtaiKmallocPages

open RtaiKvmem RtaiWhileLoops

/-- The value that an `int` gets. -/
def toInt (x : Int) : Int := x.bmod (2 ^ 32)

/-- The conversion to an `unsigned long`. -/
def toUlong (x : Int) : Nat := (x % 2 ^ 64).toNat

/-- The largest size for `kmalloc`. -/
def KMALLOC_LIMIT : Int := 128 * 1024

/-- The first page border from an address on. -/
def PAGE_ALIGN (adr : Nat) : Nat :=
  ulong (adr + (PAGE_SIZE - 1)) / PAGE_SIZE * PAGE_SIZE

/-- Where a block comes from. -/
inductive Allocator where
  | vmalloc
  | kmalloc
  | pages (order : Nat)
  deriving DecidableEq

/-! ## The loops -/

/-- `adr` and `size` of a loop, and the pages it has gone through. -/
structure Walk where
  adr : Nat
  size : Nat
  pages : List Nat

/-- There is something left. -/
def Walk.more (w : Walk) : Bool := w.size > 0

/-- `SetPageReserved` or `ClearPageReserved`. -/
def Walk.next (w : Walk) : Option Walk :=
  some ⟨ulong (w.adr + PAGE_SIZE), ulong (w.size + 2 ^ 64 - PAGE_SIZE),
    w.pages ++ [w.adr / PAGE_SIZE]⟩

/-- The pages of a whole loop. -/
def walkPages (fuel adr size : Nat) : Option (List Nat) :=
  (whileLoop Walk.more Walk.next fuel ⟨adr, size, []⟩).map (·.pages)

/-! ## kvmem.c -/

/-- What `rkmalloc` calls, and the bytes of the block that it gets. -/
def request (getOrder : Nat → Nat) (msize : Int) : Allocator :=
  if msize ≤ KMALLOC_LIMIT then .kmalloc else .pages (getOrder (toUlong msize))

/-- What the allocator gives. -/
def blockSize (getOrder : Nat → Nat) (msize : Int) : Nat :=
  match request getOrder msize with
  | .pages order => PAGE_SIZE * 2 ^ order
  | _ => toUlong msize

/-- `rkmalloc` when the kernel gives it the block at `mem`: `*msize` and the
    pages that it has marked. -/
def rkmalloc (fuel mem : Nat) (msize : Int) : Option (Int × List Nat) :=
  if mem ≠ 0 then do
    let adr := PAGE_ALIGN mem
    let msize := toInt (toUlong (msize - (adr - mem)))
    let pages ← walkPages fuel adr (toUlong msize)
    return (msize, pages)
  else some (msize, [])

/-- `rkfree`: the pages that it has unmarked, and whom it gives the block. -/
def rkfree (getOrder : Nat → Nat) (fuel mem size : Nat) :
    Option (List Nat × Option Allocator) :=
  if mem ≠ 0 then do
    let pages ← walkPages fuel (PAGE_ALIGN mem) size
    return (pages, some
      (if size ≤ KMALLOC_LIMIT.toNat then .kmalloc else .pages (getOrder size)))
  else some ([], none)

/-- `rvfree` -/
def rvfree (fuel mem size : Nat) : Option (List Nat × Option Allocator) :=
  if mem ≠ 0 then do
    let pages ← walkPages fuel mem size
    return (pages, some .vmalloc)
  else some ([], none)

/-! ## shm.c -/

/-- `((size - 1) & PAGE_MASK) + PAGE_SIZE` as an `int`. -/
def roundSize (size : Int) : Int :=
  toInt ((size - 1) / PAGE_SIZE * PAGE_SIZE + PAGE_SIZE)

/-- What `_rt_shm_alloc` leaves: the address and the type in the registry, and
    the pages that have been marked. -/
structure Registered where
  adr : Nat
  type : Int
  marked : List Nat

/-- `_rt_shm_alloc` for a new name and a support other than `vmalloc`.
    `registers` tells whether there was a slot for the name. -/
def rtShmAlloc (getOrder : Nat → Nat) (fuel mem : Nat) (size : Int)
    (registers : Bool) : Option (Option Registered) := do
  let (msize, marked) ← rkmalloc fuel mem (roundSize size)
  if mem = 0 then return none
  else if registers then return some ⟨mem, toInt (-msize), marked⟩
  else do
    let _ ← rkfree getOrder fuel mem (toUlong msize)
    return none

/-- `_rt_shm_free` by the last user of a name. -/
def rtShmFree (getOrder : Nat → Nat) (fuel adr : Nat) (size : Int) :
    Option (List Nat × Option Allocator) :=
  if size ≠ 0 ∧ adr ≠ 0 then
    if size < 0 then rkfree getOrder fuel adr (toUlong (toInt (-size)))
    else rvfree fuel adr (toUlong size)
  else some ([], none)

/-- The pages are marked and unmarked in pairs, and the block goes back where
    it came from. -/
def Paired (getOrder : Nat → Nat) (mem : Nat) (size : Int) : Prop :=
  ∃ fuel r, rtShmAlloc getOrder fuel mem size true = some r ∧
    ∀ x ∈ r, (∀ p ∈ x.marked, mem ≤ p * PAGE_SIZE ∧
        p * PAGE_SIZE + PAGE_SIZE ≤ mem + blockSize getOrder (roundSize size)) ∧
      ∃ fuel', rtShmFree getOrder fuel' x.adr x.type =
        some (x.marked, some (request getOrder (roundSize size)))

/-! ## Walks -/

/-- **A WALK OVER WHOLE PAGES ENDS**. -/
theorem walk_whole (n : Nat) : ∀ (fuel adr : Nat) (done : List Nat), n < fuel →
    adr % PAGE_SIZE = 0 → adr + n * PAGE_SIZE ≤ 2 ^ 64 →
    ∃ w, whileLoop Walk.more Walk.next fuel ⟨adr, n * PAGE_SIZE, done⟩ = some w ∧
      w.pages = done ++ (List.range' (adr / PAGE_SIZE) n) := by
  induction n with
  | zero =>
    intro fuel adr done hf _ _
    obtain ⟨fuel, rfl⟩ : ∃ f, fuel = f + 1 := ⟨fuel - 1, by omega⟩
    refine ⟨_, whileLoop_of_false ?_ fuel, ?_⟩
    · simp [Walk.more]
    · simp
  | succ n ih =>
    intro fuel adr done hf hal hend
    obtain ⟨fuel, rfl⟩ : ∃ f, fuel = f + 1 := ⟨fuel - 1, by omega⟩
    have hmore : Walk.more ⟨adr, (n + 1) * PAGE_SIZE, done⟩ = true := by
      simp [Walk.more, PAGE_SIZE]
    have hsize : ulong ((n + 1) * PAGE_SIZE + 2 ^ 64 - PAGE_SIZE) = n * PAGE_SIZE := by
      simp only [ulong, PAGE_SIZE] at hend ⊢
      omega
    have hnext : Walk.next ⟨adr, (n + 1) * PAGE_SIZE, done⟩ =
        some ⟨ulong (adr + PAGE_SIZE), n * PAGE_SIZE, done ++ [adr / PAGE_SIZE]⟩ := by
      rw [Walk.next, hsize]
    rw [whileLoop_of_true hmore hnext]
    cases n with
    | zero =>
      -- the last page may be the last one of all
      obtain ⟨fuel, rfl⟩ : ∃ f, fuel = f + 1 := ⟨fuel - 1, by omega⟩
      refine ⟨_, whileLoop_of_false ?_ fuel, ?_⟩
      · simp [Walk.more]
      · simp
    | succ n =>
      have hadr : ulong (adr + PAGE_SIZE) = adr + PAGE_SIZE := by
        simp only [ulong, PAGE_SIZE] at hend ⊢
        omega
      rw [hadr]
      obtain ⟨w, hw, hp⟩ := ih fuel (adr + PAGE_SIZE) (done ++ [adr / PAGE_SIZE])
        (by omega) (by simp only [PAGE_SIZE] at hal ⊢; omega)
        (by simp only [PAGE_SIZE] at hend ⊢; omega)
      refine ⟨w, hw, ?_⟩
      have hdiv : (adr + PAGE_SIZE) / PAGE_SIZE = adr / PAGE_SIZE + 1 := by
        simp only [PAGE_SIZE]
        omega
      rw [hp, hdiv]
      simp [List.range'_succ]

/-- **A WALK OVER PART OF A PAGE DOES NOT END**: the size passes 0. -/
theorem walk_part (fuel adr size : Nat) (h : size % PAGE_SIZE ≠ 0) :
    walkPages fuel adr size = none := by
  have hdiv : whileLoop Walk.more Walk.next fuel ⟨adr, size, []⟩ = none := by
    refine whileLoop_diverges (I := fun w => w.size % PAGE_SIZE ≠ 0) ?_ ?_ h fuel
    · intro w w' hw he
      rw [Walk.next, Option.some.injEq] at he
      rw [← he]
      simp only [ulong, PAGE_SIZE] at hw ⊢
      omega
    · intro w hw
      have hpos : w.size > 0 := by
        by_contra h0
        have h0 : w.size = 0 := by omega
        rw [h0] at hw
        exact hw (Nat.zero_mod _)
      simp [Walk.more, hpos]
  simp [walkPages, hdiv]

theorem walkPages_whole {adr n : Nat} (hal : adr % PAGE_SIZE = 0)
    (hend : adr + n * PAGE_SIZE ≤ 2 ^ 64) :
    walkPages (n + 1) adr (n * PAGE_SIZE) = some (List.range' (adr / PAGE_SIZE) n) := by
  obtain ⟨w, hw, hp⟩ := walk_whole n (n + 1) adr [] (by omega) hal hend
  simp [walkPages, hw, hp]

/-! ## Pairs -/

theorem PAGE_ALIGN_of_aligned {mem : Nat} (hm : mem < 2 ^ 64)
    (h : mem % PAGE_SIZE = 0) : PAGE_ALIGN mem = mem := by
  simp only [PAGE_ALIGN, ulong, PAGE_SIZE] at h ⊢
  omega

theorem PAGE_ALIGN_aligned (mem : Nat) : PAGE_ALIGN mem % PAGE_SIZE = 0 := by
  simp only [PAGE_ALIGN, PAGE_SIZE]
  omega

/-- The size that is left after a gap is no whole number of pages. -/
theorem gap_part {mem : Nat} {msize : Int} (h : mem % PAGE_SIZE ≠ 0) (hs : msize % 4096 = 0) :
    toUlong (toInt (toUlong (msize - (PAGE_ALIGN mem - mem)))) % PAGE_SIZE ≠ 0 := by
  have hal := PAGE_ALIGN_aligned mem
  simp only [toUlong, toInt, PAGE_SIZE, Int.bmod] at h hal ⊢
  omega

theorem roundSize_whole (size : Int) : roundSize size % 4096 = 0 := by
  simp only [roundSize, toInt, PAGE_SIZE, Int.bmod]
  omega

theorem roundSize_small {size : Int} (h : 0 < size) (hs : size ≤ 2 ^ 31 - 4096) :
    ∃ n : Nat, 0 < n ∧ n < 2 ^ 19 ∧ roundSize size = n * PAGE_SIZE := by
  refine ⟨((size - 1) / 4096 + 1).toNat, ?_, ?_, ?_⟩
  · omega
  · omega
  · simp only [roundSize, toInt, PAGE_SIZE, Int.bmod]
    omega

/-- The size that rounds up to more than an `int` holds. -/
theorem roundSize_large {size : Int} (h : 2 ^ 31 - 4096 < size) (hs : size < 2 ^ 31) :
    roundSize size = -2 ^ 31 := by
  simp only [roundSize, toInt, PAGE_SIZE, Int.bmod]
  omega

theorem roundSize_pos {size : Int} (h : 0 < size) (hs : size < 2 ^ 31) :
    0 < toUlong (roundSize size) := by
  simp only [roundSize, toUlong, toInt, PAGE_SIZE, Int.bmod]
  omega

/-- What `rkmalloc` leaves of a size at a page that begins a block. -/
theorem rkmalloc_aligned {mem n : Nat} (h0 : mem ≠ 0) (hm : mem < 2 ^ 64)
    (hal : mem % PAGE_SIZE = 0) (hn : n < 2 ^ 19) (hend : mem + n * PAGE_SIZE ≤ 2 ^ 64) :
    rkmalloc (n + 1) mem (n * PAGE_SIZE : Nat) =
      some (((n * PAGE_SIZE : Nat) : Int), List.range' (mem / PAGE_SIZE) n) := by
  have hleft : toInt (toUlong ((n * PAGE_SIZE : Nat) - ((mem : Int) - mem))) =
      (n * PAGE_SIZE : Nat) := by
    simp only [toInt, toUlong, PAGE_SIZE, Int.bmod]
    omega
  have hlong : toUlong (n * PAGE_SIZE : Nat) = n * PAGE_SIZE := by
    simp only [toUlong, PAGE_SIZE]
    omega
  simp only [rkmalloc, if_pos h0, PAGE_ALIGN_of_aligned hm hal, hleft, hlong,
    walkPages_whole hal hend]
  rfl

theorem le_blockSize {getOrder : Nat → Nat} (hget : ∀ n, n ≤ PAGE_SIZE * 2 ^ getOrder n)
    (msize : Int) : toUlong msize ≤ blockSize getOrder msize := by
  unfold blockSize request
  split
  · next order heq =>
    split at heq
    · exact nomatch heq
    · cases heq
      exact hget (toUlong msize)
  · exact Nat.le_refl _

/-- A block of whole pages goes back with its own size. -/
theorem paired_of_aligned {getOrder : Nat → Nat} {mem : Nat} {size : Int}
    (hget : ∀ n, n ≤ PAGE_SIZE * 2 ^ getOrder n) (hpos : 0 < size)
    (hs : size ≤ 2 ^ 31 - 4096) (h0 : mem ≠ 0) (hal : mem % PAGE_SIZE = 0)
    (hend : mem + blockSize getOrder (roundSize size) ≤ 2 ^ 64) :
    Paired getOrder mem size := by
  obtain ⟨n, hn0, hn, hround⟩ := roundSize_small hpos hs
  have hcast : (n : Int) * PAGE_SIZE = (n * PAGE_SIZE : Nat) := by
    rw [Int.natCast_mul]
  rw [hcast] at hround
  have hlong : toUlong (n * PAGE_SIZE : Nat) = n * PAGE_SIZE := by
    simp only [toUlong, PAGE_SIZE]
    omega
  have hblock := le_blockSize hget (n * PAGE_SIZE : Nat)
  rw [hlong] at hblock
  rw [hround] at hend
  have hm : mem < 2 ^ 64 := by
    have hpage : 0 < n * PAGE_SIZE := by simp only [PAGE_SIZE]; omega
    omega
  have hroom : mem + n * PAGE_SIZE ≤ 2 ^ 64 := Nat.le_trans (by omega) hend
  have hneg : toInt (-(n * PAGE_SIZE : Nat)) = -(n * PAGE_SIZE : Nat) := by
    simp only [toInt, PAGE_SIZE, Int.bmod]
    omega
  refine ⟨n + 1, some ⟨mem, -(n * PAGE_SIZE : Nat), List.range' (mem / PAGE_SIZE) n⟩, ?_, ?_⟩
  · simp only [rtShmAlloc, hround, rkmalloc_aligned h0 hm hal hn hroom, if_neg h0,
      Option.bind_eq_bind, Option.bind_some, if_pos, hneg]
    rfl
  · intro x hx
    obtain rfl := Option.mem_some_iff.mp hx
    refine ⟨?_, n + 1, ?_⟩
    · intro p hp
      rw [List.mem_range'_1] at hp
      rw [hround]
      simp only [PAGE_SIZE] at hal hp hblock ⊢
      omega
    · have hne : -((n * PAGE_SIZE : Nat) : Int) ≠ 0 := by
        simp only [PAGE_SIZE]
        omega
      have hlt : -((n * PAGE_SIZE : Nat) : Int) < 0 := by omega
      have hback : toUlong (toInt (- -((n * PAGE_SIZE : Nat) : Int))) = n * PAGE_SIZE := by
        simp only [toUlong, toInt, PAGE_SIZE, Int.bmod]
        omega
      have hlimit : n * PAGE_SIZE ≤ KMALLOC_LIMIT.toNat ↔
          ((n * PAGE_SIZE : Nat) : Int) ≤ KMALLOC_LIMIT := by
        simp only [KMALLOC_LIMIT]
        omega
      simp only [rtShmFree, if_pos (And.intro hne h0), if_pos hlt, hback, rkfree,
        if_pos h0, PAGE_ALIGN_of_aligned hm hal, walkPages_whole hal hroom, hround,
        request, hlong, hlimit]
      rfl

theorem not_paired_of_gap {getOrder : Nat → Nat} {mem : Nat} {size : Int}
    (h0 : mem ≠ 0) (hal : mem % PAGE_SIZE ≠ 0) :
    ¬ Paired getOrder mem size := by
  rintro ⟨fuel, r, hr, -⟩
  have hpart := walk_part fuel (PAGE_ALIGN mem) _ (gap_part hal (roundSize_whole size))
  simp [rtShmAlloc, rkmalloc, h0, hpart] at hr

/-- A rounded size below 0 goes to `kmalloc` and comes back from
    `free_pages`. -/
theorem not_paired_of_large {getOrder : Nat → Nat} {mem : Nat} {size : Int}
    (h0 : mem ≠ 0) (hm : mem < 2 ^ 64) (hs : 2 ^ 31 - 4096 < size) (hlt : size < 2 ^ 31) :
    ¬ Paired getOrder mem size := by
  by_cases hal : mem % PAGE_SIZE = 0
  · rintro ⟨fuel, r, hr, hpair⟩
    have hleft : toInt (toUlong (-2 ^ 31 - ((mem : Int) - mem))) = -2 ^ 31 := by
      simp only [toInt, toUlong, Int.bmod]
      omega
    have hneg : toInt (- -2 ^ 31) = -2 ^ 31 := by decide
    have hlong : toUlong (-2 ^ 31) = 2 ^ 64 - 2 ^ 31 := by decide
    have hbig : ¬ (2 ^ 64 - 2 ^ 31 ≤ KMALLOC_LIMIT.toNat) := by decide
    have hreq : request getOrder (-2 ^ 31) = .kmalloc := if_pos (by decide)
    rw [rtShmAlloc, rkmalloc, if_pos h0, roundSize_large hs hlt] at hr
    simp only [PAGE_ALIGN_of_aligned hm hal, hleft, hlong] at hr
    cases hw : walkPages fuel mem (2 ^ 64 - 2 ^ 31) with
    | none =>
      rw [hw] at hr
      exact nomatch hr
    | some marked =>
      simp only [hw, if_neg h0, Option.bind_eq_bind, Option.bind_some, Option.pure_def,
        if_pos, hneg] at hr
      obtain rfl := Option.some.inj hr
      obtain ⟨-, fuel', hfree⟩ := hpair _ rfl
      have hne : (-2 ^ 31 : Int) ≠ 0 ∧ mem ≠ 0 := ⟨by decide, h0⟩
      have hnegative : (-2 ^ 31 : Int) < 0 := by decide
      simp only [rtShmFree, if_pos hne, if_pos hnegative, hneg, hlong, rkfree, if_pos h0, if_neg hbig,
        PAGE_ALIGN_of_aligned hm hal, roundSize_large hs hlt, hreq] at hfree
      cases hw' : walkPages fuel' mem (2 ^ 64 - 2 ^ 31) with
      | none =>
        rw [hw'] at hfree
        exact nomatch hfree
      | some pages =>
        rw [hw'] at hfree
        cases hfree
  · exact not_paired_of_gap h0 hal

/-- **THE PAGES OF A SHARED AREA ARE MARKED AND UNMARKED IN PAIRS** exactly when
    the block begins a page and its rounded size fits an `int`. -/
theorem paired_iff (getOrder : Nat → Nat) (mem : Nat) (size : Int)
    (hget : ∀ n, n ≤ PAGE_SIZE * 2 ^ getOrder n) (hpos : 0 < size) (hlt : size < 2 ^ 31)
    (hend : mem ≠ 0 → mem + blockSize getOrder (roundSize size) ≤ 2 ^ 64) :
    Paired getOrder mem size ↔ mem = 0 ∨ (mem % PAGE_SIZE = 0 ∧ size ≤ 2 ^ 31 - 4096) := by
  by_cases h0 : mem = 0
  · refine iff_of_true ⟨1, none, ?_, fun x hx => nomatch hx⟩ (Or.inl h0)
    simp [rtShmAlloc, rkmalloc, h0]
  · have hend := hend h0
    have hm : mem < 2 ^ 64 := by
      have hblock := le_blockSize hget (roundSize size)
      have hpage := roundSize_pos hpos hlt
      omega
    constructor
    · intro hpair
      refine Or.inr ⟨?_, ?_⟩
      -- the walk takes whole pages and never ends on a part of one
      · by_contra hal
        exact not_paired_of_gap h0 hal hpair
      -- the rounded size is negative
      · by_contra hs
        exact not_paired_of_large h0 hm (by omega) hlt hpair
    · rintro (h | ⟨hal, hs⟩)
      · exact absurd h h0
      · exact paired_of_aligned hget hpos hs h0 hal hend

/-- `get_order` -/
def getOrderOf (size : Nat) : Nat := Nat.clog 2 ((size - 1) / PAGE_SIZE + 1)

theorem le_getOrderOf (size : Nat) : size ≤ PAGE_SIZE * 2 ^ getOrderOf size := by
  have h := Nat.le_pow_clog (by decide : 1 < 2) ((size - 1) / PAGE_SIZE + 1)
  rw [← getOrderOf] at h
  simp only [PAGE_SIZE] at h ⊢
  omega

theorem paired_one_page : Paired getOrderOf 65536 100 :=
  (paired_iff getOrderOf 65536 100 le_getOrderOf (by decide) (by decide)
    (fun _ => by decide)).mpr (Or.inr (by decide))

/-- The loop over a block that begins inside a page never ends. -/
theorem gap_not_paired : ¬ Paired getOrderOf 65552 100 :=
  not_paired_of_gap (by decide) (by decide)

end RtaiKmallocPages
