import Mathlib

/-! # malloc.c: the BSD allocator

    An extent has a header with a byte for each of its pages, and the pages.
    The links of the free pages and of the free blocks are in their first
    words.  An address is a number, `NULL` is 0, and no area wraps around. -/

namespace RtaiHeap

/-- The bounds of blocks, pages and extents. -/
def RTHEAP_MINLOG2 : Nat := 4
def RTHEAP_MAXLOG2 : Nat := 22
def RTHEAP_MINALLOCSZ : Nat := 2 ^ RTHEAP_MINLOG2
def RTHEAP_MINALIGNSZ : Nat := RTHEAP_MINALLOCSZ
def RTHEAP_MAXEXTSZ : Nat := 0x7FFFFFFF
def KMALLOC_LIMIT : Nat := 128 * 1024

/-- The marks of the page map. -/
def RTHEAP_PFREE : Nat := 0
def RTHEAP_PCONT : Nat := 1
def RTHEAP_PLIST : Nat := 2

/-- The errors. -/
def RTHEAP_NOMEM : Int := -1
def RTHEAP_PARAM : Int := -2

/-- `sizeof(rtextent_t)`, and where `pagemap` is in it. -/
def sizeofExtent : Nat := 48
/-- The offset of `pagemap`. -/
def pagemapAt : Nat := 40

/-- The words in the pages, by address. -/
abbrev Mem := Nat → Nat

/-- The header of an extent. -/
structure Extent where
  extent : Nat
  membase : Nat
  memlim : Nat
  freelist : Nat
  /-- The bytes from `pagemap` on, also those behind the map. -/
  pagemap : Nat → Nat

/-- The descriptor of a heap. -/
structure Rtheap where
  extentsize : Nat
  pagesize : Nat
  pageshift : Nat
  hdrsize : Nat
  npages : Nat
  ubytes : Nat
  maxcont : Nat
  extents : List Extent
  buckets : Nat → Nat

/-- `for (block = …; block < limit; block += stride)
    *((caddr_t *)block) = block + stride` -/
def linkLoop (stride limit : Nat) : Nat → Nat → Mem → Mem
  | 0, _, mem => mem
  | fuel + 1, block, mem =>
    if block < limit then
      linkLoop stride limit fuel (block + stride) (Function.update mem block (block + stride))
    else mem

/-- The blocks up to `limit`, linked. -/
def linkUpto (stride limit block : Nat) (mem : Mem) : Mem :=
  linkLoop stride limit (limit - block) block mem

/-! ## rtheap_init -/

/-- Memory that the heap is made of, with what is in it. -/
structure Area where
  addr : Nat
  bytes : Nat → Nat

/-- `alloc_extent`: the memory that there is.  That of `vmalloc` stays as it
    is, since the loop before has counted `size` down to 0. -/
def allocExtent (suprt : Bool) (got : Option Area) : Option Area :=
  got.map fun area => if suprt then { area with bytes := fun _ => 0 } else area

/-- `init_extent`: all pages are free. -/
def initExtent (heap : Rtheap) (area : Area) (mem : Mem) : Extent × Mem :=
  let membase := area.addr + heap.hdrsize
  let lastpgnum := ((heap.npages : Int) - 1).bmod (2 ^ 32)
  let freepage := membase + lastpgnum.toNat * heap.pagesize
  let mem := linkUpto heap.pagesize freepage membase mem
  let mem := Function.update mem freepage 0
  ({ extent := area.addr
     membase := membase
     memlim := freepage + heap.pagesize
     freelist := membase
     pagemap := fun n =>
       if n ≤ lastpgnum then RTHEAP_PFREE else area.bytes (pagemapAt + n) }, mem)

/-- The tests of the parameters. -/
def goodParams (heapsize pagesize : Nat) : Bool :=
  ¬ (pagesize < 2 ^ RTHEAP_MINLOG2 ∨ pagesize > 2 ^ RTHEAP_MAXLOG2 ∨
    pagesize &&& (pagesize - 1) ≠ 0 ∨ heapsize ≤ sizeofExtent ∨
    heapsize > RTHEAP_MAXEXTSZ ∨ heapsize &&& (pagesize - 1) ≠ 0)

/-- The header with the page map. -/
def headerSize (heapsize pagesize : Nat) : Nat :=
  let pmapsize := (heapsize - sizeofExtent) / (pagesize + 1)
  (sizeofExtent + pmapsize + RTHEAP_MINALIGNSZ - 1) / RTHEAP_MINALIGNSZ * RTHEAP_MINALIGNSZ

/-- `while (init_size < heapsize)`.  `core n` is the memory that the n-th
    request gets. -/
def addExtents (core : Nat → Option Area) (suprt : Bool) (heapsize : Nat) :
    Nat → Nat → Nat → Rtheap → Mem → Except Int (Rtheap × Mem)
  | 0, _, _, heap, mem => .ok (heap, mem)
  | fuel + 1, n, initSize, heap, mem =>
    if initSize < heapsize then
      match allocExtent suprt (core n) with
      | none => .error RTHEAP_NOMEM
      | some area =>
        let (extent, mem) := initExtent heap area mem
        addExtents core suprt heapsize fuel (n + 1) (initSize + heap.extentsize)
          { heap with extents := heap.extents ++ [extent] } mem
    else .ok (heap, mem)

/-- The descriptor before there are extents. -/
def newHeap (heapsize pagesize extentsize : Nat) : Rtheap :=
  let hdrsize := headerSize heapsize pagesize
  let pageshift := Nat.log2 pagesize
  let npages := ((extentsize + 2 ^ 64 - hdrsize) % 2 ^ 64) >>> pageshift
  { extentsize := extentsize
    pagesize := pagesize
    pageshift := pageshift
    hdrsize := hdrsize
    npages := npages
    ubytes := 0
    maxcont := npages * pagesize % 2 ^ 64
    extents := []
    buckets := fun _ => 0 }

/-- Where the heap is to be, and how long an extent is: `large` is what a
    request for all of it gets. -/
def heapArea (heapaddr : Option Area) (large : Option Area) (suprt : Bool)
    (heapsize : Nat) : Option Area × Nat :=
  if heapaddr.isNone ∧ suprt then
    if heapsize ≤ KMALLOC_LIMIT then (none, KMALLOC_LIMIT)
    else
      match allocExtent suprt large with
      | none => (none, KMALLOC_LIMIT)
      | some area => (some area, heapsize)
  else (heapaddr, heapsize)

/-- `rtheap_init`: a heap of one or more extents. -/
def rtheapInit (heapaddr : Option Area) (large : Option Area)
    (core : Nat → Option Area) (heapsize pagesize : Nat) (suprt : Bool) (mem : Mem) :
    Except Int (Rtheap × Mem) :=
  if ¬ goodParams heapsize pagesize then .error RTHEAP_PARAM
  else if headerSize heapsize pagesize + 2 * pagesize > heapsize then
    .error RTHEAP_PARAM
  else
    let (heapaddr, extentsize) := heapArea heapaddr large suprt heapsize
    let heap := newHeap heapsize pagesize extentsize
    match heapaddr with
    | some area =>
      let (extent, mem) := initExtent heap area mem
      .ok ({ heap with extents := [extent] }, mem)
    | none => addExtents core suprt heapsize heapsize 0 0 heap mem

/-! ## get_free_range -/

/-- `do … while (freepage == lastpage + heap->pagesize && freecont < bsize)`,
    with `lastpage`, `freepage` and `freecont`. -/
def runLoop (heap : Rtheap) (mem : Mem) (bsize : Nat) :
    Nat → Nat → Nat → Option (Nat × Nat × Nat)
  | 0, _, _ => none
  | fuel + 1, freepage, freecont =>
    let lastpage := freepage
    let freepage := mem freepage
    let freecont := freecont + heap.pagesize
    if freepage = lastpage + heap.pagesize ∧ freecont < bsize then
      runLoop heap mem bsize fuel freepage freecont
    else some (lastpage, freepage, freecont)

/-- The free pages of one extent: `freehead`, and `headpage` and `lastpage` if
    there is a range. -/
def searchExtent (heap : Rtheap) (mem : Mem) (bsize : Nat) :
    Nat → Nat → Nat → Option (Nat × Option (Nat × Nat))
  | 0, _, _ => none
  | fuel + 1, freepage, freehead =>
    if freepage = 0 then some (freehead, none)
    else do
      let headpage := freepage
      let (lastpage, freepage, freecont) ← runLoop heap mem bsize (heap.npages + 1) freepage 0
      if freecont ≥ bsize then some (freehead, some (headpage, lastpage))
      else searchExtent heap mem bsize fuel freepage lastpage

/-- Pages are taken out of the free list. -/
def unlinkRange (extent : Extent) (mem : Mem) (headpage lastpage freehead : Nat) :
    Extent × Mem :=
  if headpage = extent.freelist then
    ({ extent with freelist := mem lastpage }, mem)
  else (extent, Function.update mem freehead (mem lastpage))

/-- From `splitpage` on. -/
def splitpage (heap : Rtheap) (extent : Extent) (mem : Mem)
    (headpage bsize log2size : Nat) : Extent × Mem :=
  let mem :=
    if bsize < heap.pagesize then
      let eblock := headpage + heap.pagesize - bsize
      Function.update (linkUpto bsize eblock headpage mem) eblock 0
    else Function.update mem headpage 0
  let pagenum := (headpage - extent.membase) >>> heap.pageshift
  let pagecont := bsize >>> heap.pageshift
  ({ extent with
     pagemap := fun n =>
       if pagenum < n ∧ n < pagenum + pagecont then RTHEAP_PCONT
       else if n = pagenum then (if log2size ≠ 0 then log2size else RTHEAP_PLIST)
       else extent.pagemap n }, mem)

/-- `none` if it does not return, and else the range, if there is one. -/
def getFreeRange (heap : Rtheap) (mem : Mem) (bsize log2size : Nat) :
    List Extent → Nat → Option (Option (Nat × List Extent × Mem))
  | [], _ => some none
  | extent :: rest, freehead => do
      let (freehead, found) ←
        searchExtent heap mem bsize (heap.npages + 1) extent.freelist freehead
      match found with
      | some (headpage, lastpage) =>
        let (extent, mem) := unlinkRange extent mem headpage lastpage freehead
        let (extent, mem) := splitpage heap extent mem headpage bsize log2size
        some (some (headpage, extent :: rest, mem))
      | none =>
        let range ← getFreeRange heap mem bsize log2size rest freehead
        some (range.map fun (headpage, rest, mem) =>
          (headpage, extent :: rest, mem))

/-! ## rtheap_alloc -/

/-- `(size + align - 1) & ~(align - 1)` -/
def roundUp (size align : Nat) : Nat := (size + align - 1) % 2 ^ 64 / align * align

/-- The size that is allocated. -/
def roundSize (heap : Rtheap) (size : Nat) : Nat :=
  if size ≤ heap.pagesize then
    if size ≤ RTHEAP_MINALIGNSZ then roundUp size RTHEAP_MINALLOCSZ
    else roundUp size RTHEAP_MINALIGNSZ
  else roundUp size heap.pagesize

/-- `for (…; bsize < size; bsize <<= 1, log2size++)`, where `bsize` is
    `1 << log2size`. -/
def log2Loop (size : Nat) : Nat → Nat → Nat
  | 0, log2size => log2size
  | fuel + 1, log2size =>
    if 2 ^ log2size < size then log2Loop size fuel (log2size + 1) else log2size

/-- The bucket of a size. -/
def log2Size (size : Nat) : Nat := log2Loop size size RTHEAP_MINLOG2

/-- How much is taken for a request. -/
def blockSize (heap : Rtheap) (n : Nat) : Nat :=
  let size := roundSize heap n
  if size ≤ heap.pagesize * 2 then 2 ^ log2Size size else size

/-- The first block of a bucket is taken off. -/
def takeBlock (heap : Rtheap) (mem : Mem) (log2size block : Nat) : Rtheap :=
  { heap with
    buckets := Function.update heap.buckets (log2size - RTHEAP_MINLOG2) (mem block)
    ubytes := heap.ubytes + 2 ^ log2size }

/-- Up to two pages: a block of a bucket, for which a range is split if there
    is none. -/
def allocBlock (heap : Rtheap) (mem : Mem) (log2size : Nat) : Option (Nat × Rtheap × Mem) :=
  let block := heap.buckets (log2size - RTHEAP_MINLOG2)
  if block = 0 then
    match getFreeRange heap mem (2 ^ log2size) log2size heap.extents 0 with
    | none => none
    | some none => some (0, heap, mem)
    | some (some (block, extents, mem)) =>
      some (block, takeBlock { heap with extents := extents } mem log2size block, mem)
  else some (block, takeBlock heap mem log2size block, mem)

/-- More than that: a range. -/
def allocRange (heap : Rtheap) (mem : Mem) (size : Nat) : Option (Nat × Rtheap × Mem) :=
  match getFreeRange heap mem size 0 heap.extents 0 with
  | none => none
  | some none => some (0, heap, mem)
  | some (some (block, extents, mem)) =>
    some (block, { heap with extents := extents, ubytes := heap.ubytes + size }, mem)

/-- `none` if it does not return. -/
def rtheapAlloc (heap : Rtheap) (mem : Mem) (n : Nat) : Option (Nat × Rtheap × Mem) :=
  if n = 0 then some (0, heap, mem)
  else
    let size := roundSize heap n
    if size ≤ heap.pagesize * 2 then allocBlock heap mem (log2Size size)
    else if size > heap.maxcont then some (0, heap, mem)
    else allocRange heap mem size

/-! ## rtheap_free -/

/-- The extent of a block, between the ones before and behind it. -/
def findExtent (block : Nat) : List Extent → Option (List Extent × Extent × List Extent)
  | [] => none
  | extent :: rest =>
    if extent.membase ≤ block ∧ block < extent.memlim then some ([], extent, rest)
    else (findExtent block rest).map fun (pre, e, post) => (extent :: pre, e, post)

/-- `while (npages < heap->npages && extent->pagemap[pagenum + npages] ==
    RTHEAP_PCONT)` -/
def countRun (heap : Rtheap) (extent : Extent) (pagenum : Nat) : Nat → Nat → Nat
  | 0, npages => npages
  | fuel + 1, npages =>
    if npages < heap.npages ∧ extent.pagemap (pagenum + npages) = RTHEAP_PCONT then
      countRun heap extent pagenum fuel (npages + 1)
    else npages

/-- Where a block is to go in the free list: `nextpage` and `lastpage`. -/
def findPlace (mem : Mem) (block : Nat) : Nat → Nat → Nat → Option (Nat × Nat)
  | 0, _, _ => none
  | fuel + 1, nextpage, lastpage =>
    if nextpage ≠ 0 ∧ nextpage < block then
      findPlace mem block fuel (mem nextpage) nextpage
    else some (nextpage, lastpage)

/-- `case RTHEAP_PLIST` -/
def freeRun (heap : Rtheap) (mem : Mem) (extent : Extent) (pagenum block : Nat) :
    Option (Nat × Extent × Mem) := do
  let npages := countRun heap extent pagenum heap.npages 1
  let bsize := npages * heap.pagesize
  let tailpage := block + bsize - heap.pagesize
  let mem := linkUpto heap.pagesize tailpage block mem
  let pagemap := fun n =>
    if pagenum ≤ n ∧ n < pagenum + npages then RTHEAP_PFREE else extent.pagemap n
  let (nextpage, lastpage) ← findPlace mem block (heap.npages + 1) extent.freelist 0
  let mem := Function.update mem tailpage nextpage
  if lastpage ≠ 0 then
    some (bsize, { extent with pagemap := pagemap }, Function.update mem lastpage block)
  else some (bsize, { extent with pagemap := pagemap, freelist := block }, mem)

/-- `none` if it does not return, or if the block is in no extent. -/
def rtheapFree (heap : Rtheap) (mem : Mem) (block : Nat) :
    Option (Int × Rtheap × Mem) := do
  let (pre, extent, post) ← findExtent block heap.extents
  let pagenum := (block - extent.membase) >>> heap.pageshift
  let boffset := block - (extent.membase + (pagenum <<< heap.pageshift))
  let tag := extent.pagemap pagenum
  if tag = RTHEAP_PFREE ∨ tag = RTHEAP_PCONT then some (RTHEAP_PARAM, heap, mem)
  else if tag = RTHEAP_PLIST then
    let (bsize, extent, mem) ← freeRun heap mem extent pagenum block
    some (0, { heap with
      extents := pre ++ extent :: post
      ubytes := heap.ubytes - bsize }, mem)
  else if boffset % 2 ^ tag ≠ 0 then some (RTHEAP_PARAM, heap, mem)
  else
    some (0, { heap with
        buckets := Function.update heap.buckets (tag - RTHEAP_MINLOG2) block
        ubytes := heap.ubytes - 2 ^ tag },
      Function.update mem block (heap.buckets (tag - RTHEAP_MINLOG2)))

/-! ## A heap and its users -/

/-- A block that a user has: its address, the bytes asked for, and the bytes
    taken. -/
structure Block where
  addr : Nat
  n : Nat
  size : Nat
  deriving DecidableEq

/-- A heap and what is allocated in it. -/
structure St where
  heap : Rtheap
  mem : Mem
  live : List Block

/-- The calls, and writes by the owners. -/
inductive Act where
  | alloc (n : Nat)
  | free (b : Block)
  | write (b : Block) (mem : Mem)

/-- Users allocate, release what they have, and write to it.  The output is what
    the call returns. -/
def step (st : St) : Act → Option (St × Int)
  | .alloc n =>
    if n ≥ 2 ^ 64 then none
    else
      match rtheapAlloc st.heap st.mem n with
      | none => none
      | some (block, heap, mem) =>
        if block = 0 then some ({ st with heap := heap, mem := mem }, 0)
        else
          let b : Block := ⟨block, n, blockSize st.heap n⟩
          some ({ heap := heap, mem := mem, live := b :: st.live }, block)
  | .free b =>
    if b ∈ st.live then
      match rtheapFree st.heap st.mem b.addr with
      | none => none
      | some (res, heap, mem) =>
        if res = 0 then
          some ({ heap := heap, mem := mem, live := st.live.erase b }, 0)
        else some ({ st with heap := heap, mem := mem }, res)
    else none
  | .write b mem =>
    if b ∈ st.live then
      some ({ st with mem := fun a =>
        if b.addr ≤ a ∧ a + 8 ≤ b.addr + b.size then mem a else st.mem a }, 0)
    else none

end RtaiHeap
