import RTThread.Rtdef
import RTThread.Lib.ByteMem

/-!
# The memory heap (`src/memheap.c`)

Every item of a memory heap, the header of its free list included, is a
`struct rt_memheap_item` in memory: six words and the owner's name. The other
fields of `struct rt_memheap` are kept as a record. Pointers are addresses;
all arithmetic on sizes and on item addresses is that of 32-bit words, as the
requests are checked only after it.

Each call is one step: the lock is taken before the first access and released
after the last one. The search loop gets as much fuel as the pool has bytes.
-/

namespace RTThread

open ByteMem

/-- `struct rt_memheap` together with the memory it lies in and the pool it manages. -/
structure Memheap where
  mem : ByteMem
  /-- address of the control block itself -/
  memheap : Nat
  startAddr : Nat
  poolSize : Nat
  availableSize : Nat
  maxUsedSize : Nat
  blockList : Nat
  freeList : Nat

namespace Memheap

abbrev memheapMagic : Nat := 0x1ea01ea0
abbrev memheapMask : Nat := 0xfffffffe
abbrev memheapUsed : Nat := 1
abbrev memheapFreed : Nat := 0
abbrev memheapMinialloc : Nat := 12

/-- `RT_MEMHEAP_SIZE`: six words and, with `RT_USING_MEMTRACE`, four bytes. -/
abbrev memheapSize : Nat := 28

/-- `offsetof(struct rt_memheap, free_header)`. -/
abbrev freeHeaderOffset : Nat := 52

-- --------
-- Items
-- --------

/-- The words of `struct rt_memheap_item`. -/
inductive Field
  | magic
  | poolPtr
  | next
  | prev
  | nextFree
  | prevFree
deriving DecidableEq

def Field.offset : Field → Nat
  | .magic => 0
  | .poolPtr => 4
  | .next => 8
  | .prev => 12
  | .nextFree => 16
  | .prevFree => 20

/-- `item->f`. -/
def get (h : Memheap) (f : Field) (item : Nat) : Nat := h.mem.load32 (item + f.offset)

/-- `item->f = v`. -/
def set (h : Memheap) (f : Field) (item v : Nat) : Memheap :=
  { h with mem := h.mem.store32 (item + f.offset) v }

/-- The four bytes of `owner_thread_name`, from a name that is filled up with zeros. -/
def nameField (name : List UInt8) : List UInt8 := (name ++ List.replicate 4 0).take 4

def setOwnerThreadName (h : Memheap) (item : Nat) (name : List UInt8) : Memheap :=
  { h with mem := h.mem.storeBytes (item + 24) (nameField name) }

def blankName : List UInt8 := [32, 32, 32, 32]
def noneName : List UInt8 := [78, 79, 78, 69]

/-- `RT_MEMHEAP_MAGIC | RT_MEMHEAP_USED` and `RT_MEMHEAP_MAGIC | RT_MEMHEAP_FREED`. -/
def magicWord (used : Bool) : Nat :=
  memheapMagic ||| if used then memheapUsed else memheapFreed

/-- `RT_MEMHEAP_IS_USED(i)`. -/
def memheapIsUsed (h : Memheap) (item : Nat) : Bool := h.get .magic item &&& memheapUsed != 0

/-- `MEMITEM_SIZE(item)`. -/
def memitemSize (h : Memheap) (item : Nat) : Nat :=
  Word32.sub (Word32.sub (h.get .next item) item) memheapSize

/-- `&(memheap->free_header)`. -/
def freeHeader (h : Memheap) : Nat := h.memheap + freeHeaderOffset

-- --------
-- Statements the functions share
-- --------

/-- `available_size = v`, and the update of `max_used_size` wherever it follows. -/
def setAvailable (h : Memheap) (v : Nat) : Memheap :=
  let h := { h with availableSize := v }
  if Word32.sub h.poolSize h.availableSize > h.maxUsedSize then
    { h with maxUsedSize := Word32.sub h.poolSize h.availableSize }
  else h

/-- Insert an item at the front of the free list. -/
def insertFree (h : Memheap) (item : Nat) : Memheap :=
  let h := h.set .nextFree item (h.get .nextFree h.freeList)
  let h := h.set .prevFree item h.freeList
  let h := h.set .prevFree (h.get .nextFree h.freeList) item
  h.set .nextFree h.freeList item

/-- Remove an item from the free list. -/
def removeFree (h : Memheap) (item : Nat) : Memheap :=
  let h := h.set .prevFree (h.get .nextFree item) (h.get .prevFree item)
  h.set .nextFree (h.get .prevFree item) (h.get .nextFree item)

/-- Build a free item at `newPtr`, behind `headerPtr` in the block list: the statements every
split makes up to its insertion into the free list. -/
def splitBlock (h : Memheap) (headerPtr newPtr : Nat) : Memheap :=
  let h := h.set .magic newPtr (magicWord false)
  let h := h.set .poolPtr newPtr h.memheap
  let h := h.setOwnerThreadName newPtr blankName
  let h := h.set .prev newPtr headerPtr
  let h := h.set .next newPtr (h.get .next headerPtr)
  let h := h.set .prev (h.get .next headerPtr) newPtr
  h.set .next headerPtr newPtr

/-- Merge the item `nextPtr` into the item `headerPtr` in front of it. -/
def mergeBlock (h : Memheap) (headerPtr nextPtr : Nat) : Memheap :=
  let h := h.set .prev (h.get .next nextPtr) headerPtr
  h.set .next headerPtr (h.get .next nextPtr)

/-- `_remove_next_ptr(next_ptr)`. -/
def removeNextPtr (h : Memheap) (nextPtr : Nat) : Memheap :=
  let h := h.removeFree nextPtr
  let h := h.set .prev (h.get .next nextPtr) (h.get .prev nextPtr)
  h.set .next (h.get .prev nextPtr) (h.get .next nextPtr)

/-- The requested size as the heap allocates it: aligned, and not below the minimum. -/
def roundSize (size : Nat) : Nat :=
  if rtAlign size < memheapMinialloc then memheapMinialloc else rtAlign size

-- --------
-- Initialisation
-- --------

/-- The words of an item that points to itself, before it is linked anywhere. -/
def initItem (h : Memheap) (item : Nat) : Memheap :=
  let h := h.set .magic item (magicWord false)
  let h := h.set .poolPtr item h.memheap
  let h := h.set .next item 0
  let h := h.set .prev item 0
  let h := h.set .nextFree item item
  h.set .prevFree item item

/-- The header of the free list. -/
def initHeader (h : Memheap) : Memheap :=
  let h := h.initItem h.freeHeader
  { h with freeList := h.freeHeader }

/-- The first big memory block, which the tailer follows. -/
def initBlock (h : Memheap) : Memheap :=
  let item := h.startAddr
  let h := h.initItem item
  let h := h.setOwnerThreadName item blankName
  let h := h.set .next item (Word32.add (Word32.add item h.availableSize) memheapSize)
  let h := h.set .prev item (h.get .next item)
  let h := { h with blockList := item }
  h.insertFree item

/-- The tailer, a used memory block. -/
def initTailer (h : Memheap) : Memheap :=
  let item := h.get .next h.startAddr
  let h := h.set .magic item (magicWord true)
  let h := h.set .poolPtr item h.memheap
  let h := h.set .next item h.startAddr
  let h := h.set .prev item h.startAddr
  let h := h.set .prevFree item 0
  h.set .nextFree item 0

/-- `rt_memheap_init(memheap, name, start_addr, size)` on the memory `m`. -/
def rtMemheapInit (m : ByteMem) (memheap startAddr size : Nat) : Memheap :=
  let poolSize := rtAlignDown size
  let availableSize := Word32.sub poolSize (2 * memheapSize)
  let h : Memheap :=
    { mem := m, memheap, startAddr, poolSize, availableSize
      maxUsedSize := Word32.sub poolSize availableSize, blockList := 0, freeList := 0 }
  h.initHeader.initBlock.initTailer

-- --------
-- Allocation
-- --------

/-- Fuel for the loop over the free list. -/
def loopFuel (h : Memheap) : Nat := h.poolSize + 2

/-- The search loop of `rt_memheap_alloc`, from the item `headerPtr`. -/
def search (h : Memheap) (size : Nat) : Nat → Nat → Nat → Except Fault (Nat × Nat)
  | 0, _, _ => .error .divergence
  | fuel + 1, freeSize, headerPtr =>
    if headerPtr ≠ h.freeList ∧ freeSize < size then
      let freeSize := h.memitemSize headerPtr
      if freeSize < size then h.search size fuel freeSize (h.get .nextFree headerPtr)
      else h.search size fuel freeSize headerPtr
    else .ok (freeSize, headerPtr)

/-- The branch of `rt_memheap_alloc` that splits the block found. -/
def allocSplit (h : Memheap) (headerPtr size : Nat) : Memheap :=
  let newPtr := Word32.add (Word32.add headerPtr size) memheapSize
  let h := h.splitBlock headerPtr newPtr
  let h := h.removeFree headerPtr
  let h := h.set .nextFree headerPtr 0
  let h := h.set .prevFree headerPtr 0
  let h := h.insertFree newPtr
  h.setAvailable (Word32.sub (Word32.sub h.availableSize size) memheapSize)

/-- The branch that hands out the whole block. -/
def allocWhole (h : Memheap) (headerPtr freeSize : Nat) : Memheap :=
  let h := h.setAvailable (Word32.sub h.availableSize freeSize)
  let h := h.removeFree headerPtr
  let h := h.set .nextFree headerPtr 0
  h.set .prevFree headerPtr 0

/-- What `rt_memheap_alloc` does with the block its search found. -/
def takeBlock (h : Memheap) (self : Option (List UInt8)) (headerPtr freeSize size : Nat) :
    Memheap :=
  let h :=
    if freeSize ≥ Word32.add (Word32.add size memheapSize) memheapMinialloc then
      h.allocSplit headerPtr size
    else h.allocWhole headerPtr freeSize
  let h := h.set .magic headerPtr (magicWord true)
  h.setOwnerThreadName headerPtr (self.getD noneName)

/-- `rt_memheap_alloc(heap, size)`. `self` is the name of `rt_thread_self()`. -/
def rtMemheapAlloc (h : Memheap) (self : Option (List UInt8)) (size : Nat) :
    Except Fault (Option Nat × Memheap) :=
  let size := roundSize size
  if size < h.availableSize then do
    let (freeSize, headerPtr) ← h.search size h.loopFuel 0 (h.get .nextFree h.freeList)
    if freeSize ≥ size then
      return (some (Word32.add headerPtr memheapSize), h.takeBlock self headerPtr freeSize size)
    else return (none, h)
  else return (none, h)

-- --------
-- Release
-- --------

/-- Merge with the previous neighbour: the block is taken out of the block list. -/
def mergeLeft (h : Memheap) (headerPtr : Nat) : Memheap :=
  let h := { h with availableSize := Word32.add h.availableSize memheapSize }
  let h := h.set .next (h.get .prev headerPtr) (h.get .next headerPtr)
  h.set .prev (h.get .next headerPtr) (h.get .prev headerPtr)

/-- Merge with the next neighbour, which leaves the free list. -/
def mergeRight (h : Memheap) (headerPtr : Nat) : Memheap :=
  let h := { h with availableSize := Word32.add h.availableSize memheapSize }
  let newPtr := h.get .next headerPtr
  (h.mergeBlock headerPtr newPtr).removeFree newPtr

/-- `if (!RT_MEMHEAP_IS_USED(header_ptr->next))`. -/
def tryMergeRight (h : Memheap) (headerPtr : Nat) : Memheap :=
  if h.memheapIsUsed (h.get .next headerPtr) = false then h.mergeRight headerPtr else h

/-- No left merge: insert in front of the first free item. -/
def insertHeader (h : Memheap) (headerPtr : Nat) : Memheap :=
  let n := h.get .nextFree h.freeList
  let h := h.set .nextFree headerPtr n
  let h := h.set .prevFree headerPtr (h.get .prevFree n)
  let h := h.set .nextFree (h.get .prevFree n) headerPtr
  h.set .prevFree n headerPtr

/-- `rt_memheap_free` from the mark on: both merges, and the insertion if there was no left one. -/
def freeBlock (h : Memheap) (headerPtr : Nat) : Memheap :=
  let h := h.set .magic headerPtr (magicWord false)
  let h := { h with availableSize := Word32.add h.availableSize (h.memitemSize headerPtr) }
  if h.memheapIsUsed (h.get .prev headerPtr) = false then
    let h := h.mergeLeft headerPtr
    let headerPtr := h.get .prev headerPtr
    (h.tryMergeRight headerPtr).setOwnerThreadName headerPtr blankName
  else
    ((h.tryMergeRight headerPtr).insertHeader headerPtr).setOwnerThreadName headerPtr blankName

/-- `rt_memheap_free(ptr)`; `none` is the null pointer. The checks of the heap behind the item's
pool pointer stand here as that it is this one. -/
def rtMemheapFree (h : Memheap) (ptr : Option Nat) : Except Fault Memheap :=
  match ptr with
  | none => return h
  | some ptr => do
    let headerPtr := Word32.sub ptr memheapSize
    rtAssert (h.get .magic headerPtr = magicWord true)
    rtAssert (h.get .magic (h.get .next headerPtr) &&& memheapMask = memheapMagic)
    rtAssert (h.get .poolPtr headerPtr = h.memheap)
    return h.freeBlock headerPtr

-- --------
-- Resizing
-- --------

/-- Grow into the free block behind: it is removed and built anew further on. -/
def growBlock (h : Memheap) (ptr headerPtr oldsize newsize : Nat) : Memheap :=
  let nextPtr := h.get .next headerPtr
  let h := h.setAvailable (Word32.sub h.availableSize (Word32.sub newsize oldsize))
  let h := h.removeNextPtr nextPtr
  let nextPtr := Word32.add ptr newsize
  (h.splitBlock headerPtr nextPtr).insertFree nextPtr

/-- `if (!RT_MEMHEAP_IS_USED(new_ptr->next))`: the end of a shrunk block, not counted yet, takes
in a free block behind it. -/
def absorbNext (h : Memheap) (newPtr : Nat) : Memheap :=
  if h.memheapIsUsed (h.get .next newPtr) = false then
    let freePtr := h.get .next newPtr
    let h := { h with availableSize := Word32.sub h.availableSize (h.memitemSize freePtr) }
    (h.mergeBlock newPtr freePtr).removeFree freePtr
  else h

/-- Give back the end of a block. -/
def shrinkBlock (h : Memheap) (headerPtr newsize : Nat) : Memheap :=
  let newPtr := Word32.add (Word32.add headerPtr newsize) memheapSize
  let h := h.splitBlock headerPtr newPtr
  let h := (h.absorbNext newPtr).insertFree newPtr
  { h with availableSize := Word32.add h.availableSize (h.memitemSize newPtr) }

/-- Allocate a block, copy, and free the old one. -/
def moveBlock (h : Memheap) (self : Option (List UInt8)) (ptr oldsize newsize : Nat) :
    Except Fault (Option Nat × Memheap) := do
  match ← h.rtMemheapAlloc self newsize with
  | (none, h) => return (none, h)
  | (some newPtr, h) =>
    let n := if oldsize < newsize then oldsize else newsize
    let h ← { h with mem := h.mem.memcpy newPtr ptr n }.rtMemheapFree (some ptr)
    return (some newPtr, h)

/-- The test for the free space behind, in the arithmetic of the source. -/
def canGrow (h : Memheap) (nextPtr oldsize newsize : Nat) : Bool :=
  Word32.add (h.memitemSize nextPtr) oldsize > Word32.add newsize memheapMinialloc

/-- `rt_memheap_realloc(heap, ptr, newsize)`. -/
def rtMemheapRealloc (h : Memheap) (self : Option (List UInt8)) (ptr : Option Nat)
    (newsize : Nat) : Except Fault (Option Nat × Memheap) :=
  if newsize = 0 then do
    let h ← h.rtMemheapFree ptr
    return (none, h)
  else
    let newsize := roundSize newsize
    match ptr with
    | none => h.rtMemheapAlloc self newsize
    | some ptr =>
      let headerPtr := Word32.sub ptr memheapSize
      let oldsize := h.memitemSize headerPtr
      if newsize > oldsize then do
        let nextPtr := h.get .next headerPtr
        rtAssert (nextPtr > headerPtr)
        if h.memheapIsUsed nextPtr = false ∧ h.canGrow nextPtr oldsize newsize = true then
          return (some ptr, h.growBlock ptr headerPtr oldsize newsize)
        else h.moveBlock self ptr oldsize newsize
      else if Word32.add (Word32.add newsize memheapSize) memheapMinialloc ≥ oldsize then
        return (some ptr, h)
      else return (some ptr, h.shrinkBlock headerPtr newsize)

end Memheap

end RTThread
