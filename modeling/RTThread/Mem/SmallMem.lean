import RTThread.Rtdef
import RTThread.Lib.ByteMem

/-!
# The small-memory allocator (`src/mem.c`)

The heap is a byte memory: an item header is sixteen bytes (`pool_ptr`, `next`,
`prev`, the owner's name), written and read in place, with the payload behind
it. The control block `struct rt_small_mem` lies in front of the heap and is
kept as a record. Pointers are addresses, `next` and `prev` are offsets from
`heap_ptr`; sizes are 32-bit words.

The two loops of `rt_smem_alloc` get as much fuel as there are bytes in the
heap; running out of it is reported as `Fault.divergence`.
-/

namespace RTThread

open ByteMem

/-- `struct rt_small_mem` together with the memory it manages. -/
structure SmallMem where
  mem : ByteMem
  /-- address of the control block itself -/
  smallMem : Nat
  heapPtr : Nat
  heapEnd : Nat
  lfree : Nat
  memSizeAligned : Nat
  /-- `parent.used` -/
  used : Nat
  /-- `parent.max` -/
  max : Nat

namespace SmallMem

/-- `SIZEOF_STRUCT_MEM`: four words with `RT_USING_MEMTRACE`. -/
abbrev sizeofStructMem : Nat := 16

/-- `sizeof(struct rt_small_mem)`. -/
abbrev sizeofSmallMem : Nat := 64

/-- `MIN_SIZE`, which is aligned as it stands (`MIN_SIZE_ALIGNED`). -/
abbrev minSize : Nat := 12

/-- `MEM_MASK`. -/
abbrev memMask : Nat := 0xfffffffe

-- --------
-- Item headers
-- --------

def poolPtr (h : SmallMem) (item : Nat) : Nat := h.mem.load32 item
def next (h : SmallMem) (item : Nat) : Nat := h.mem.load32 (item + 4)
def prev (h : SmallMem) (item : Nat) : Nat := h.mem.load32 (item + 8)

def setPoolPtr (h : SmallMem) (item v : Nat) : SmallMem :=
  { h with mem := h.mem.store32 item v }
def setNext (h : SmallMem) (item v : Nat) : SmallMem :=
  { h with mem := h.mem.store32 (item + 4) v }
def setPrev (h : SmallMem) (item v : Nat) : SmallMem :=
  { h with mem := h.mem.store32 (item + 8) v }

/-- `(struct rt_small_mem_item *)&heap_ptr[off]`. -/
def item (h : SmallMem) (off : Nat) : Nat := h.heapPtr + off

/-- `MEM_USED()`. -/
def memUsed (h : SmallMem) : Nat := h.smallMem &&& memMask ||| 1

/-- `MEM_FREED()`. -/
def memFreed (h : SmallMem) : Nat := h.smallMem &&& memMask

/-- `MEM_ISUSED(item)`. -/
def memIsUsed (h : SmallMem) (item : Nat) : Bool :=
  h.poolPtr item &&& Word32.not memMask != 0

/-- `MEM_POOL(item)`. -/
def memPool (h : SmallMem) (item : Nat) : Nat := h.poolPtr item &&& memMask

/-- The four bytes `rt_smem_setname` writes: the name up to its terminator, filled with blanks. -/
def nameField (name : List UInt8) : List UInt8 :=
  ((name.takeWhile (· != 0)).take 4 ++ List.replicate 4 32).take 4

def rtSmemSetname (h : SmallMem) (item : Nat) (name : List UInt8) : SmallMem :=
  { h with mem := h.mem.storeBytes (item + 12) (nameField name) }

/-- `pool_ptr = MEM_USED()` or `MEM_FREED()`, followed by the owner's name. -/
def mark (h : SmallMem) (item : Nat) (used : Bool) (name : List UInt8) : SmallMem :=
  (h.setPoolPtr item (if used then h.memUsed else h.memFreed)).rtSmemSetname item name

/-- The texts `"    "`, `"INIT"` and `"NONE"`. -/
def blankName : List UInt8 := [32, 32, 32, 32]
def initName : List UInt8 := [73, 78, 73, 84]
def noneName : List UInt8 := [78, 79, 78, 69]

-- --------
-- Merging neighbours
-- --------

/-- Combine the item `nmem` into the item `mem` in front of it. Both halves of `plug_holes`
write these three fields and correct `lfree` this way. -/
def combine (m : SmallMem) (mem nmem : Nat) : SmallMem :=
  let m := if m.lfree = nmem then { m with lfree := mem } else m
  let m := m.setPoolPtr nmem 0
  let m := m.setNext mem (m.next nmem)
  m.setPrev (m.item (m.next nmem)) (mem - m.heapPtr)

/-- Plug the hole forward: `mem->next` is unused and not the end of the heap. -/
def plugForward (m : SmallMem) (mem : Nat) : SmallMem :=
  let nmem := m.item (m.next mem)
  if mem ≠ nmem ∧ m.memIsUsed nmem = false ∧ nmem ≠ m.heapEnd then m.combine mem nmem else m

/-- Plug the hole backward: `mem->prev` is unused. -/
def plugBackward (m : SmallMem) (mem : Nat) : SmallMem :=
  let pmem := m.item (m.prev mem)
  if pmem ≠ mem ∧ m.memIsUsed pmem = false then m.combine pmem mem else m

def plugHoles (m : SmallMem) (mem : Nat) : Except Fault SmallMem := do
  rtAssert (m.heapPtr ≤ mem)
  rtAssert (mem < m.heapEnd)
  return (m.plugForward mem).plugBackward mem

-- --------
-- Initialisation
-- --------

/-- The four stores that set up a header. -/
def setHeader (h : SmallMem) (mem : Nat) (used : Bool) (next prev : Nat) (name : List UInt8) :
    SmallMem :=
  (((h.setPoolPtr mem (if used then h.memUsed else h.memFreed)).setNext mem next).setPrev mem
    prev).rtSmemSetname mem name

/-- The items of a new heap: one free item and the end of the heap. -/
def initItems (h : SmallMem) : SmallMem :=
  let mem := h.heapPtr
  let h := h.setHeader mem false (h.memSizeAligned + sizeofStructMem) 0 initName
  let h := { h with heapEnd := h.item (h.next mem) }
  let h := h.setHeader h.heapEnd true (h.memSizeAligned + sizeofStructMem)
    (h.memSizeAligned + sizeofStructMem) initName
  { h with lfree := h.heapPtr }

/-- `rt_smem_init(name, begin_addr, size)` on the memory `m`; `none` is a null result. -/
def rtSmemInit (m : ByteMem) (beginAddr size : Nat) : Option SmallMem :=
  let smallMem := rtAlign beginAddr
  let startAddr := Word32.add smallMem sizeofSmallMem
  let beginAlign := rtAlign startAddr
  let endAlign := rtAlignDown (Word32.add beginAddr size)
  if endAlign > 2 * sizeofStructMem ∧
      Word32.sub endAlign (2 * sizeofStructMem) ≥ startAddr then
    let memSize := Word32.sub (Word32.sub endAlign beginAlign) (2 * sizeofStructMem)
    let h : SmallMem :=
      { mem := m, smallMem, heapPtr := beginAlign, heapEnd := 0, lfree := 0
        memSizeAligned := memSize, used := 0, max := 0 }
    -- the result is `&small_mem->parent`, the address of the control block
    if smallMem = 0 then none else some h.initItems
  else none

-- --------
-- Allocation
-- --------

/-- Fuel for the loops over items: more than any heap has items. -/
def loopFuel (h : SmallMem) : Nat := h.memSizeAligned + 2

/-- The first-fit loop of `rt_smem_alloc`, from the item at `ptr`. -/
def search (h : SmallMem) (size : Nat) : Nat → Nat → Except Fault (Option Nat)
  | 0, _ => .error .divergence
  | fuel + 1, ptr =>
    if ptr ≤ Word32.sub h.memSizeAligned size then
      let mem := h.item ptr
      if h.memIsUsed mem = false ∧ Word32.sub (h.next mem) (ptr + sizeofStructMem) ≥ size then
        .ok (some ptr)
      else h.search size fuel (h.next mem)
    else .ok none

/-- Split a large item: `mem` keeps `size` bytes, the rest becomes a free item. -/
def splitItem (h : SmallMem) (ptr size : Nat) : SmallMem :=
  let mem := h.item ptr
  let ptr2 := ptr + sizeofStructMem + size
  let mem2 := h.item ptr2
  let h := h.setPoolPtr mem2 h.memFreed
  let h := h.setNext mem2 (h.next mem)
  let h := h.setPrev mem2 ptr
  let h := h.rtSmemSetname mem2 blankName
  let h := h.setNext mem ptr2
  if h.next mem2 ≠ h.memSizeAligned + sizeofStructMem then
    h.setPrev (h.item (h.next mem2)) ptr2
  else h

/-- `parent.used += n`, with the maximum. -/
def addUsed (h : SmallMem) (n : Nat) : SmallMem :=
  let h := { h with used := Word32.add h.used n }
  if h.max < h.used then { h with max := h.used } else h

/-- The loop that moves `lfree` to the next free item. -/
def nextFree (h : SmallMem) : Nat → Nat → Except Fault Nat
  | 0, _ => .error .divergence
  | fuel + 1, lfree =>
    if h.memIsUsed lfree = true ∧ lfree ≠ h.heapEnd then h.nextFree fuel (h.item (h.next lfree))
    else .ok lfree

/-- If `mem` was the lowest free item, find the next free one and update `lfree`. -/
def updateLfree (h : SmallMem) (mem : Nat) : Except Fault SmallMem :=
  if mem = h.lfree then do
    let lfree ← h.nextFree h.loopFuel h.lfree
    rtAssert (lfree = h.heapEnd ∨ h.memIsUsed lfree = false)
    return { h with lfree := lfree }
  else return h

/-- The common end of both branches of `rt_smem_alloc`: the item is marked used, `lfree` moves on
if it pointed here. `self` is the name of `rt_thread_self()`. -/
def claimItem (h : SmallMem) (self : Option (List UInt8)) (size mem : Nat) :
    Except Fault (Nat × SmallMem) := do
  let h := h.mark mem true (self.getD noneName)
  let h ← h.updateLfree mem
  rtAssert (mem + sizeofStructMem + size ≤ h.heapEnd)
  rtAssert ((mem + sizeofStructMem) % rtAlignSize = 0)
  rtAssert (mem % rtAlignSize = 0)
  return (mem + sizeofStructMem, h)

/-- What `rt_smem_alloc` does with the item its search found. -/
def takeItem (h : SmallMem) (self : Option (List UInt8)) (size ptr : Nat) :
    Except Fault (Nat × SmallMem) :=
  let mem := h.item ptr
  let h :=
    if Word32.sub (h.next mem) (ptr + sizeofStructMem) ≥ size + sizeofStructMem + minSize then
      (h.splitItem ptr size).addUsed (size + sizeofStructMem)
    else
      h.addUsed (Word32.sub (h.next mem) (mem - h.heapPtr))
  h.claimItem self size mem

/-- `rt_smem_alloc(m, size)`. -/
def rtSmemAlloc (h : SmallMem) (self : Option (List UInt8)) (size : Nat) :
    Except Fault (Option Nat × SmallMem) :=
  if size = 0 then return (none, h)
  else
    let size := rtAlign size
    if size > h.memSizeAligned then return (none, h)
    else do
      let size := if size < minSize then minSize else size
      match ← h.search size h.loopFuel (h.lfree - h.heapPtr) with
      | none => return (none, h)
      | some ptr =>
        let (p, h) ← h.takeItem self size ptr
        return (some p, h)

-- --------
-- Release
-- --------

/-- `if (mem < small_mem->lfree) small_mem->lfree = mem`. -/
def lowerLfree (h : SmallMem) (mem : Nat) : SmallMem :=
  if mem < h.lfree then { h with lfree := mem } else h

/-- `rt_smem_free(rmem)`; `none` is the null pointer. The check that the control block
behind the item's pool pointer is a memory object stands here as that it is this heap's. -/
def rtSmemFree (h : SmallMem) (rmem : Option Nat) : Except Fault SmallMem :=
  match rmem with
  | none => return h
  | some rmem => do
    rtAssert (rmem % rtAlignSize = 0)
    let mem := rmem - sizeofStructMem
    rtAssert (h.memPool mem = h.smallMem)
    rtAssert (h.memIsUsed mem = true)
    rtAssert (h.heapPtr ≤ rmem ∧ rmem < h.heapEnd)
    rtAssert (h.memPool (h.item (h.next mem)) = h.smallMem)
    let h := (h.mark mem false blankName).lowerLfree mem
    let h := { h with used := Word32.sub h.used (Word32.sub (h.next mem) (mem - h.heapPtr)) }
    h.plugHoles mem

-- --------
-- Resizing
-- --------

/-- The shrinking branch of `rt_smem_realloc`: the split is the one of `rt_smem_alloc`, header
for header, and the tail is then merged with a free successor. -/
def shrinkItem (h : SmallMem) (mem size newsize : Nat) : Except Fault SmallMem :=
  let ptr := mem - h.heapPtr
  let h := { h with used := Word32.sub h.used (Word32.sub size newsize) }
  let mem2 := h.item (ptr + sizeofStructMem + newsize)
  ((h.splitItem ptr newsize).lowerLfree mem2).plugHoles mem2

/-- The moving branch of `rt_smem_realloc`: a new block, a copy, and the old block freed. -/
def moveItem (h : SmallMem) (self : Option (List UInt8)) (rmem size newsize : Nat) :
    Except Fault (Option Nat × SmallMem) := do
  match ← h.rtSmemAlloc self newsize with
  | (none, h) => return (none, h)
  | (some nmem, h) =>
    let h := { h with mem := h.mem.memcpy nmem rmem (if size < newsize then size else newsize) }
    let h ← h.rtSmemFree (some rmem)
    return (some nmem, h)

/-- `rt_smem_realloc(m, rmem, newsize)`. -/
def rtSmemRealloc (h : SmallMem) (self : Option (List UInt8)) (rmem : Option Nat)
    (newsize : Nat) : Except Fault (Option Nat × SmallMem) :=
  let newsize := rtAlign newsize
  if newsize > h.memSizeAligned then return (none, h)
  else if newsize = 0 then do
    let h ← h.rtSmemFree rmem
    return (none, h)
  else
    match rmem with
    | none => h.rtSmemAlloc self newsize
    | some rmem => do
      rtAssert (rmem % rtAlignSize = 0)
      rtAssert (h.heapPtr ≤ rmem)
      rtAssert (rmem < h.heapEnd)
      let mem := rmem - sizeofStructMem
      let ptr := mem - h.heapPtr
      let size := Word32.sub (Word32.sub (h.next mem) ptr) sizeofStructMem
      if size = newsize then return (some rmem, h)
      else if newsize + sizeofStructMem + minSize < size then do
        let h ← h.shrinkItem mem size newsize
        return (some rmem, h)
      else h.moveItem self rmem size newsize

end SmallMem

end RTThread
