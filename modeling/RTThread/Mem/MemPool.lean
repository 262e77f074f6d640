import RTThread.Kernel.Waits
import RTThread.Lib.ByteMem
import RTThread.Lib.LinkedList
import RTThread.Lib.Runs
import RTThread.Lib.Slots

/-!
# Memory pools (`mempool.c`)

A memory pool is cut into blocks of one size, each behind a word: the link of the free list while
the block is free, the address of the pool while it is allocated. `rt_mp_init` links all blocks
and then ends the list at the last one, which it finds by the counter of its loop: with no block
in the pool that is the block in front of the first one.

A call that finds no free block suspends its thread, and looks again when it goes on; the list of
the suspended threads is a stack. The steps are the sections with interrupts disabled.

Two records are not kept by the code: `written`, the addresses of the words that the functions of
the pool have stored, and `allocated`, the blocks that have been handed out and not been freed.
-/

namespace RTThread

/-- `struct rt_mempool`, with the memory and its own address. -/
structure MemPool where
  mem : ByteMem
  self : Nat
  startAddress : Nat
  size : Nat
  blockSize : Nat
  blockList : Nat
  blockTotalCount : Nat
  blockFreeCount : Nat
  /-- `suspend_thread`; a waiting call keeps its time. -/
  waits : Waits Unit Int
  written : List Nat
  allocated : List Nat

/-- How a step ends. -/
inductive MpOutcome
  /-- `rt_mp_alloc` returns a block. -/
  | block (address : Nat)
  /-- `rt_mp_alloc` returns `RT_NULL`. -/
  | null
  /-- `RT_ASSERT(block_ptr != RT_NULL)` -/
  | assertFails
  /-- The word in front of a block that is freed is not the address of the pool. -/
  | otherPool
  /-- The call returns, or waits. -/
  | goesOn

namespace MemPool

/-- `RT_NULL` -/
abbrev null : Nat := 0

/-- `sizeof(rt_uint8_t *)` -/
abbrev header : Nat := 4

/-- `block_ptr + offset * (block_size + sizeof(rt_uint8_t *))` -/
def blockPtr (s : MemPool) (offset : Nat) : Nat :=
  Word32.add s.startAddress (Word32.mul offset (Word32.add s.blockSize header))

/-- `*(rt_uint8_t **)a = v` -/
def store (s : MemPool) (a v : Nat) : MemPool :=
  { s with mem := s.mem.store32 a v, written := a :: s.written }

/-- The first passes of the loop of `rt_mp_init`. -/
def linkLoop (s : MemPool) : Nat → MemPool
  | 0 => s
  | offset + 1 => (s.linkLoop offset).store (s.blockPtr offset) (s.blockPtr (offset + 1))

/-- `rt_mp_init`. A division by zero never returns from `__div0`. -/
def rtMpInit (mem : ByteMem) (self start size blockSize : Nat) : Except Fault MemPool := do
  rtAssert (start ≠ null)
  rtAssert (size > 0 ∧ blockSize > 0)
  -- align the block size
  let blockSize := rtAlign blockSize
  if Word32.add blockSize header = 0 then throw .divergence
  -- align to align size byte
  let total := rtAlignDown size / Word32.add blockSize header
  let s : MemPool :=
    { mem := mem
      self := self
      startAddress := start
      size := rtAlignDown size
      blockSize := blockSize
      blockList := start
      blockTotalCount := total
      blockFreeCount := total
      waits := .idle
      written := []
      allocated := [] }
  -- initialize free block list
  let s := s.linkLoop total
  return s.store (s.blockPtr (Word32.sub total 1)) null

/-- `rt_mp_alloc` behind its loop. -/
def take (s : MemPool) : MpOutcome × MemPool :=
  -- decrease the free block counter
  let s := { s with blockFreeCount := Word32.sub s.blockFreeCount 1 }
  -- get block from block list
  let ptr := s.blockList
  if ptr = null then (.assertFails, s)
  else
    -- setup the next free node
    let s := { s with blockList := s.mem.load32 ptr }
    -- point to memory pool
    (.block (ptr + header), { s.store ptr s.self with allocated := ptr :: s.allocated })

/-- `rt_mp_alloc` of the thread `t` from the test of its loop on. -/
def rtMpAlloc (s : MemPool) (t : ThreadId) (time : Int) : MpOutcome × MemPool :=
  if s.blockFreeCount = 0 then
    -- memory block is unavailable
    if time = 0 then (.null, s)
    else
      (.goesOn, { s with waits := s.waits.suspend () (t :: s.waits.queue ()) t time time })
  else s.take

/-- `rt_mp_alloc` behind its `rt_schedule`, `elapsed` ticks after the thread was suspended. -/
def woken (s : MemPool) (t : ThreadId) (time elapsed : Int) : MpOutcome × MemPool :=
  let x := s.waits.thread t
  let s := { s with waits := s.waits.leave t }
  if x.error ≠ .eok then (.null, s)
  else s.rtMpAlloc t (timeoutLeft time elapsed)

/-- `rt_mp_free` -/
def rtMpFree (s : MemPool) (block : Nat) : MpOutcome × MemPool :=
  if block = null then (.goesOn, s)
  else
    -- get the control block of pool which the block belongs to
    let ptr := Word32.sub block header
    if s.mem.load32 ptr ≠ s.self then (.otherPool, s)
    else
      -- increase the free block count
      let s := { s with blockFreeCount := Word32.add s.blockFreeCount 1 }
      -- link the block into the block list
      let s := s.store ptr s.blockList
      (.goesOn, { s with
        blockList := ptr
        allocated := s.allocated.erase ptr
        waits := s.waits.resume () })

end MemPool

/-- What happens to a memory pool. -/
inductive MpAct
  | alloc (t : ThreadId) (time : Int)
  /-- `rt_schedule` returns to `rt_mp_alloc`. -/
  | woken (t : ThreadId) (elapsed : Int)
  | free (block : Nat)
  | timeout (t : ThreadId)
  /-- A byte is written, by whomever, but not in front of a block. -/
  | write (a : Nat) (c : UInt8)

namespace MemPool

/-- The outcome of an action, and the state it leads to. What is freed has been allocated. -/
def step (s : MemPool) : MpAct → Option (MpOutcome × MemPool)
  | .alloc t time =>
    Runs.takeIf ((s.waits.thread t).call = none ∨ time = 0) (s.rtMpAlloc t time)
  | .woken t elapsed =>
    (s.waits.thread t).call.bind fun time =>
      Runs.takeIf (Queues.Free s.waits.queue t) (s.woken t time elapsed)
  | .free block =>
    Runs.takeIf (block < 2 ^ 32 ∧ Word32.sub block header ∈ s.allocated) (s.rtMpFree block)
  | .timeout t =>
    Runs.takeIf (t ∈ s.waits.queue () ∧ (s.waits.thread t).timer = true)
      (.goesOn, { s with waits := s.waits.timeout t })
  | .write a c =>
    Runs.takeIf (∀ k < s.blockTotalCount, a < s.blockPtr k ∨ s.blockPtr k + header ≤ a)
      (.goesOn, { s with mem := Function.update s.mem a c })

def exec (s : MemPool) (a : MpAct) : Option MemPool := (s.step a).map Prod.snd

end MemPool

end RTThread
