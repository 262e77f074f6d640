import RTThread.Kernel.Ffs
import RTThread.Lib.LevelQueue
import RTThread.Mem.MemPoolRun

/-!
# Priority queues (`prio_queue.c`)

An item is a block of a memory pool: a link, with the data behind it. There is a list of items
for each of 32 priorities, and a bitmap of the lists that have one. A thread that pushes gets its
block first, where it may have to wait, and fills it while interrupts are enabled: nobody else
knows the block. A thread that pops takes an item with interrupts disabled, and copies and frees
it behind that. The steps are the sections with interrupts disabled; what a thread does to a block
of its own is part of the section next to it.

The loop of `rt_prio_queue_pop` starts the timer with the whole time-out each time.
-/

namespace RTThread

/-- Where a thread is in a call. -/
inductive PqCall
  /-- `rt_mp_alloc` waits for a block. -/
  | allocating (prio : Nat) (data : List UInt8)
  /-- `rt_mp_alloc` has returned a block. -/
  | pushing (prio : Nat) (data : List UInt8) (item : Nat)
  /-- An item has been taken out of its list. -/
  | popping (item : Nat)

/-- `struct rt_prio_queue`, with the memory in its pool. -/
structure PrioQueue where
  bitmap : BitVec 32
  head : Nat → Nat
  tail : Nat → Nat
  /-- `suspended_pop_list`; a waiting call keeps its time-out. -/
  popList : Waits Unit Int
  itemSz : Nat
  pool : MemPool
  call : ThreadId → Option PqCall

/-- How a step ends. -/
inductive PqOutcome
  /-- `rt_prio_queue_push` returns `RT_EOK`. -/
  | pushed (prio : Nat) (data : List UInt8)
  /-- `rt_prio_queue_push` returns `-RT_ERROR`, or `-RT_ENOMEM`. -/
  | rejected
  | noMemory
  /-- `rt_prio_queue_pop` has an item of a list. -/
  | taken (prio : Nat) (data : List UInt8)
  /-- `rt_prio_queue_pop` returns `RT_EOK`. -/
  | popped (data : List UInt8)
  /-- `rt_prio_queue_pop` returns `-RT_ETIMEOUT`, or the error of the thread. -/
  | failed (e : RtErr)
  /-- The call goes on, or waits. -/
  | goesOn

namespace PrioQueue

open MemPool (null)

/-- `RT_PRIO_QUEUE_PRIO_MAX` -/
abbrev prioMax : Nat := 32

/-- `sizeof(struct rt_prio_queue_item)` -/
abbrev itemHeader : Nat := 4

/-- `rt_prio_queue_init` -/
def rtPrioQueueInit (mem : ByteMem) (pool buf bufsz itemsz : Nat) : Except Fault PrioQueue := do
  let pool ← MemPool.rtMpInit mem pool buf bufsz (Word32.add itemHeader itemsz)
  return {
    bitmap := 0
    head := fun _ => null
    tail := fun _ => null
    popList := .idle
    itemSz := itemsz
    pool := pool
    call := fun _ => none }

def setCall (s : PrioQueue) (t : ThreadId) (c : Option PqCall) : PrioQueue :=
  { s with call := Function.update s.call t c }

/-- `item->next = next` -/
def setNext (s : PrioQueue) (item next : Nat) : PrioQueue :=
  { s with pool := { s.pool with mem := s.pool.mem.store32 item next } }

/-- `rt_memcpy(item + 1, data, que->item_sz)` -/
def setData (s : PrioQueue) (item : Nat) (data : List UInt8) : PrioQueue :=
  { s with pool := { s.pool with mem := s.pool.mem.storeBytes (item + itemHeader) data } }

/-- What is at `item + 1`. -/
def data (s : PrioQueue) (item : Nat) : List UInt8 :=
  s.pool.mem.loadBytes (item + itemHeader) s.itemSz

/-- `_do_push` -/
def doPush (s : PrioQueue) (prio item : Nat) : Except Fault PrioQueue :=
  if s.head prio = null then
    return { s with
      head := Function.update s.head prio item
      bitmap := s.bitmap ||| BitSet.mask 32 prio
      tail := Function.update s.tail prio item }
  else do
    rtAssert (s.tail prio ≠ null)
    let s := s.setNext (s.tail prio) item
    return { s with tail := Function.update s.tail prio item }

/-- `_do_pop` -/
def doPop (s : PrioQueue) : Except Fault (Option Nat × PrioQueue) := do
  let ffs := rtFfs s.bitmap
  if ffs = 0 then return (none, s)
  let ffs := ffs - 1
  let item := s.head ffs
  rtAssert (item ≠ null)
  let next := s.pool.mem.load32 item
  return (some item, { s with
    head := Function.update s.head ffs next
    bitmap := if next = null then s.bitmap &&& ~~~BitSet.mask 32 ffs else s.bitmap })

/-- `rt_prio_queue_push` behind the check of the priority: `rt_mp_alloc` has returned, or waits. -/
def allocated (s : PrioQueue) (t : ThreadId) (prio : Nat) (data : List UInt8) :
    MpOutcome × MemPool → Except Fault (PqOutcome × PrioQueue)
  | (.block item, pool) =>
    return (.goesOn, { s with pool := pool }.setCall t (some (.pushing prio data item)))
  | (.null, pool) => return (.noMemory, { s with pool := pool }.setCall t none)
  | (.goesOn, pool) =>
    return (.goesOn, { s with pool := pool }.setCall t (some (.allocating prio data)))
  | (.assertFails, _) => throw .assertion
  | (.otherPool, _) => throw .badPointer

/-- `rt_prio_queue_push` behind `rt_mp_alloc`. -/
def link (s : PrioQueue) (t : ThreadId) (prio : Nat) (data : List UInt8) (item : Nat) :
    Except Fault (PqOutcome × PrioQueue) := do
  let s := (s.setData item data).setNext item null
  let s ← s.doPush prio item
  return (.pushed prio data, { s with popList := s.popList.resume () }.setCall t none)

/-- `rt_prio_queue_pop` of the thread `t` from the test of its loop on. -/
def rtPrioQueuePop (s : PrioQueue) (t : ThreadId) (timeout : Int) :
    Except Fault (PqOutcome × PrioQueue) := do
  match ← s.doPop with
  | (some item, s') =>
    return (.taken (rtFfs s.bitmap - 1) (s'.data item), s'.setCall t (some (.popping item)))
  | (none, s) =>
    if timeout = 0 then return (.failed .etimeout, s)
    else
      return (.goesOn, { s with
        popList := s.popList.suspend () (s.popList.queue () ++ [t]) t timeout timeout })

/-- `rt_prio_queue_pop` behind its `rt_schedule`. -/
def woken (s : PrioQueue) (t : ThreadId) (timeout : Int) : Except Fault (PqOutcome × PrioQueue) :=
  let x := s.popList.thread t
  let s := { s with popList := s.popList.leave t }
  if x.error ≠ .eok then return (.failed x.error, s)
  else s.rtPrioQueuePop t timeout

/-- `rt_prio_queue_pop` behind its loop. -/
def deliver (s : PrioQueue) (t : ThreadId) (item : Nat) : Except Fault (PqOutcome × PrioQueue) :=
  match s.pool.rtMpFree item with
  | (.otherPool, _) => throw .badPointer
  | (_, pool) => return (.popped (s.data item), { s with pool := pool }.setCall t none)

end PrioQueue

/-- What happens to a priority queue. -/
inductive PqAct
  | push (t : ThreadId) (prio : Nat) (data : List UInt8) (timeout : Int)
  /-- `rt_schedule` returns to `rt_mp_alloc`. -/
  | allocWoken (t : ThreadId) (elapsed : Int)
  | link (t : ThreadId)
  | pop (t : ThreadId) (timeout : Int)
  /-- `rt_schedule` returns to `rt_prio_queue_pop`. -/
  | popWoken (t : ThreadId)
  | deliver (t : ThreadId)
  /-- The timer of a thread that waits for a block, or for an item. -/
  | allocTimeout (t : ThreadId)
  | popTimeout (t : ThreadId)

namespace PrioQueue

/-- The thread is in no call of the queue. -/
def Outside (s : PrioQueue) (t : ThreadId) : Prop :=
  (s.call t).isNone ∧ (s.popList.thread t).call = none

instance (s : PrioQueue) (t : ThreadId) : Decidable (s.Outside t) :=
  inferInstanceAs (Decidable (_ ∧ _))

/-- What a step makes of a queue. The data of a push has the size of an item. -/
def step (s : PrioQueue) : PqAct → Option (Except Fault (PqOutcome × PrioQueue))
  | .push t prio data timeout =>
    if s.Outside t ∧ data.length = s.itemSz then
      if prioMax ≤ prio then some (.ok (.rejected, s))
      else (s.pool.step (.alloc t timeout)).map (s.allocated t prio data)
    else none
  | .allocWoken t elapsed =>
    match s.call t with
    | some (.allocating prio data) =>
      (s.pool.step (.woken t elapsed)).map (s.allocated t prio data)
    | _ => none
  | .link t =>
    match s.call t with
    | some (.pushing prio data item) => some (s.link t prio data item)
    | _ => none
  | .pop t timeout => Runs.takeIf (s.Outside t) (s.rtPrioQueuePop t timeout)
  | .popWoken t =>
    (s.popList.thread t).call.bind fun timeout =>
      Runs.takeIf (Queues.Free s.popList.queue t) (s.woken t timeout)
  | .deliver t =>
    match s.call t with
    | some (.popping item) => some (s.deliver t item)
    | _ => none
  | .allocTimeout t =>
    (s.pool.step (.timeout t)).map fun r => .ok (.goesOn, { s with pool := r.2 })
  | .popTimeout t =>
    Runs.takeIf (t ∈ s.popList.queue () ∧ (s.popList.thread t).timer = true)
      (.ok (.goesOn, { s with popList := s.popList.timeout t }))

end PrioQueue

/-- The thread that takes a step. -/
def PqAct.thread : PqAct → ThreadId
  | .push t _ _ _ => t
  | .allocWoken t _ => t
  | .link t => t
  | .pop t _ => t
  | .popWoken t => t
  | .deliver t => t
  | .allocTimeout t => t
  | .popTimeout t => t

/-- What a step does to the queue as its users see it. -/
def PqOutcome.events (t : ThreadId) : PqOutcome → List (LevelQueue.Event Nat ThreadId (List UInt8))
  | .pushed prio data => [.put prio data]
  | .taken prio data => [.take t prio data]
  | .popped data => [.give t data]
  | _ => []

namespace PrioQueue

/-- The steps that end, with what they do. -/
def exec (s : PrioQueue) (a : PqAct) :
    Option (PrioQueue × List (LevelQueue.Event Nat ThreadId (List UInt8))) :=
  (s.step a).bind fun r => r.toOption.map fun r => (r.2, r.1.events a.thread)

end PrioQueue

end RTThread
