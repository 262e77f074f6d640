import RTThread.Rtdef
import Mathlib.Data.List.Basic

/-!
# The ring block buffer (`components/drivers/ipc/ringblk_buf.c`)

A buffer is handed out in blocks. The block descriptors live in an array given
at initialisation; they are linked, by their index here, in `blk_list` in the
order of allocation or in `free_list`. `tail` points at the last node of
`blk_list`, or at its head (`none`). Addresses and sizes are 32-bit words.
-/

namespace RTThread

/-- `enum rt_rbb_status`. -/
inductive RbbStatus
  | unused
  | inited
  | put
  | get
deriving DecidableEq

/-- `struct rt_rbb_blk`, without its list node. -/
structure RbbBlk where
  status : RbbStatus
  size : Nat
  buf : Nat

/-- `struct rt_rbb_blk_queue`. -/
structure RbbBlkQueue where
  blocks : Nat
  blkNum : Nat
deriving DecidableEq

/-- `struct rt_rbb`. -/
structure Rbb where
  buf : Nat
  bufSize : Nat
  blkSet : Nat → RbbBlk
  blkMaxNum : Nat
  blkList : List Nat
  tail : Option Nat
  freeList : List Nat

namespace Rbb

/-- Write a descriptor. -/
def setBlk (rbb : Rbb) (b : Nat) (blk : RbbBlk) : Rbb :=
  { rbb with blkSet := fun i => if i = b then blk else rbb.blkSet i }

def setStatus (rbb : Rbb) (b : Nat) (status : RbbStatus) : Rbb :=
  rbb.setBlk b { rbb.blkSet b with status := status }

/-- `rt_rbb_init(rbb, buf, buf_size, block_set, blk_max_num)`: every descriptor is put in front
of the free list. -/
def rtRbbInit (buf bufSize : Nat) (blockSet : Nat → RbbBlk) (blkMaxNum : Nat) :
    Except Fault Rbb := do
  rtAssert (buf ≠ 0)
  let rbb : Rbb :=
    { buf, bufSize, blkSet := blockSet, blkMaxNum, blkList := [], tail := none, freeList := [] }
  return (List.range blkMaxNum).foldl
    (fun rbb i => { rbb.setStatus i .unused with freeList := i :: rbb.freeList }) rbb

def findEmptyBlkInSet (rbb : Rbb) : Except Fault (Option Nat × Rbb) :=
  match rbb.freeList with
  | [] => return (none, rbb)
  | blk :: rest => do
    rtAssert ((rbb.blkSet blk).status = .unused)
    return (some blk, { rbb with freeList := rest })

/-- The nodes from the list's head up to the tail node. -/
def upTo (l : List Nat) : Option Nat → List Nat
  | none => []
  | some t => l.takeWhile (· ≠ t) ++ [t]

/-- `list_append(rbb, n)`: `tail->next = n`, which ends the list behind the tail. -/
def listAppend (rbb : Rbb) (n : Nat) : Rbb :=
  { rbb with blkList := upTo rbb.blkList rbb.tail ++ [n], tail := some n }

/-- `list_remove(rbb, n)`: the node in front of `n`, the list's head if there is none, takes
over its successor and the tail. -/
def listRemove (rbb : Rbb) (n : Nat) : Rbb :=
  if n ∈ rbb.blkList then
    { rbb with
      blkList := rbb.blkList.erase n
      tail := if rbb.tail = some n then (rbb.blkList.takeWhile (· ≠ n)).getLast? else rbb.tail }
  else rbb

/-- The four statements with which every successful branch of `rt_rbb_blk_alloc` ends. -/
def addBlk (rbb : Rbb) (n buf size : Nat) : Rbb :=
  (rbb.listAppend n).setBlk n { status := .inited, size := size, buf := buf }

/-- `tail->buf + tail->size`. -/
def endOf (rbb : Rbb) (b : Nat) : Nat := Word32.add (rbb.blkSet b).buf (rbb.blkSet b).size

/-- Where the next block of `blk_size` bytes goes, `none` for no space. -/
def place (rbb : Rbb) (blkSize : Nat) : Option Nat :=
  match rbb.blkList.head?, rbb.tail with
  | some head, some tail =>
    if (rbb.blkSet head).buf ≤ (rbb.blkSet tail).buf then
      let empty1 := Word32.sub (Word32.add rbb.buf rbb.bufSize) (rbb.endOf tail)
      let empty2 := Word32.sub (rbb.blkSet head).buf rbb.buf
      if empty1 ≥ blkSize then some (rbb.endOf tail)
      else if empty2 ≥ blkSize then some rbb.buf
      else none
    else
      let empty1 := Word32.sub (rbb.blkSet head).buf (rbb.endOf tail)
      if empty1 ≥ blkSize then some (rbb.endOf tail) else none
  | _, _ => some rbb.buf

/-- `rt_rbb_blk_alloc(rbb, blk_size)`. -/
def rtRbbBlkAlloc (rbb : Rbb) (blkSize : Nat) : Except Fault (Option Nat × Rbb) := do
  rtAssert (blkSize < 2 ^ 24)
  match ← rbb.findEmptyBlkInSet with
  | (none, rbb) => return (none, rbb)
  | (some newRbb, rbb) =>
    match rbb.place blkSize with
    | some buf => return (some newRbb, rbb.addBlk newRbb buf blkSize)
    | none => return (none, rbb)

/-- `rt_rbb_blk_put(block)`. -/
def rtRbbBlkPut (rbb : Rbb) (block : Nat) : Except Fault Rbb := do
  rtAssert ((rbb.blkSet block).status = .inited)
  return rbb.setStatus block .put

/-- `rt_rbb_blk_get(rbb)`. -/
def rtRbbBlkGet (rbb : Rbb) : Option Nat × Rbb :=
  match rbb.blkList.find? fun b => (rbb.blkSet b).status = .put with
  | some block => (some block, rbb.setStatus block .get)
  | none => (none, rbb)

/-- `rt_rbb_blk_free(rbb, block)`. -/
def rtRbbBlkFree (rbb : Rbb) (block : Nat) : Except Fault Rbb := do
  rtAssert ((rbb.blkSet block).status ≠ .unused)
  let rbb := (rbb.listRemove block).setStatus block .unused
  return { rbb with freeList := block :: rbb.freeList }

/-- The conditions that end the loop of `rt_rbb_blk_queue_get` at `block`. -/
def queueStops (rbb : Rbb) (queueDataLen dataTotalSize last block : Nat) : Prop :=
  (rbb.blkSet block).status ≠ .put ∨ (rbb.blkSet last).buf > (rbb.blkSet block).buf ∨
    Word32.add dataTotalSize (rbb.blkSet block).size > queueDataLen

instance (rbb : Rbb) (queueDataLen dataTotalSize last block : Nat) :
    Decidable (rbb.queueStops queueDataLen dataTotalSize last block) := by
  unfold queueStops
  infer_instance

/-- What `rt_rbb_blk_queue_get` leaves behind: its result, the queue it filled in, if it did,
and whether it read the successor of the null node. -/
structure QueueGet where
  rbb : Rbb
  dataTotalSize : Nat
  queue : Option RbbBlkQueue
  nullNext : Bool

/-- The loop of `rt_rbb_blk_queue_get` once the first block is taken: `last` is the last block
of the queue. Whatever ends the list also reads behind it, as the loop advances both of its
cursors before it tests the first. -/
def queueRest (queueDataLen : Nat) (rbb : Rbb) (dataTotalSize last : Nat) (queue : RbbBlkQueue) :
    List Nat → QueueGet
  | [] => ⟨rbb, dataTotalSize, some queue, true⟩
  | block :: nodes =>
    if rbb.queueStops queueDataLen dataTotalSize last block then
      ⟨rbb, dataTotalSize, some queue, false⟩
    else
      queueRest queueDataLen (rbb.setStatus block .get)
        (Word32.add dataTotalSize (rbb.blkSet block).size) block
        { queue with blkNum := queue.blkNum + 1 } nodes

/-- The loop up to the first block in put status. -/
def queueFirst (queueDataLen : Nat) (rbb : Rbb) : List Nat → QueueGet
  | [] => ⟨rbb, 0, none, true⟩
  | block :: nodes =>
    if (rbb.blkSet block).status = .put then
      queueRest queueDataLen (rbb.setStatus block .get) (Word32.add 0 (rbb.blkSet block).size)
        block ⟨block, 1⟩ nodes
    else queueFirst queueDataLen rbb nodes

/-- `rt_rbb_blk_queue_get(rbb, queue_data_len, blk_queue)`. -/
def rtRbbBlkQueueGet (rbb : Rbb) (queueDataLen : Nat) : QueueGet :=
  if rbb.blkList = [] then ⟨rbb, 0, none, false⟩
  else queueFirst queueDataLen rbb rbb.blkList

/-- `blk->list.next` of a block in `blk_list`. -/
def nextOf (rbb : Rbb) (blk : Nat) : Option Nat :=
  (rbb.blkList.dropWhile (· ≠ blk)).tail.head?

/-- The loop of `rt_rbb_blk_queue_free`; the successor is read before the block is freed. -/
def queueFreeLoop : Nat → Rbb → Option Nat → Except Fault Rbb
  | 0, rbb, _ => return rbb
  | _ + 1, _, none => .error .badPointer
  | n + 1, rbb, some blk => do
    let rbb' ← rbb.rtRbbBlkFree blk
    queueFreeLoop n rbb' (rbb.nextOf blk)

/-- `rt_rbb_blk_queue_free(rbb, blk_queue)`. -/
def rtRbbBlkQueueFree (rbb : Rbb) (queue : RbbBlkQueue) : Except Fault Rbb :=
  queueFreeLoop queue.blkNum rbb (some queue.blocks)

/-- The blocks of a queue: `blk_num` nodes of `blk_list` from the first one on. -/
def queueBlocks (rbb : Rbb) (queue : RbbBlkQueue) : List Nat :=
  (rbb.blkList.dropWhile (· ≠ queue.blocks)).take queue.blkNum

-- --------
-- Runs
-- --------

/-- A call on a ring block buffer. -/
inductive Action
  | alloc (blkSize : Nat)
  | put (block : Nat)
  | get
  | queueGet (queueDataLen : Nat)
  | free (block : Nat)
  | queueFree (queue : RbbBlkQueue)

/-- What a call does to the buffer; blocks are descriptors of the set, and a call that violates
an assertion does not return. -/
def exec (rbb : Rbb) : Action → Except Fault Rbb
  | .alloc blkSize => do
    let (_, rbb) ← rbb.rtRbbBlkAlloc blkSize
    return rbb
  | .put block => rbb.rtRbbBlkPut block
  | .get => return rbb.rtRbbBlkGet.2
  | .queueGet queueDataLen => return (rbb.rtRbbBlkQueueGet queueDataLen).rbb
  | .free block => rbb.rtRbbBlkFree block
  | .queueFree queue => rbb.rtRbbBlkQueueFree queue

/-- The descriptors a call is given belong to the set. -/
def Action.InSet (n : Nat) : Action → Prop
  | .put block => block < n
  | .free block => block < n
  | .queueFree queue => queue.blocks < n
  | _ => True

def Step (rbb : Rbb) (a : Action) (rbb' : Rbb) : Prop :=
  a.InSet rbb.blkMaxNum ∧ rbb.exec a = .ok rbb'

end Rbb

end RTThread
