import RTThread.Kernel.Waits
import RTThread.Lib.ByteMem
import RTThread.Lib.Deque
import RTThread.Lib.LinkedList

/-!
# Message queues (`ipc.c`)

The pool of a message queue is cut into buffers, each a link and room for one message. The
buffers are in one list while they are free and in another one while they hold a message. A
sender takes a free buffer, copies its message, and links it in; a receiver unlinks the first
message, copies it, and frees the buffer. The links change with interrupts disabled, the copies
are made with interrupts enabled: between the two sections of a call its buffer is in no list,
and everything else may happen to the queue, a reset included.

The steps here are the sections with interrupts disabled, and every byte of a copy is a step of
its own. Interrupt handlers that send are callers of their own that do not wait. `sent` is a
record that the code does not keep: the bytes the last sender of a buffer has copied into it.
-/

namespace RTThread

/-- The lists of a message queue: `parent.suspend_thread` and `suspend_sender_thread`. -/
inductive MqList
  | recv
  | send
deriving DecidableEq

instance : Fintype MqList := ⟨{.recv, .send}, fun q => by cases q <;> decide⟩

/-- Where a call is. -/
inductive MqCall
  /-- `rt_mq_send_wait` of a message of this size waits for a buffer. -/
  | send (size : Nat) (timeout : Int)
  /-- A sender copies its message into the buffer `msg`. It has copied the bytes `done`. -/
  | filling (msg size : Nat) (done : List UInt8) (urgent : Bool)
  /-- `rt_mq_recv` waits for a message. -/
  | recv (size : Nat) (timeout : Int)
  /-- A receiver copies `len` bytes out of the buffer `msg`. It has copied the bytes `got`; for
  the record, `bytes` is the message. -/
  | draining (msg len : Nat) (bytes got : List UInt8)

/-- The buffer that is in the hands of a call. -/
def MqCall.holds : MqCall → Option Nat
  | .filling msg .. | .draining msg .. => some msg
  | .send .. | .recv .. => none

/-- `sizeof(struct rt_mq_message)` -/
abbrev MqPool.header : Nat := 4

/-- The pool of a message queue: `maxMsgs` buffers for messages of `msgSize` bytes. -/
structure MqPool where
  msgPool : Nat
  msgSize : Nat
  maxMsgs : Nat
  pos : 0 < msgPool
  fits : msgPool + maxMsgs * (msgSize + MqPool.header) ≤ 2 ^ 32
  max_lt : maxMsgs < 2 ^ 16

/-- The buffer number `k`. -/
def MqPool.slot (pool : MqPool) (k : Nat) : Nat :=
  pool.msgPool + k * (pool.msgSize + MqPool.header)

/-- `struct rt_messagequeue`, with the memory of its pool. -/
structure MessageQueue where
  mem : ByteMem
  pool : MqPool
  entry : Nat
  msgQueueHead : Nat
  msgQueueTail : Nat
  msgQueueFree : Nat
  flag : IpcFlag
  waits : Waits MqList MqCall
  sent : Nat → List UInt8

/-- How a section of a call ends. -/
inductive MqOutcome
  /-- A message is linked in, behind the others or in front of them. -/
  | linked (bytes : List UInt8) (urgent : Bool)
  /-- The first message is unlinked. -/
  | unlinked (bytes : List UInt8)
  /-- `rt_mq_recv` returns with these bytes in the caller's buffer. -/
  | received (got : List UInt8)
  /-- The call returns this error. -/
  | failed (e : RtErr)
  | reset
  /-- The call goes on, or waits. -/
  | goesOn

namespace MessageQueue

/-- `RT_NULL` -/
abbrev null : Nat := 0

/-- The field `next` of a message. -/
def next (s : MessageQueue) (msg : Nat) : Nat := s.mem.load32 msg

/-- The loop of `rt_mq_init` that puts the buffers from the number `temp` on into the free list. -/
def freeLoop (pool : MqPool) (temp : Nat) : Nat → ByteMem × Nat → ByteMem × Nat
  | 0, r => r
  | n + 1, (mem, free) =>
    let head := pool.slot temp
    freeLoop pool (temp + 1) n (mem.store32 head free, head)

/-- What `rt_mq_init` and `rt_mq_create` share: the lists of the queue. -/
def initLists (mem : ByteMem) (pool : MqPool) (flag : IpcFlag) : MessageQueue :=
  let r := freeLoop pool 0 pool.maxMsgs (mem, null)
  { mem := r.1
    pool := pool
    entry := 0
    msgQueueHead := null
    msgQueueTail := null
    msgQueueFree := r.2
    flag := flag
    waits := .idle
    sent := fun _ => [] }

/-- `rt_mq_init` on a block of `poolSize` bytes. -/
def rtMqInit (mem : ByteMem) (msgPool msgSize poolSize : Nat) (flag : IpcFlag)
    (hpos : 0 < msgPool) (hfits : msgPool + poolSize ≤ 2 ^ 32) : MessageQueue :=
  -- get correct message size
  let msgSize := u16 (rtAlign msgSize)
  initLists mem
    { msgPool := msgPool
      msgSize := msgSize
      maxMsgs := u16 (poolSize / (msgSize + MqPool.header))
      pos := hpos
      fits := by
        have hmod : u16 (poolSize / (msgSize + MqPool.header)) ≤
            poolSize / (msgSize + MqPool.header) := Nat.mod_le _ _
        have hmul := Nat.mul_le_of_le_div _ _ _ hmod
        omega
      max_lt := u16_lt _ } flag

/-- `rt_mq_create` with the block that it gets from the heap. -/
def rtMqCreate (mem : ByteMem) (msgPool msgSize maxMsgs : Nat) (flag : IpcFlag)
    (hpos : 0 < msgPool)
    (hfits : msgPool + u16 maxMsgs * (u16 (rtAlign msgSize) + MqPool.header) ≤ 2 ^ 32) :
    MessageQueue :=
  initLists mem
    { msgPool := msgPool
      msgSize := u16 (rtAlign msgSize)
      maxMsgs := u16 maxMsgs
      pos := hpos
      fits := hfits
      max_lt := u16_lt _ } flag

/-- The call of a thread, or of an interrupt handler, changes. -/
def setCall (s : MessageQueue) (t : ThreadId) (call : Option MqCall) : MessageQueue :=
  { s with waits := s.waits.setThread t { s.waits.thread t with call := call } }

-- Sending

/-- A sender takes the first free buffer. `rt_mq_send_wait` clears the link of the buffer behind
this section; nobody else looks at the buffer until then. -/
def grab (s : MessageQueue) (t : ThreadId) (size : Nat) (urgent : Bool) : MessageQueue :=
  let msg := s.msgQueueFree
  -- move free list pointer
  let s := { s with msgQueueFree := s.next msg }
  -- the msg is the new tailer of list, the next shall be NULL
  let s := if urgent then s else { s with mem := s.mem.store32 msg null }
  s.setCall t (some (.filling msg size [] urgent))

/-- `rt_mq_send_wait` of the caller `t` from the test of its loop on. -/
def sendLoop (s : MessageQueue) (priority : ThreadId → Nat) (t : ThreadId) (size : Nat)
    (timeout : Int) : MqOutcome × MessageQueue :=
  if s.msgQueueFree = null then
    -- no waiting, return timeout
    if timeout = 0 then (.failed .efull, { s with waits := s.waits.setError t .eok })
    else
      (.goesOn, { s with
        waits := s.waits.suspend .send (ipcInsert priority s.flag t (s.waits.queue .send)) t
          (.send size timeout) timeout })
  else (.goesOn, s.grab t size false)

/-- `rt_mq_send_wait` up to its copy. -/
def rtMqSendWait (s : MessageQueue) (priority : ThreadId → Nat) (t : ThreadId) (size : Nat)
    (timeout : Int) : MqOutcome × MessageQueue :=
  -- greater than one message size
  if s.pool.msgSize < size then (.failed .error, s)
  -- for non-blocking call
  else if s.msgQueueFree = null ∧ timeout = 0 then (.failed .efull, s)
  else s.sendLoop priority t size timeout

/-- `rt_mq_urgent` up to its copy. -/
def rtMqUrgent (s : MessageQueue) (t : ThreadId) (size : Nat) : MqOutcome × MessageQueue :=
  if s.pool.msgSize < size then (.failed .error, s)
  -- message queue is full
  else if s.msgQueueFree = null then (.failed .efull, s)
  else (.goesOn, s.grab t size true)

/-- A byte of `rt_memcpy(msg + 1, buffer, size)`. -/
def copyIn (s : MessageQueue) (t : ThreadId) (msg size : Nat) (done : List UInt8) (urgent : Bool)
    (byte : UInt8) : MessageQueue :=
  { s with mem := Function.update s.mem (msg + MqPool.header + done.length) byte }.setCall t
    (some (.filling msg size (done ++ [byte]) urgent))

/-- `RT_MQ_ENTRY_MAX` -/
abbrev entryMax : Nat := 0xffff

/-- `rt_mq_send_wait` links its message to the queue. -/
def linkBack (s : MessageQueue) (msg : Nat) : MessageQueue :=
  { s with
    -- if the tail exists
    mem := if s.msgQueueTail ≠ null then s.mem.store32 s.msgQueueTail msg else s.mem
    -- set new tail
    msgQueueTail := msg
    -- if the head is empty, set head
    msgQueueHead := if s.msgQueueHead = null then msg else s.msgQueueHead }

/-- `rt_mq_urgent` links its message to the beginning of the queue. -/
def linkFront (s : MessageQueue) (msg : Nat) : MessageQueue :=
  { s with
    mem := s.mem.store32 msg s.msgQueueHead
    msgQueueHead := msg
    -- if there is no tail
    msgQueueTail := if s.msgQueueTail = null then msg else s.msgQueueTail }

/-- A sender behind its copy. -/
def link (s : MessageQueue) (t : ThreadId) (msg : Nat) (done : List UInt8) (urgent : Bool) :
    MqOutcome × MessageQueue :=
  let s := if urgent then s.linkFront msg else s.linkBack msg
  if s.entry < entryMax then
    -- increase message entry, resume suspended thread
    let s := { s with entry := s.entry + 1, sent := Function.update s.sent msg done }.setCall t none
    (.linked done urgent, { s with waits := s.waits.resume .recv })
  else
    -- value overflowed
    (.failed .efull, s.setCall t none)

-- Receiving

/-- A receiver takes the first message. -/
def unlink (s : MessageQueue) (t : ThreadId) (size : Nat) : MqOutcome × MessageQueue :=
  let msg := s.msgQueueHead
  let len := if s.pool.msgSize < size then s.pool.msgSize else size
  (.unlinked (s.sent msg), { s with
      -- move message queue head
      msgQueueHead := s.next msg
      -- reach queue tail, set to NULL
      msgQueueTail := if s.msgQueueTail = msg then null else s.msgQueueTail
      -- decrease message entry
      entry := if 0 < s.entry then s.entry - 1 else s.entry }.setCall t
    (some (.draining msg len (s.sent msg) [])))

/-- `rt_mq_recv` of the caller `t` from the test of its loop on. -/
def recvLoop (s : MessageQueue) (priority : ThreadId → Nat) (t : ThreadId) (size : Nat)
    (timeout : Int) : MqOutcome × MessageQueue :=
  if s.entry = 0 then
    -- no waiting, return timeout
    if timeout = 0 then (.failed .etimeout, { s with waits := s.waits.setError t .etimeout })
    else
      (.goesOn, { s with
        waits := s.waits.suspend .recv (ipcInsert priority s.flag t (s.waits.queue .recv)) t
          (.recv size timeout) timeout })
  else s.unlink t size

/-- `rt_mq_recv` up to its copy. -/
def rtMqRecv (s : MessageQueue) (priority : ThreadId → Nat) (t : ThreadId) (size : Nat)
    (timeout : Int) : MqOutcome × MessageQueue :=
  -- for non-blocking call
  if s.entry = 0 ∧ timeout = 0 then (.failed .etimeout, s)
  else s.recvLoop priority t size timeout

/-- A byte of `rt_memcpy(buffer, msg + 1, len)`. -/
def copyOut (s : MessageQueue) (t : ThreadId) (msg len : Nat) (bytes got : List UInt8) :
    MessageQueue :=
  s.setCall t (some (.draining msg len bytes (got ++ [s.mem (msg + MqPool.header + got.length)])))

/-- `rt_mq_recv` and the reset put a message to the free list. -/
def putFree (s : MessageQueue) (msg : Nat) : MessageQueue :=
  { s with mem := s.mem.store32 msg s.msgQueueFree, msgQueueFree := msg }

/-- A receiver behind its copy. -/
def release (s : MessageQueue) (t : ThreadId) (msg : Nat) (got : List UInt8) :
    MqOutcome × MessageQueue :=
  let s := (s.putFree msg).setCall t none
  -- resume suspended thread
  (.received got, { s with waits := s.waits.resume .send })

-- Waking and resetting

/-- A call behind its `rt_schedule`, `elapsed` ticks after it was suspended. -/
def woken (s : MessageQueue) (priority : ThreadId → Nat) (t : ThreadId) (call : MqCall)
    (elapsed : Int) : MqOutcome × MessageQueue :=
  let x := s.waits.thread t
  let s := { s with waits := s.waits.leave t }
  -- return error
  if x.error ≠ .eok then (.failed x.error, s)
  else
    match call with
    | .send size timeout => s.sendLoop priority t size (timeoutLeft timeout elapsed)
    | .recv size timeout => s.recvLoop priority t size (timeoutLeft timeout elapsed)
    | .filling .. | .draining .. => (.goesOn, s)

/-- The loop of the reset: it releases all messages in the queue, `n` at most. -/
def resetLoop : Nat → MessageQueue → MessageQueue
  | 0, s => s
  | n + 1, s =>
    if s.msgQueueHead = null then s
    else
      let msg := s.msgQueueHead
      resetLoop n ({ s with
        -- move message queue head
        msgQueueHead := s.next msg
        -- reach queue tail, set to NULL
        msgQueueTail := if s.msgQueueTail = msg then null else s.msgQueueTail }.putFree msg)

/-- `rt_mq_control(mq, RT_IPC_CMD_RESET, arg)`. -/
def rtMqReset (s : MessageQueue) : MqOutcome × MessageQueue :=
  let s := { s with waits := (s.waits.resumeAll .recv).resumeAll .send }
  (.reset, { s.resetLoop s.pool.maxMsgs with entry := 0 })

end MessageQueue

/-- What happens to a message queue. -/
inductive MqAct
  | sendWait (priority : ThreadId → Nat) (t : ThreadId) (size : Nat) (timeout : Int)
  | urgent (t : ThreadId) (size : Nat)
  /-- A sender copies its next byte. -/
  | copyIn (t : ThreadId) (byte : UInt8)
  | link (t : ThreadId)
  | recv (priority : ThreadId → Nat) (t : ThreadId) (size : Nat) (timeout : Int)
  /-- A receiver copies its next byte. -/
  | copyOut (t : ThreadId)
  | release (t : ThreadId)
  /-- `rt_schedule` returns to the call of a thread. -/
  | woken (priority : ThreadId → Nat) (t : ThreadId) (elapsed : Int)
  | timeout (t : ThreadId)
  | reset

namespace MessageQueue

/-- The outcome of an action, and the state it leads to. The calls assert that there is a byte
to be copied. -/
def step (s : MessageQueue) : MqAct → Option (MqOutcome × MessageQueue)
  | .sendWait priority t size timeout =>
    Runs.takeIf ((s.waits.thread t).call = none ∧ size ≠ 0)
      (s.rtMqSendWait priority t size timeout)
  | .urgent t size =>
    Runs.takeIf ((s.waits.thread t).call = none ∧ size ≠ 0) (s.rtMqUrgent t size)
  | .copyIn t byte =>
    match (s.waits.thread t).call with
    | some (.filling msg size done urgent) =>
      Runs.takeIf (done.length < size) (.goesOn, s.copyIn t msg size done urgent byte)
    | _ => none
  | .link t =>
    match (s.waits.thread t).call with
    | some (.filling msg size done urgent) =>
      Runs.takeIf (done.length = size) (s.link t msg done urgent)
    | _ => none
  | .recv priority t size timeout =>
    Runs.takeIf ((s.waits.thread t).call = none ∧ size ≠ 0) (s.rtMqRecv priority t size timeout)
  | .copyOut t =>
    match (s.waits.thread t).call with
    | some (.draining msg len bytes got) =>
      Runs.takeIf (got.length < len) (.goesOn, s.copyOut t msg len bytes got)
    | _ => none
  | .release t =>
    match (s.waits.thread t).call with
    | some (.draining msg len _ got) => Runs.takeIf (got.length = len) (s.release t msg got)
    | _ => none
  | .woken priority t elapsed =>
    match (s.waits.thread t).call with
    | some (.send size timeout) =>
      Runs.takeIf (Queues.Free s.waits.queue t) (s.woken priority t (.send size timeout) elapsed)
    | some (.recv size timeout) =>
      Runs.takeIf (Queues.Free s.waits.queue t) (s.woken priority t (.recv size timeout) elapsed)
    | _ => none
  | .timeout t =>
    Runs.takeIf (¬ Queues.Free s.waits.queue t ∧ (s.waits.thread t).timer = true)
      (.goesOn, { s with waits := s.waits.timeout t })
  | .reset => some s.rtMqReset

end MessageQueue

/-- What an outcome tells of the messages. -/
def MqOutcome.ops : MqOutcome → List (DequeOp (List UInt8))
  | .linked bytes false => [.pushBack bytes]
  | .linked bytes true => [.pushFront bytes]
  | .unlinked bytes => [.popFront bytes]
  | .reset => [.clear]
  | .received _ | .failed _ | .goesOn => []

namespace MessageQueue

/-- The step of an action, with what its outcome tells. -/
def exec (s : MessageQueue) (a : MqAct) : Option (MessageQueue × List (DequeOp (List UInt8))) :=
  (s.step a).map fun r => (r.2, r.1.ops)

end MessageQueue

end RTThread
