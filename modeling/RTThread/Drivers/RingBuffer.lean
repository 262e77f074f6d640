import RTThread.Rtdef
import RTThread.Lib.Ring

/-!
# The ring buffer (`components/drivers/ipc/ringbuffer.c`)

Two 15-bit indices into the buffer, each with a mirror bit. Equal indices mean
an empty buffer in the same mirror and a full one in different mirrors.
`rt_size_t` is a 32-bit word, lengths are 16-bit words; the callers' buffers
are byte lists.
-/

namespace RTThread

open Ring

/-- `struct rt_ringbuffer`, with the bytes behind `buffer_ptr`. -/
structure RingBuffer where
  buffer : Nat → UInt8
  readMirror : Bool
  readIndex : Nat
  writeMirror : Bool
  writeIndex : Nat
  bufferSize : Nat

/-- `enum rt_ringbuffer_state`. -/
inductive RingBufferState
  | empty
  | full
  | halffull
deriving DecidableEq

namespace RingBuffer

/-- A value stored in one of the 15-bit index fields. -/
def indexField (n : Nat) : Nat := n % 2 ^ 15

def rtRingbufferStatus (rb : RingBuffer) : RingBufferState :=
  if rb.readIndex = rb.writeIndex then
    if rb.readMirror = rb.writeMirror then .empty else .full
  else .halffull

/-- `rt_ringbuffer_init(rb, pool, size)`. -/
def rtRingbufferInit (pool : Nat → UInt8) (size : Nat) : Except Fault RingBuffer := do
  rtAssert (size > 0)
  return { buffer := pool, readMirror := false, readIndex := 0, writeMirror := false
           writeIndex := 0, bufferSize := rtAlignDown size }

/-- `rt_ringbuffer_create(size)`, with the memory it gets for the bytes; the size goes to a signed
parameter of `rt_ringbuffer_init`. -/
def rtRingbufferCreate (pool : Option (Nat → UInt8)) (size : Nat) :
    Except Fault (Option RingBuffer) := do
  rtAssert (size > 0)
  match pool with
  | none => return none
  | some pool =>
    rtAssert (rtAlignDown size < 2 ^ 15)
    return some (← rtRingbufferInit pool (rtAlignDown size))

def rtRingbufferDataLen (rb : RingBuffer) : Nat :=
  match rb.rtRingbufferStatus with
  | .empty => 0
  | .full => rb.bufferSize
  | .halffull =>
    if rb.writeIndex > rb.readIndex then Word32.sub rb.writeIndex rb.readIndex
    else Word32.sub rb.bufferSize (Word32.sub rb.readIndex rb.writeIndex)

def rtRingbufferSpaceLen (rb : RingBuffer) : Nat :=
  Word32.sub rb.bufferSize rb.rtRingbufferDataLen

/-- The copy into the buffer that `rt_ringbuffer_put` and `rt_ringbuffer_put_force` share: in
one piece, or in two pieces and into the other side of the mirror. -/
def copyIn (rb : RingBuffer) (data : List UInt8) : RingBuffer :=
  let room := rb.bufferSize - rb.writeIndex
  if room > data.length then
    { rb with
      buffer := blit rb.buffer rb.writeIndex data
      writeIndex := indexField (rb.writeIndex + data.length) }
  else
    { rb with
      buffer := blit (blit rb.buffer rb.writeIndex (data.take room)) 0 (data.drop room)
      writeMirror := !rb.writeMirror
      writeIndex := indexField (data.length - room) }

/-- `rt_ringbuffer_put(rb, ptr, length)`. -/
def rtRingbufferPut (rb : RingBuffer) (ptr : List UInt8) : Nat × RingBuffer :=
  let size := rb.rtRingbufferSpaceLen % 2 ^ 16
  if size = 0 then (0, rb)
  else
    let length := if size < ptr.length then size else ptr.length
    (length, rb.copyIn (ptr.take length))

/-- `rt_ringbuffer_put_force(rb, ptr, length)`. -/
def rtRingbufferPutForce (rb : RingBuffer) (ptr : List UInt8) : Nat × RingBuffer :=
  let spaceLength := rb.rtRingbufferSpaceLen % 2 ^ 16
  let ptr := if ptr.length > rb.bufferSize then ptr.drop (ptr.length - rb.bufferSize) else ptr
  let straight := rb.bufferSize - rb.writeIndex > ptr.length
  let rb := rb.copyIn ptr
  if ptr.length > spaceLength then
    let flip := ¬ straight ∧ rb.writeIndex ≤ rb.readIndex
    (ptr.length, { rb with
      readMirror := if flip then !rb.readMirror else rb.readMirror
      readIndex := rb.writeIndex })
  else (ptr.length, rb)

/-- `rt_ringbuffer_get(rb, ptr, length)`: the bytes stored behind `ptr`, whose number is the
result. -/
def rtRingbufferGet (rb : RingBuffer) (length : Nat) : List UInt8 × RingBuffer :=
  let size := rb.rtRingbufferDataLen
  if size = 0 then ([], rb)
  else
    let length := if size < length then size else length
    let room := rb.bufferSize - rb.readIndex
    if room > length then
      (slice rb.buffer rb.readIndex length,
        { rb with readIndex := indexField (rb.readIndex + length) })
    else
      (slice rb.buffer rb.readIndex room ++ slice rb.buffer 0 (length - room),
        { rb with readMirror := !rb.readMirror, readIndex := indexField (length - room) })

/-- `rt_ringbuffer_peak(rb, ptr)`: the index `*ptr` points at, null for an empty buffer, and the
size of the run behind it. -/
def rtRingbufferPeak (rb : RingBuffer) : Option Nat × Nat × RingBuffer :=
  let size := rb.rtRingbufferDataLen
  if size = 0 then (none, 0, rb)
  else
    let room := rb.bufferSize - rb.readIndex
    if room > size then
      (some rb.readIndex, size, { rb with readIndex := indexField (rb.readIndex + size) })
    else
      (some rb.readIndex, room, { rb with readMirror := !rb.readMirror, readIndex := 0 })

/-- `rt_ringbuffer_putchar(rb, ch)`. -/
def rtRingbufferPutchar (rb : RingBuffer) (ch : UInt8) : Nat × RingBuffer :=
  if rb.rtRingbufferSpaceLen = 0 then (0, rb)
  else
    let rb := { rb with buffer := blit rb.buffer rb.writeIndex [ch] }
    if rb.writeIndex = rb.bufferSize - 1 then
      (1, { rb with writeMirror := !rb.writeMirror, writeIndex := 0 })
    else (1, { rb with writeIndex := indexField (rb.writeIndex + 1) })

/-- `rt_ringbuffer_putchar_force(rb, ch)`. -/
def rtRingbufferPutcharForce (rb : RingBuffer) (ch : UInt8) : Nat × RingBuffer :=
  let oldState := rb.rtRingbufferStatus
  let rb := { rb with buffer := blit rb.buffer rb.writeIndex [ch] }
  if rb.writeIndex = rb.bufferSize - 1 then
    let rb := { rb with writeMirror := !rb.writeMirror, writeIndex := 0 }
    if oldState = .full then
      (1, { rb with readMirror := !rb.readMirror, readIndex := rb.writeIndex })
    else (1, rb)
  else
    let rb := { rb with writeIndex := indexField (rb.writeIndex + 1) }
    if oldState = .full then (1, { rb with readIndex := rb.writeIndex })
    else (1, rb)

/-- `rt_ringbuffer_getchar(rb, ch)`: the byte stored behind `ch`, if there is one. -/
def rtRingbufferGetchar (rb : RingBuffer) : Option UInt8 × RingBuffer :=
  if rb.rtRingbufferDataLen = 0 then (none, rb)
  else
    let ch := rb.buffer rb.readIndex
    if rb.readIndex = rb.bufferSize - 1 then
      (some ch, { rb with readMirror := !rb.readMirror, readIndex := 0 })
    else (some ch, { rb with readIndex := indexField (rb.readIndex + 1) })

/-- `rt_ringbuffer_reset(rb)`. -/
def rtRingbufferReset (rb : RingBuffer) : RingBuffer :=
  { rb with readMirror := false, readIndex := 0, writeMirror := false, writeIndex := 0 }

end RingBuffer

end RTThread
