import RTThread.Rtdef
import RTThread.Lib.Ring
import RTThread.Lib.Runs

/-!
# The receive buffer of rt-link (`components/utilities/rt-link/src/rtlink_hw.c`)

Two bare pointers into a block of bytes, kept as offsets. Equal pointers mean an
empty buffer, and nothing tells a full one apart.

Main result: `rxBuffer_fifo_iff`, the buffer is a bounded queue of bytes as long
as no write fills it to the last byte, and is none right after such a write.
-/

namespace RTThread.Link

open Ring

/-- `RT_LINK_RECEIVE_BUFFER_LENGTH`: three frames of 1024 bytes, a head and an extend part. -/
abbrev receiveBufferLength : Nat := 1024 * 3 + 4 + 4

/-- `struct rt_link_receive_buffer`: the offsets of `read_point` and `write_point` in `data`, whose
end is `end_point`. Until `rt_link_hw_buffer_init` allocates it nothing is taken. -/
structure ReceiveBuffer where
  data : Nat → UInt8
  readPoint : Nat
  writePoint : Nat

namespace ReceiveBuffer

/-- `rt_link_hw_buffer_init`. -/
def init : ReceiveBuffer := { data := fun _ => 0, readPoint := 0, writePoint := 0 }

/-- `rt_link_hw_buffer_write(data, count)`: the number of bytes taken. -/
def rtLinkHwBufferWrite (rb : ReceiveBuffer) (data : List UInt8) : Nat × ReceiveBuffer :=
  if rb.readPoint ≤ rb.writePoint then
    let w2end := receiveBufferLength - rb.writePoint
    let surplus := receiveBufferLength - (rb.writePoint - rb.readPoint)
    let count := if surplus < data.length then surplus else data.length
    let data := data.take count
    if w2end ≤ count then
      (count, { rb with
        data := blit (blit rb.data rb.writePoint (data.take w2end)) 0 (data.drop w2end)
        writePoint := count - w2end })
    else
      (count, { rb with
        data := blit rb.data rb.writePoint data
        writePoint := rb.writePoint + count })
  else
    let surplus := rb.readPoint - rb.writePoint
    let count := if surplus < data.length then surplus else data.length
    (count, { rb with
      data := blit rb.data rb.writePoint (data.take count)
      writePoint := rb.writePoint + count })

/-- `rt_link_hw_buffer_point_shift(pointer_address, length)`: the pointer it stores. -/
def rtLinkHwBufferPointShift (rb : ReceiveBuffer) (pointer length : Nat) : Nat :=
  let pointer := pointer + length
  if rb.readPoint ≤ rb.writePoint then
    if rb.writePoint ≤ pointer then rb.writePoint else pointer
  else if receiveBufferLength ≤ pointer then
    let pointer := pointer - receiveBufferLength
    if rb.writePoint ≤ pointer then rb.writePoint else pointer
  else pointer

/-- `rt_link_hw_copy(dst, src, count)`: the bytes it stores. -/
def rtLinkHwCopy (rb : ReceiveBuffer) (src count : Nat) : List UInt8 :=
  if receiveBufferLength ≤ src + count then
    slice rb.data src (receiveBufferLength - src) ++
      slice rb.data 0 (src + count - receiveBufferLength)
  else slice rb.data src count

/-- `rt_link_hw_recv_len(buffer)`. -/
def rtLinkHwRecvLen (rb : ReceiveBuffer) : Nat :=
  if rb.readPoint ≤ rb.writePoint then rb.writePoint - rb.readPoint
  else receiveBufferLength - (rb.readPoint - rb.writePoint)

-- --------
-- Pointer arithmetic
-- --------

variable {rb : ReceiveBuffer} {q data : List UInt8} {k n : Nat}

/-- The buffer holds the bytes of `q`, and is not full. -/
structure Holds (rb : ReceiveBuffer) (q : List UInt8) : Prop where
  read_lt : rb.readPoint < receiveBufferLength
  room : q.length < receiveBufferLength
  write_eq : rb.writePoint = (rb.readPoint + q.length) % receiveBufferLength
  items : read rb.data receiveBufferLength rb.readPoint q.length = q

/-- The write pointer stands behind the read pointer, or in front of it after passing the end. -/
theorem Holds.cases (H : Holds rb q) :
    (rb.readPoint ≤ rb.writePoint ∧ rb.writePoint = rb.readPoint + q.length ∧
        rb.writePoint < receiveBufferLength) ∨
      (rb.writePoint < rb.readPoint ∧
        rb.writePoint + receiveBufferLength = rb.readPoint + q.length) := by
  have h1 := H.read_lt
  have h2 := H.room
  have h3 := H.write_eq
  by_cases h : rb.readPoint + q.length < receiveBufferLength
  · rw [Nat.mod_eq_of_lt h] at h3
    exact Or.inl (by omega)
  · rw [Nat.mod_eq_sub_mod (by omega), Nat.mod_eq_of_lt (by omega)] at h3
    exact Or.inr (by omega)

theorem Holds.write_lt (H : Holds rb q) : rb.writePoint < receiveBufferLength := by
  rw [H.write_eq]
  exact Nat.mod_lt _ (by decide)

/-- **`rt_link_hw_recv_len`** counts the bytes. -/
theorem Holds.recvLen (H : Holds rb q) : rb.rtLinkHwRecvLen = q.length := by
  have h1 := H.read_lt
  rw [rtLinkHwRecvLen]
  rcases H.cases with ⟨hle, hw, -⟩ | ⟨hlt, hw⟩
  · rw [if_pos hle]
    omega
  · rw [if_neg (by omega)]
    omega

/-- **`rt_link_hw_buffer_point_shift`** moves the read pointer through the bytes. -/
theorem Holds.pointShift (H : Holds rb q) (hk : k ≤ q.length) :
    rb.rtLinkHwBufferPointShift rb.readPoint k = (rb.readPoint + k) % receiveBufferLength := by
  have h1 := H.read_lt
  rw [rtLinkHwBufferPointShift]
  rcases H.cases with ⟨hle, hw, hlt⟩ | ⟨hlt, hw⟩
  · rw [if_pos hle, Nat.mod_eq_of_lt (by omega)]
    split <;> omega
  · rw [if_neg (by omega)]
    split
    · rw [Nat.mod_eq_sub_mod ‹_›, Nat.mod_eq_of_lt (by omega)]
      dsimp only
      split <;> omega
    · rw [Nat.mod_eq_of_lt (by omega)]

/-- **`rt_link_hw_copy`** reads around the end. -/
theorem rtLinkHwCopy_eq (hk : k < receiveBufferLength) (hn : n ≤ receiveBufferLength) :
    rb.rtLinkHwCopy k n = read rb.data receiveBufferLength k n := by
  rw [rtLinkHwCopy]
  split
  · rw [read_wrapped hk ‹_› hn, show k + n - receiveBufferLength = n - (receiveBufferLength - k) by
      omega]
  · rw [read_straight (by omega)]

theorem take_surplus (data : List UInt8) (n : Nat) :
    data.take (if n < data.length then n else data.length) = data.take n := by
  split
  · rfl
  · rw [List.take_of_length_le (Nat.le_refl _), List.take_of_length_le (by omega)]

/-- What a write takes, and how it moves the pointer. -/
theorem Holds.write (H : Holds rb q) (data : List UInt8) :
    rb.rtLinkHwBufferWrite data = ((data.take (receiveBufferLength - q.length)).length, { rb with
      data := Ring.write rb.data receiveBufferLength rb.writePoint
        (data.take (receiveBufferLength - q.length))
      writePoint := (rb.writePoint + (data.take (receiveBufferLength - q.length)).length) %
        receiveBufferLength }) := by
  have h1 := H.read_lt
  have hcount : (if receiveBufferLength - q.length < data.length then
      receiveBufferLength - q.length else data.length) =
      (data.take (receiveBufferLength - q.length)).length := by
    rw [List.length_take]
    split <;> omega
  have hle : (data.take (receiveBufferLength - q.length)).length ≤
      receiveBufferLength - q.length := List.length_take_le _ _
  rw [rtLinkHwBufferWrite]
  rcases H.cases with ⟨hrw, hw, hlt⟩ | ⟨hlt, hw⟩
  · rw [if_pos hrw, show rb.writePoint - rb.readPoint = q.length by omega]
    dsimp only
    rw [take_surplus, hcount]
    split
    · rw [Nat.mod_eq_sub_mod (by omega), Nat.mod_eq_of_lt (by omega), Ring.write,
        show rb.writePoint + (data.take (receiveBufferLength - q.length)).length -
          receiveBufferLength = (data.take (receiveBufferLength - q.length)).length -
          (receiveBufferLength - rb.writePoint) by omega]
    · rw [write_straight (by omega), Nat.mod_eq_of_lt (by omega)]
  · rw [if_neg (by omega), show rb.readPoint - rb.writePoint = receiveBufferLength - q.length by
      omega]
    dsimp only
    rw [take_surplus, hcount, write_straight (by omega), Nat.mod_eq_of_lt (by omega)]

-- --------
-- The queue behind the buffer
-- --------

/-- A write that leaves room: all of it is taken and the buffer holds it too. -/
theorem Holds.push (H : Holds rb q) (h : data.length < receiveBufferLength - q.length) :
    (rb.rtLinkHwBufferWrite data).1 = data.length ∧
      Holds (rb.rtLinkHwBufferWrite data).2 (q ++ data) := by
  have hroom := H.room
  have htake : data.take (receiveBufferLength - q.length) = data :=
    List.take_of_length_le (by omega)
  rw [H.write data, htake]
  refine ⟨rfl, H.read_lt, ?_, ?_, ?_⟩
  · rw [List.length_append]
    omega
  · dsimp only
    rw [H.write_eq, Nat.mod_add_mod, List.length_append, Nat.add_assoc]
  · rw [List.length_append]
    dsimp only
    rw [read_write_append H.write_lt H.write_eq.symm (by omega), H.items]

/-- A write that fills the buffer moves the write pointer onto the read pointer. -/
theorem Holds.fill (H : Holds rb q) (h : receiveBufferLength - q.length ≤ data.length) :
    (rb.rtLinkHwBufferWrite data).1 = receiveBufferLength - q.length ∧
      (rb.rtLinkHwBufferWrite data).2.rtLinkHwRecvLen = 0 := by
  have hroom := H.room
  have hread := H.read_lt
  have hlen : (data.take (receiveBufferLength - q.length)).length =
      receiveBufferLength - q.length := by
    rw [List.length_take]
    omega
  have hmeet : (rb.writePoint + (receiveBufferLength - q.length)) % receiveBufferLength =
      rb.readPoint := by
    rw [H.write_eq, Nat.mod_add_mod, show rb.readPoint + q.length +
      (receiveBufferLength - q.length) = rb.readPoint + receiveBufferLength by omega,
      Nat.add_mod_right, Nat.mod_eq_of_lt hread]
  rw [H.write data, hlen]
  refine ⟨rfl, ?_⟩
  rw [rtLinkHwRecvLen]
  dsimp only
  rw [hmeet, if_pos (Nat.le_refl _), Nat.sub_self]

/-- Consuming bytes takes them off the front. -/
theorem Holds.pop (H : Holds rb q) (hk : k ≤ q.length) :
    Holds { rb with readPoint := rb.rtLinkHwBufferPointShift rb.readPoint k } (q.drop k) := by
  have hroom := H.room
  rw [H.pointShift hk]
  refine ⟨Nat.mod_lt _ (by decide), ?_, ?_, ?_⟩
  · rw [List.length_drop]
    omega
  · dsimp only
    rw [H.write_eq, Nat.mod_add_mod, List.length_drop, Nat.add_assoc, Nat.add_sub_cancel' hk]
  · dsimp only
    rw [List.length_drop, read_mod, ← drop_read hk, H.items]

/-- **Copies** out of the buffer are the bytes in order. -/
theorem Holds.copy (H : Holds rb q) (hk : k + n ≤ q.length) :
    rb.rtLinkHwCopy (rb.rtLinkHwBufferPointShift rb.readPoint k) n = (q.drop k).take n := by
  have hroom := H.room
  rw [H.pointShift (by omega), rtLinkHwCopy_eq (Nat.mod_lt _ (by decide)) (by omega), read_mod,
    ← take_read (show n ≤ q.length - k by omega), ← drop_read (by omega), H.items]

-- --------
-- Runs
-- --------

/-- The producer writes; the consumer moves the read point by at most the received length. -/
inductive Act
  | write (data : List UInt8)
  | consume (length : Nat)

/-- The buffer beside the bytes that were taken and not yet consumed. -/
def exec (s : ReceiveBuffer × List UInt8) : Act → Option (ReceiveBuffer × List UInt8)
  | .write data =>
    let written := s.1.rtLinkHwBufferWrite data
    some (written.2, s.2 ++ data.take written.1)
  | .consume length => Runs.takeIf (length ≤ s.1.rtLinkHwRecvLen)
    ({ s.1 with readPoint := s.1.rtLinkHwBufferPointShift s.1.readPoint length },
      s.2.drop length)

/-- What a user of the buffer relies on: the received length counts the bytes, they were taken
into free space, and copies from any place in them return them in order. -/
structure IsFifo (s : ReceiveBuffer × List UInt8) : Prop where
  fits : s.2.length ≤ receiveBufferLength
  recvLen : s.1.rtLinkHwRecvLen = s.2.length
  copy : ∀ k n, k + n ≤ s.2.length →
    s.1.rtLinkHwCopy (s.1.rtLinkHwBufferPointShift s.1.readPoint k) n = (s.2.drop k).take n

/-- A write leaves at least one byte free. -/
def LeavesRoom (s : ReceiveBuffer × List UInt8) : Act → Prop
  | .write data => data.length < receiveBufferLength - s.1.rtLinkHwRecvLen
  | .consume _ => True

instance : ∀ s a, Decidable (LeavesRoom s a)
  | s, .write data => inferInstanceAs (Decidable (data.length < _ - s.1.rtLinkHwRecvLen))
  | _, .consume _ => isTrue trivial

theorem holds_init : Holds init [] := ⟨by decide, by decide, by decide, rfl⟩

theorem Holds.isFifo (H : Holds rb q) : IsFifo (rb, q) :=
  ⟨Nat.le_of_lt H.room, H.recvLen, fun _ _ => H.copy⟩

/-- **A step** that leaves room. -/
theorem Holds.step {s s' : ReceiveBuffer × List UInt8} {a : Act} (H : Holds s.1 s.2)
    (hok : LeavesRoom s a) (h : exec s a = some s') : Holds s'.1 s'.2 := by
  cases a with
  | write data =>
    obtain rfl := Option.some.inj h
    rw [LeavesRoom, H.recvLen] at hok
    obtain ⟨hcount, hholds⟩ := H.push hok
    dsimp only
    rwa [hcount, List.take_of_length_le (Nat.le_refl _)]
  | consume length =>
    obtain ⟨hle, rfl⟩ := Runs.takeIf_eq_some.mp h
    exact H.pop (H.recvLen ▸ hle)

/-- The buffer has what was received in every state of a run. -/
theorem holds_of_run {s : ReceiveBuffer × List UInt8}
    (h : Runs (Runs.Exec exec) LeavesRoom (init, []) s) : Holds s.1 s.2 :=
  @Runs.invariant _ _ _ _ _ _ (fun s => Holds s.1 s.2) (fun _ _ _ H hok hs => H.step hok hs) h
    holds_init

/-- A write that leaves no room ends the queue: the full buffer says that it is empty. -/
theorem Holds.not_isFifo {s s' : ReceiveBuffer × List UInt8} {a : Act} (H : Holds s.1 s.2)
    (hok : ¬ LeavesRoom s a) (h : exec s a = some s') : ¬ IsFifo s' := by
  cases a with
  | write data =>
    obtain rfl := Option.some.inj h
    rw [LeavesRoom, H.recvLen] at hok
    obtain ⟨hcount, hlen⟩ := H.fill (Nat.le_of_not_lt hok)
    have hroom := H.room
    intro F
    have hrecv := F.recvLen
    dsimp only at hrecv
    rw [hlen, hcount, List.length_append, List.length_take] at hrecv
    omega
  | consume length => exact absurd trivial hok

/-- **The receive buffer** is a bounded queue of bytes in every state that writes leaving room and
reads lead to, and after the next step exactly if that leaves room too. -/
theorem rxBuffer_fifo_iff {s s' : ReceiveBuffer × List UInt8} {a : Act}
    (hrun : Runs (Runs.Exec exec) LeavesRoom (init, []) s) (hs : exec s a = some s') :
    IsFifo s ∧ (IsFifo s' ↔ LeavesRoom s a) := by
  have H := holds_of_run hrun
  refine ⟨H.isFifo, fun F => ?_, fun hok => (H.step hok hs).isFifo⟩
  by_contra hok
  exact H.not_isFifo hok hs F

/-- Three bytes written, two of them consumed, and two more written. -/
theorem rxBuffer_fifo_three : ∃ s s', exec s (.write [4, 5]) = some s' ∧
    IsFifo s ∧ (IsFifo s' ↔ LeavesRoom s (.write [4, 5])) := by
  obtain ⟨s, -, hrun, -⟩ := @Runs.exec_of_replay _ _ LeavesRoom (init, []) exec _
    [.write [1, 2, 3], .consume 2] (fun _ => true) (by decide +kernel)
  exact ⟨s, _, rfl, rxBuffer_fifo_iff hrun rfl⟩

/-- **A full buffer is taken for an empty one.** -/
theorem rxBuffer_full : ¬ ∀ s, Runs (Runs.Exec exec) Runs.always (init, []) s → IsFifo s := by
  intro h
  exact holds_init.not_isFifo (s := (init, []))
    (a := .write (List.replicate receiveBufferLength 0)) (by rw [LeavesRoom]; decide +kernel) rfl
    (h _ (Runs.refl.snoc (a := .write (List.replicate receiveBufferLength 0)) trivial rfl))

end ReceiveBuffer

end RTThread.Link
