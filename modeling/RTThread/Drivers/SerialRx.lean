import RTThread.Rtdef
import RTThread.Lib.Ring
import RTThread.Lib.BoundedFifo
import RTThread.Lib.Runs

/-!
# The serial receive buffer (`components/drivers/serial/serial.c`)

One buffer with two writers. The receive interrupt stores character by character and keeps one
place free; a DMA channel has written a whole block, from `put_index` on around the end, when its
interrupt moves the index, and a full buffer is told from an empty one by `is_full`. Both drop the
oldest bytes when there is no room.

The indices are of 16 bits. `serialRx_fifo` shows that the buffer is a queue of the newest bytes,
as long as no index leaves these 16 bits before it is reduced, which cannot happen with a buffer
of at most 32768 bytes; `serialRx_wrapped` is a run with a larger one.
-/

namespace RTThread

open Ring

-- --------
-- The code
-- --------

/-- `struct rt_serial_rx_fifo`, with `config.bufsz`. -/
structure SerialRxFifo where
  buffer : Nat → UInt8
  putIndex : Nat
  getIndex : Nat
  isFull : Bool
  bufsz : Nat

namespace SerialRxFifo

variable (s : SerialRxFifo)

/-- `_serial_fifo_calc_recved_len`. -/
def calcRecvedLen : Nat :=
  if s.putIndex = s.getIndex then if s.isFull then s.bufsz else 0
  else if s.getIndex < s.putIndex then s.putIndex - s.getIndex
  else s.bufsz - (s.getIndex - s.putIndex)

/-- One round of the loop of `_serial_int_rx`: a character, or the end of the data. -/
def intRx : Option UInt8 × SerialRxFifo :=
  if s.getIndex = s.putIndex ∧ s.isFull = false then (none, s)
  else
    let getIndex := u16 (s.getIndex + 1)
    let getIndex := if s.bufsz ≤ getIndex then 0 else getIndex
    (some (s.buffer s.getIndex), { s with getIndex, isFull := false })

/-- A character of `RT_SERIAL_EVENT_RX_IND`. -/
def rxChar (ch : UInt8) : SerialRxFifo :=
  let buffer := Function.update s.buffer s.putIndex ch
  let putIndex := u16 (s.putIndex + 1)
  let putIndex := if s.bufsz ≤ putIndex then 0 else putIndex
  if putIndex = s.getIndex then
    let getIndex := u16 (s.getIndex + 1)
    let getIndex := if s.bufsz ≤ getIndex then 0 else getIndex
    { s with buffer, putIndex, getIndex, isFull := true }
  else { s with buffer, putIndex }

/-- `RT_SERIAL_EVENT_RX_IND` with the characters that `getc` finds, and the length that
`rx_indicate` is called with, unless it is 0. -/
def rxInd (chars : List UInt8) : Option Nat × SerialRxFifo :=
  let s := chars.foldl rxChar s
  let rxLength :=
    if s.getIndex ≤ s.putIndex then s.putIndex - s.getIndex
    else s.bufsz - (s.getIndex - s.putIndex)
  (if rxLength ≠ 0 then some rxLength else none, s)

/-- `rt_dma_recv_update_get_index`. -/
def updateGetIndex (len : Nat) : Except Fault SerialRxFifo := do
  rtAssert (len ≤ s.calcRecvedLen)
  let getIndex := u16 (s.getIndex + len)
  let getIndex := if s.bufsz ≤ getIndex then getIndex % s.bufsz else getIndex
  return { s with getIndex, isFull := s.isFull && decide (len = 0) }

/-- `rt_dma_recv_update_put_index`. -/
def updatePutIndex (len : Nat) : SerialRxFifo :=
  let putIndex := u16 (s.putIndex + len)
  let s :=
    if s.getIndex ≤ s.putIndex then
      if s.bufsz ≤ putIndex then
        if s.getIndex ≤ putIndex % s.bufsz then
          { s with putIndex := putIndex % s.bufsz, isFull := true }
        else { s with putIndex := putIndex % s.bufsz }
      else { s with putIndex }
    else if s.getIndex ≤ putIndex then
      if s.bufsz ≤ putIndex then { s with putIndex := putIndex % s.bufsz, isFull := true }
      else { s with putIndex, isFull := true }
    else { s with putIndex }
  if s.isFull then { s with getIndex := s.putIndex } else s

/-- `_serial_dma_rx` with a buffer: what is copied, all of it from inside the buffer. -/
def dmaRx (length : Int) : Except Fault (List UInt8 × SerialRxFifo) := do
  let recvLen := if length < s.calcRecvedLen then (length % 2 ^ 32).toNat else s.calcRecvedLen
  if s.bufsz < recvLen then throw .badPointer
  let data :=
    if s.getIndex + recvLen < s.bufsz then slice s.buffer s.getIndex recvLen
    else slice s.buffer s.getIndex (s.bufsz - s.getIndex) ++
      slice s.buffer 0 (recvLen + s.getIndex - s.bufsz)
  let s ← s.updateGetIndex recvLen
  return (data, s)

/-- `RT_SERIAL_EVENT_RX_DMADONE` with a buffer, after the channel has written the bytes, and the
length that `rx_indicate` is called with. -/
def rxDmaDone (bytes : List UInt8) : Nat × SerialRxFifo :=
  let s := { s with buffer := write s.buffer s.bufsz s.putIndex bytes }
  let s := s.updatePutIndex bytes.length
  (s.calcRecvedLen, s)

end SerialRxFifo

/-- How the device is opened: `RT_DEVICE_FLAG_INT_RX` or `RT_DEVICE_FLAG_DMA_RX`. -/
inductive SerialMode
  | int
  | dma
deriving DecidableEq

/-- What happens to the buffer. The loop of `_serial_int_rx` enables interrupts between its
rounds, so `readChar` is one of them. -/
inductive SerialRxAct
  | rxInd (chars : List UInt8)
  | readChar
  | rxDmaDone (bytes : List UInt8)
  | dmaRead (length : Int)

/-- What is seen of it. -/
inductive SerialRxOut
  | indicate (length : Option Nat)
  | char (ch : Option UInt8)
  | data (bytes : List UInt8)

namespace SerialRxFifo

open BoundedFifo

/-- The buffer after `rt_serial_open`. -/
def opened (buffer : Nat → UInt8) (bufsz : Nat) : SerialRxFifo where
  buffer := buffer
  putIndex := 0
  getIndex := 0
  isFull := false
  bufsz := bufsz

/-- The interrupts and the reads. -/
def exec (s : SerialRxFifo) : SerialRxAct → Except Fault (SerialRxOut × SerialRxFifo)
  | .rxInd chars => .ok (.indicate (s.rxInd chars).1, (s.rxInd chars).2)
  | .readChar => .ok (.char s.intRx.1, s.intRx.2)
  | .rxDmaDone bytes => .ok (.indicate (some (s.rxDmaDone bytes).1), (s.rxDmaDone bytes).2)
  | .dmaRead length => (s.dmaRx length).map fun r => (.data r.1, r.2)

/-- What the mode leads to. A block is not longer than the buffer. -/
def Allowed (bufsz : Nat) : SerialMode → SerialRxAct → Prop
  | .int, .rxInd _ => True
  | .int, .readChar => True
  | .dma, .rxDmaDone bytes => bytes.length ≤ bufsz
  | .dma, .dmaRead _ => True
  | _, _ => False

/-- A step of the device. -/
def Step (mode : SerialMode) (s : SerialRxFifo) (a : SerialRxAct) (s' : SerialRxFifo) : Prop :=
  Allowed s.bufsz mode a ∧ ∃ out, s.exec a = .ok (out, s')

-- --------
-- The queue
-- --------

/-- How many bytes are kept. -/
def capacity (bufsz : Nat) : SerialMode → Nat
  | .int => bufsz - 1
  | .dma => bufsz

/-- The queue of the newest bytes that are not read. -/
abbrev Pending (bufsz : Nat) (mode : SerialMode) := BoundedFifo UInt8 (capacity bufsz mode)

variable {bufsz : Nat} {mode : SerialMode}

/-- What becomes of it. -/
def Pending.next (q : Pending bufsz mode) (_ : SerialRxFifo) : SerialRxAct → Pending bufsz mode
  | .rxInd chars => q.force chars
  | .readChar => q.drop 1
  | .rxDmaDone bytes => q.force bytes
  | .dmaRead length => q.drop length.toNat

/-- What is seen of it. `rx_indicate` is not called for an empty buffer by the character
interrupt. -/
def Pending.answer (q : Pending bufsz mode) : SerialRxAct → SerialRxOut
  | .rxInd chars =>
    .indicate (if (q.force chars).items = [] then none else some (q.force chars).items.length)
  | .readChar => .char q.items.head?
  | .rxDmaDone bytes => .indicate (some (q.force bytes).items.length)
  | .dmaRead length => .data (q.items.take length.toNat)

/-- The device at work, with the queue beside it. -/
abbrev Session (bufsz : Nat) (mode : SerialMode) :=
  Runs.Observed (Step mode) (@Pending.next bufsz mode)

/-- No index leaves its 16 bits before it is reduced, and no length is negative as an `int`. -/
def Fits (p : SerialRxFifo × Pending bufsz mode) : SerialRxAct → Prop
  | .rxDmaDone bytes => p.1.putIndex + bytes.length < 2 ^ 16
  | .dmaRead length =>
    0 ≤ length ∧ p.1.getIndex + min length.toNat p.2.items.length < 2 ^ 16
  | _ => True

-- --------
-- The buffer holds the queue
-- --------

/-- The bytes from `get_index` on are the queue, and the flag tells full from empty. -/
structure Holds (s : SerialRxFifo) (q : Pending bufsz mode) : Prop where
  size_eq : s.bufsz = bufsz
  two_le : 2 ≤ bufsz
  lt : bufsz < 2 ^ 16
  get_lt : s.getIndex < bufsz
  put_eq : s.putIndex = (s.getIndex + q.items.length) % bufsz
  items_eq : read s.buffer bufsz s.getIndex q.items.length = q.items
  full : s.isFull = true → q.items ≠ [] ∧ (mode = .dma → q.items.length = bufsz)
  not_full : mode = .dma → q.items.length = bufsz → s.isFull = true

variable {s : SerialRxFifo} {q : Pending bufsz mode}

theorem capacity_le : capacity bufsz mode ≤ bufsz := by
  cases mode
  · exact Nat.sub_le _ _
  · exact Nat.le_refl _

theorem Holds.le (_ : Holds s q) : q.items.length ≤ bufsz := Nat.le_trans q.fits capacity_le

theorem Holds.put_lt (H : Holds s q) : s.putIndex < bufsz := by
  rw [H.put_eq]
  exact Nat.mod_lt _ (by have := H.two_le; omega)

/-- The queue lies in one piece or goes around the end. -/
theorem Holds.cases (H : Holds s q) :
    (s.getIndex + q.items.length < bufsz ∧ s.putIndex = s.getIndex + q.items.length) ∨
      (bufsz ≤ s.getIndex + q.items.length ∧
        s.putIndex + bufsz = s.getIndex + q.items.length) := by
  have hget := H.get_lt
  have hput := H.put_eq
  have hle := H.le
  by_cases h : s.getIndex + q.items.length < bufsz
  · rw [Nat.mod_eq_of_lt h] at hput
    exact .inl ⟨h, hput⟩
  · have h' : bufsz ≤ s.getIndex + q.items.length := by omega
    rw [Nat.mod_eq_sub_mod h', Nat.mod_eq_of_lt (by omega)] at hput
    exact .inr ⟨h', by omega⟩

/-- The buffer is empty at the start. -/
theorem Holds.init {buffer : Nat → UInt8} (h2 : 2 ≤ bufsz) (hlt : bufsz < 2 ^ 16) :
    Holds (opened buffer bufsz) (empty : Pending bufsz mode) where
  size_eq := rfl
  two_le := h2
  lt := hlt
  get_lt := by
    change 0 < bufsz
    omega
  put_eq := (Nat.zero_mod bufsz).symm
  items_eq := rfl
  full h := by cases h
  not_full _ h := by
    rw [empty, List.length_nil] at h
    omega

-- Characters -----------------------------------------------------------------

/-- An index goes around in 16 bits. -/
theorem step_index {i : Nat} (hlt : bufsz < 2 ^ 16) (hi : i < bufsz) :
    (if bufsz ≤ u16 (i + 1) then 0 else u16 (i + 1)) = (i + 1) % bufsz := by
  rw [u16_of_lt (by omega)]
  by_cases h : bufsz ≤ i + 1
  · rw [if_pos h, show i + 1 = bufsz by omega, Nat.mod_self]
  · rw [if_neg h, Nat.mod_eq_of_lt (by omega)]

theorem force_one {cap : Nat} (q : BoundedFifo UInt8 cap) (hcap : 0 < cap) (ch : UInt8) :
    (q.force [ch]).items = q.items.drop (q.items.length + 1 - cap) ++ [ch] :=
  lastOf_append hcap

theorem rxChar_holds {q : Pending bufsz .int} (H : Holds s q) (ch : UInt8) :
    Holds (s.rxChar ch) (q.force [ch]) := by
  have h2 := H.two_le
  have hlt := H.lt
  have hget := H.get_lt
  have hput := H.put_lt
  have hfits : q.items.length ≤ bufsz - 1 := q.fits
  have hforce : (q.force [ch]).items = q.items.drop (q.items.length + 1 - (bufsz - 1)) ++ [ch] :=
    force_one q (show 0 < bufsz - 1 by omega) ch
  have hstart : s.putIndex = (s.getIndex + q.items.length) % bufsz := H.put_eq
  have hback := @read_push_back _ s.buffer bufsz s.getIndex s.putIndex q.items.length ch
    (by omega) hstart
  rw [H.items_eq] at hback
  have hnext : (s.putIndex + 1) % bufsz = (s.getIndex + (q.items.length + 1)) % bufsz := by
    rw [hstart, Nat.mod_add_mod, Nat.add_assoc]
  rw [rxChar, H.size_eq]
  dsimp only
  rw [step_index hlt hput, step_index hlt hget, hnext]
  by_cases hroom : q.items.length = bufsz - 1
  · -- no room: the oldest character goes
    have hmeet : (s.getIndex + (q.items.length + 1)) % bufsz = s.getIndex := by
      rw [hroom, Nat.sub_add_cancel (by omega), Nat.add_mod_right, Nat.mod_eq_of_lt hget]
    have hitems : (q.force [ch]).items = (q.items ++ [ch]).drop 1 := by
      rw [hforce, hroom, Nat.add_sub_cancel_left, List.drop_append_of_le_length (by omega)]
    have hlen : (q.force [ch]).items.length = bufsz - 1 := by
      rw [hitems, List.length_drop, List.length_append, List.length_singleton]
      omega
    rw [hmeet, if_pos rfl]
    refine ⟨rfl, h2, hlt, Nat.mod_lt _ (by omega), ?_, ?_, ?_, by rintro ⟨⟩⟩
    · dsimp only
      rw [hlen, Nat.mod_add_mod, Nat.add_assoc, Nat.add_sub_cancel' (by omega), Nat.add_mod_right,
        Nat.mod_eq_of_lt hget]
    · dsimp only
      rw [hlen, read_mod, hitems, ← hback, drop_read (by omega), hroom, Nat.add_sub_cancel]
    · exact fun _ => ⟨List.ne_nil_of_length_pos (by omega), by rintro ⟨⟩⟩
  · have hapart : (s.getIndex + (q.items.length + 1)) % bufsz ≠ s.getIndex := by
      have hne := @mod_ne bufsz s.getIndex 0 (q.items.length + 1) (by omega) (by omega)
      rw [Nat.add_zero, Nat.mod_eq_of_lt hget] at hne
      exact hne.symm
    have hitems : (q.force [ch]).items = q.items ++ [ch] := by
      rw [hforce, Nat.sub_eq_zero_of_le (by omega), List.drop_zero]
    have hlen : (q.force [ch]).items.length = q.items.length + 1 := by
      rw [hitems, List.length_append, List.length_singleton]
    rw [if_neg hapart]
    refine ⟨rfl, h2, hlt, hget, ?_, ?_, ?_, by rintro ⟨⟩⟩
    · rw [hlen]
    · dsimp only
      rw [hlen, hitems, hback]
    · exact fun _ => ⟨List.ne_nil_of_length_pos (by omega), by rintro ⟨⟩⟩

/-- The characters of one interrupt. -/
theorem rxChars_holds (chars : List UInt8) :
    ∀ {s : SerialRxFifo} {q : Pending bufsz .int}, Holds s q →
      Holds (chars.foldl rxChar s) (q.force chars) := by
  induction chars with
  | nil =>
    intro s q H
    have hnone : q.force [] = q := by
      ext1
      exact (congrArg (lastOf _) (List.append_nil _)).trans (lastOf_of_le q.fits)
    rw [hnone]
    exact H
  | cons ch chars ih =>
    intro s q H
    have hone : (q.force [ch]).force chars = q.force (ch :: chars) := by
      rw [force_force, List.singleton_append]
    rw [List.foldl_cons, ← hone]
    exact ih (rxChar_holds H ch)

theorem rxInd_holds {q : Pending bufsz .int} (H : Holds s q) (chars : List UInt8) :
    SerialRxOut.indicate (s.rxInd chars).1 = q.answer (.rxInd chars) ∧
      Holds (s.rxInd chars).2 (q.force chars) := by
  have H' := rxChars_holds chars H
  refine ⟨?_, H'⟩
  have hlen : (if (chars.foldl rxChar s).getIndex ≤ (chars.foldl rxChar s).putIndex then
      (chars.foldl rxChar s).putIndex - (chars.foldl rxChar s).getIndex
      else (chars.foldl rxChar s).bufsz -
        ((chars.foldl rxChar s).getIndex - (chars.foldl rxChar s).putIndex)) =
      (q.force chars).items.length := by
    have h2 := H'.two_le
    have hget := H'.get_lt
    have hfits : (q.force chars).items.length ≤ bufsz - 1 := (q.force chars).fits
    rw [H'.size_eq]
    rcases H'.cases with ⟨-, hput⟩ | ⟨-, hput⟩
    · rw [if_pos (by omega), hput, Nat.add_sub_cancel_left]
    · rw [if_neg (by omega)]
      omega
  rw [rxInd]
  dsimp only
  rw [hlen, Pending.answer]
  by_cases hnil : (q.force chars).items = []
  · rw [hnil, if_neg (by simp), if_pos rfl]
  · rw [if_pos (by rwa [ne_eq, List.length_eq_zero_iff]), if_neg hnil]

theorem intRx_holds {q : Pending bufsz .int} (H : Holds s q) :
    s.intRx.1 = q.items.head? ∧ Holds s.intRx.2 (q.drop 1) := by
  have h2 := H.two_le
  have hget := H.get_lt
  have hfits : q.items.length ≤ bufsz - 1 := q.fits
  rw [intRx]
  cases hitems : q.items with
  | nil =>
    have hput := H.put_eq
    rw [hitems, List.length_nil, Nat.add_zero, Nat.mod_eq_of_lt hget] at hput
    have hflag : s.isFull = false := by
      by_contra hfull
      exact (H.full (by simpa using hfull)).1 hitems
    have hnone : q.drop 1 = q := by
      ext1
      change q.items.drop 1 = q.items
      rw [hitems]
      rfl
    rw [if_pos ⟨hput.symm, hflag⟩, hnone]
    exact ⟨rfl, H⟩
  | cons ch items =>
    have hlen : q.items.length = items.length + 1 := by rw [hitems, List.length_cons]
    have hapart : s.getIndex ≠ s.putIndex := by
      rcases H.cases with ⟨-, hput⟩ | ⟨-, hput⟩ <;> omega
    have hread := H.items_eq
    rw [hlen, read_succ, hitems, List.cons.injEq, Nat.mod_eq_of_lt hget] at hread
    rw [if_neg fun h => hapart h.1, H.size_eq]
    dsimp only
    rw [step_index H.lt hget]
    have hdrop : (q.drop 1).items = items := by
      change q.items.drop 1 = items
      rw [hitems]
      rfl
    refine ⟨by rw [hread.1]; rfl, rfl, h2, H.lt, Nat.mod_lt _ (by omega), ?_, ?_, ?_, ?_⟩
    · rw [hdrop, H.put_eq, hlen, Nat.mod_add_mod, Nat.add_assoc, Nat.add_comm 1]
    · dsimp only
      rw [hdrop, read_mod, hread.2]
    · rintro ⟨⟩
    · rintro ⟨⟩

-- Blocks ---------------------------------------------------------------------

theorem wrap_index {i : Nat} (hi : i < 2 * bufsz) :
    i % bufsz = if bufsz ≤ i then i - bufsz else i := by
  by_cases h : bufsz ≤ i
  · rw [if_pos h, Nat.mod_eq_sub_mod h, Nat.mod_eq_of_lt (by omega)]
  · rw [if_neg h, Nat.mod_eq_of_lt (by omega)]

theorem Holds.full_iff {q : Pending bufsz .dma} (H : Holds s q) :
    s.isFull = true ↔ q.items.length = bufsz :=
  ⟨fun h => (H.full h).2 rfl, H.not_full rfl⟩

theorem Holds.calcRecvedLen_eq {q : Pending bufsz .dma} (H : Holds s q) :
    s.calcRecvedLen = q.items.length := by
  have hget := H.get_lt
  have hle := H.le
  rw [calcRecvedLen, H.size_eq]
  rcases H.cases with ⟨hlt, hput⟩ | ⟨hge, hput⟩
  · have hflag : ¬s.isFull = true := fun h => by
      have := H.full_iff.1 h
      omega
    by_cases hzero : q.items.length = 0
    · rw [if_pos (by omega), if_neg hflag, hzero]
    · rw [if_neg (by omega), if_pos (by omega), hput, Nat.add_sub_cancel_left]
  · by_cases hall : q.items.length = bufsz
    · rw [if_pos (by omega), if_pos (H.full_iff.2 hall), hall]
    · rw [if_neg (by omega), if_neg (by omega)]
      omega

/-- `rt_dma_recv_update_put_index`, for every relation of the two indices and the length: the
buffer is full if the queue and the block do not leave a place. -/
theorem Holds.updatePutIndex_eq {q : Pending bufsz .dma} (H : Holds s q) (m : Nat → UInt8)
    {len : Nat} (hlen : len ≤ bufsz) (hfits : s.putIndex + len < 2 ^ 16) :
    updatePutIndex { s with buffer := m } len =
      { buffer := m
        putIndex := (s.putIndex + len) % bufsz
        getIndex :=
          if bufsz ≤ q.items.length + len then (s.putIndex + len) % bufsz else s.getIndex
        isFull := decide (bufsz ≤ q.items.length + len)
        bufsz := bufsz } := by
  have hget := H.get_lt
  have hle := H.le
  have hput := H.put_lt
  have hfull := H.full_iff
  rw [updatePutIndex]
  dsimp only
  rw [u16_of_lt hfits, H.size_eq, wrap_index (by omega)]
  rcases H.cases with ⟨hlt, hpos⟩ | ⟨hge, hpos⟩
  · -- the queue lies in one piece
    have hflag : s.isFull = false := by
      rw [Bool.eq_false_iff]
      intro h
      have := hfull.1 h
      omega
    have hord : s.getIndex ≤ s.putIndex := by omega
    by_cases hend : bufsz ≤ s.putIndex + len
    · by_cases hover : bufsz ≤ q.items.length + len
      · simp [hord, hend, hover, show s.getIndex ≤ s.putIndex + len - bufsz by omega]
      · simp [hord, hend, hover, show ¬s.getIndex ≤ s.putIndex + len - bufsz by omega, hflag]
    · simp [hord, hend, show ¬bufsz ≤ q.items.length + len by omega, hflag]
  · by_cases hall : q.items.length = bufsz
    · -- the buffer is full
      have hflag : s.isFull = true := hfull.2 hall
      have hord : s.getIndex ≤ s.putIndex := by omega
      have hover : bufsz ≤ q.items.length + len := by omega
      by_cases hend : bufsz ≤ s.putIndex + len
      · by_cases hpast : s.getIndex ≤ s.putIndex + len - bufsz
        · simp [hord, hend, hpast, hover]
        · simp [hord, hend, hpast, hover, hflag]
      · simp [hord, hend, hover, hflag]
    · -- it goes around the end
      have hflag : s.isFull = false := by
        rw [Bool.eq_false_iff]
        exact fun h => hall (hfull.1 h)
      have hord : ¬s.getIndex ≤ s.putIndex := by omega
      by_cases hover : bufsz ≤ q.items.length + len
      · have hreach : s.getIndex ≤ s.putIndex + len := by omega
        by_cases hend : bufsz ≤ s.putIndex + len
        · simp [hord, hreach, hend, hover]
        · simp [hord, hreach, hend, hover]
      · simp [hord, hover, show ¬s.getIndex ≤ s.putIndex + len by omega,
          show ¬bufsz ≤ s.putIndex + len by omega, hflag]

theorem rxDmaDone_holds {q : Pending bufsz .dma} (H : Holds s q) {bytes : List UInt8}
    (hlen : bytes.length ≤ bufsz) (hfits : s.putIndex + bytes.length < 2 ^ 16) :
    (s.rxDmaDone bytes).1 = (q.force bytes).items.length ∧
      Holds (s.rxDmaDone bytes).2 (q.force bytes) := by
  have h2 := H.two_le
  have hput := H.put_lt
  have hstart : (s.getIndex + q.items.length) % bufsz = s.putIndex := H.put_eq.symm
  have hholds : Holds (s.rxDmaDone bytes).2 (q.force bytes) := by
    have hforce : (q.force bytes).items =
        q.items.drop (q.items.length + bytes.length - bufsz) ++ bytes := lastOf_append hlen
    have hitems := H.items_eq
    change Holds (updatePutIndex { s with buffer := write s.buffer s.bufsz s.putIndex bytes }
      bytes.length) _
    rw [H.updatePutIndex_eq _ hlen hfits, H.size_eq]
    by_cases hover : bufsz ≤ q.items.length + bytes.length
    · -- the block takes all places that are left, and the oldest bytes
      have hcount : (q.force bytes).items.length = bufsz := by
        rw [hforce, List.length_append, List.length_drop]
        omega
      rw [if_pos hover]
      refine ⟨rfl, h2, H.lt, Nat.mod_lt _ (by omega), ?_, ?_, fun _ => ⟨?_, fun _ => hcount⟩, ?_⟩
      · dsimp only
        rw [hcount, Nat.add_mod_right, Nat.mod_mod]
      · dsimp only
        rw [hcount, read_mod, read_overwrite hput hstart hlen hover, hitems, hforce]
      · exact List.ne_nil_of_length_pos (by omega)
      · exact fun _ _ => decide_eq_true hover
    · have hplain : (q.force bytes).items = q.items ++ bytes := by
        rw [hforce, Nat.sub_eq_zero_of_le (by omega), List.drop_zero]
      have hcount : (q.force bytes).items.length = q.items.length + bytes.length := by
        rw [hplain, List.length_append]
      rw [if_neg hover]
      refine ⟨rfl, h2, H.lt, H.get_lt, ?_, ?_, fun h => ?_, fun _ h => ?_⟩
      · dsimp only
        rw [hcount, ← hstart, Nat.mod_add_mod, Nat.add_assoc]
      · dsimp only
        rw [hcount, read_write_append hput hstart (by omega), hitems, hplain]
      · exact absurd (of_decide_eq_true h) hover
      · omega
  exact ⟨hholds.calcRecvedLen_eq, hholds⟩

theorem Holds.updateGetIndex_eq {q : Pending bufsz .dma} (H : Holds s q) {len : Nat}
    (hlen : len ≤ q.items.length) (hfits : s.getIndex + len < 2 ^ 16) :
    s.updateGetIndex len = .ok { s with
      getIndex := (s.getIndex + len) % bufsz, isFull := s.isFull && decide (len = 0) } := by
  have hindex : (if bufsz ≤ u16 (s.getIndex + len) then u16 (s.getIndex + len) % bufsz
      else u16 (s.getIndex + len)) = (s.getIndex + len) % bufsz := by
    rw [u16_of_lt hfits]
    by_cases h : bufsz ≤ s.getIndex + len
    · rw [if_pos h]
    · rw [if_neg h, Nat.mod_eq_of_lt (by omega)]
  rw [updateGetIndex, H.calcRecvedLen_eq, rtAssert_bind hlen, H.size_eq]
  dsimp only
  rw [hindex]
  rfl

theorem dmaRx_holds {q : Pending bufsz .dma} (H : Holds s q) {length : Int} (hpos : 0 ≤ length)
    (hfits : s.getIndex + min length.toNat q.items.length < 2 ^ 16) :
    ∃ s', s.dmaRx length = .ok (q.items.take length.toNat, s') ∧
      Holds s' (q.drop length.toNat) := by
  obtain ⟨n, rfl⟩ := Int.eq_ofNat_of_zero_le hpos
  rw [Int.toNat_natCast] at hfits ⊢
  have h2 := H.two_le
  have hlt := H.lt
  have hget := H.get_lt
  have hle := H.le
  have hitems := H.items_eq
  have hcount : (q.drop n).items.length = q.items.length - n := List.length_drop
  set k := min n q.items.length with hk
  have hrecv : (if (n : Int) < s.calcRecvedLen then ((n : Int) % 2 ^ 32).toNat
      else s.calcRecvedLen) = k := by
    rw [H.calcRecvedLen_eq]
    by_cases h : n < q.items.length
    · rw [if_pos (by exact_mod_cast h), Int.emod_eq_of_lt hpos (by omega), Int.toNat_natCast]
      omega
    · rw [if_neg (by exact_mod_cast h)]
      omega
  have hdata : (if s.getIndex + k < bufsz then slice s.buffer s.getIndex k
      else slice s.buffer s.getIndex (bufsz - s.getIndex) ++
        slice s.buffer 0 (k + s.getIndex - bufsz)) = q.items.take n := by
    have htake : q.items.take n = read s.buffer bufsz s.getIndex k := by
      rw [← take_read (show k ≤ q.items.length by omega), hitems, hk]
      exact List.take_eq_take_min
    by_cases h : s.getIndex + k < bufsz
    · rw [if_pos h, htake, read_straight (by omega)]
    · rw [if_neg h, htake, read_wrapped hget (by omega) (by omega),
        show k - (bufsz - s.getIndex) = k + s.getIndex - bufsz by omega]
  have hread : s.dmaRx n = .ok (q.items.take n,
      { s with getIndex := (s.getIndex + k) % bufsz, isFull := s.isFull && decide (k = 0) }) := by
    rw [dmaRx, hrecv, H.updateGetIndex_eq (show k ≤ q.items.length by omega) hfits, H.size_eq,
      if_neg (by omega), hdata]
    rfl
  refine ⟨_, hread, H.size_eq, h2, hlt, Nat.mod_lt _ (by omega), ?_, ?_, fun h => ?_, fun _ h => ?_⟩
  · dsimp only
    rw [hcount, H.put_eq, Nat.mod_add_mod]
    congr 1
    omega
  · dsimp only
    rw [hcount, read_mod]
    change _ = q.items.drop n
    by_cases h : n ≤ q.items.length
    · rw [← hitems, length_read, drop_read h, show k = n by omega]
    · rw [Nat.sub_eq_zero_of_le (by omega), read_zero, List.drop_of_length_le (by omega)]
  · obtain ⟨hfull, hzero⟩ := Bool.and_eq_true_iff.1 h
    have hall := H.full_iff.1 hfull
    have hn : n = 0 := by
      have := of_decide_eq_true hzero
      omega
    subst hn
    exact ⟨List.ne_nil_of_length_pos (by omega), fun _ => by omega⟩
  · rw [hcount] at h
    rw [H.full_iff.2 (by omega), Bool.true_and]
    exact decide_eq_true (by omega)

-- --------
-- Runs
-- --------

/-- One step of the device. -/
theorem exec_holds (H : Holds s q) {a : SerialRxAct} (hallowed : Allowed bufsz mode a)
    (hfits : Fits (s, q) a) : ∃ s', s.exec a = .ok (q.answer a, s') ∧ Holds s' (q.next s a) := by
  cases a with
  | rxInd chars =>
    cases mode with
    | int =>
      obtain ⟨hout, H'⟩ := rxInd_holds H chars
      exact ⟨_, congrArg (fun out => Except.ok (out, (s.rxInd chars).2)) hout, H'⟩
    | dma => exact hallowed.elim
  | readChar =>
    cases mode with
    | int =>
      obtain ⟨hout, H'⟩ := intRx_holds H
      exact ⟨_, congrArg (fun ch => Except.ok (SerialRxOut.char ch, s.intRx.2)) hout, H'⟩
    | dma => exact hallowed.elim
  | rxDmaDone bytes =>
    cases mode with
    | int => exact hallowed.elim
    | dma =>
      obtain ⟨hout, H'⟩ := rxDmaDone_holds H hallowed hfits
      exact ⟨_, congrArg (fun n => Except.ok (SerialRxOut.indicate (some n),
        (s.rxDmaDone bytes).2)) hout, H'⟩
  | dmaRead length =>
    cases mode with
    | int => exact hallowed.elim
    | dma =>
      obtain ⟨s', hread, H'⟩ := dmaRx_holds H hfits.1 hfits.2
      refine ⟨s', ?_, H'⟩
      rw [exec, hread]
      rfl

/-- **A step** does to the buffer what it does to the queue. -/
theorem Holds.step {a : SerialRxAct} {s' : SerialRxFifo} (H : Holds s q) (hfits : Fits (s, q) a)
    (hstep : Step mode s a s') : Holds s' (q.next s a) := by
  obtain ⟨hallowed, out, hexec⟩ := hstep
  rw [H.size_eq] at hallowed
  obtain ⟨s₁, h₁, H'⟩ := exec_holds H hallowed hfits
  rw [h₁] at hexec
  cases hexec
  exact H'

/-- The buffer is the queue in every state of a run. -/
theorem run_holds {buffer : Nat → UInt8} (h2 : 2 ≤ bufsz) (hlt : bufsz < 2 ^ 16)
    (hrun : Runs (Session bufsz mode) Fits (opened buffer bufsz, empty) (s, q)) : Holds s q := by
  refine @Runs.invariant _ _ _ _ _ _ (fun p => Holds p.1 p.2) ?_ hrun (Holds.init h2 hlt)
  rintro ⟨s, q⟩ a ⟨s', q'⟩ H hfits ⟨hstep, hq⟩
  obtain rfl : q' = q.next s a := hq
  exact H.step hfits hstep

/-- No index of a buffer of at most 32768 bytes leaves its 16 bits. -/
theorem Holds.fits (H : Holds s q) (hsmall : bufsz ≤ 2 ^ 15) {a : SerialRxAct}
    (hallowed : Allowed bufsz mode a) (hlength : ∀ length, a = .dmaRead length → 0 ≤ length) :
    Fits (s, q) a := by
  have hget := H.get_lt
  have hput := H.put_lt
  have hle := H.le
  cases a with
  | rxInd chars => trivial
  | readChar => trivial
  | rxDmaDone bytes =>
    cases mode with
    | int => exact hallowed.elim
    | dma =>
      have hlen : bytes.length ≤ bufsz := hallowed
      change s.putIndex + bytes.length < 2 ^ 16
      omega
  | dmaRead length =>
    refine ⟨hlength length rfl, ?_⟩
    change s.getIndex + min length.toNat q.items.length < 2 ^ 16
    omega

theorem run_step {buffer : Nat → UInt8} (h2 : 2 ≤ bufsz) (hsmall : bufsz ≤ 2 ^ 15)
    (hrun : Runs (Session bufsz mode) Fits (opened buffer bufsz, empty) (s, q)) {a : SerialRxAct}
    (hallowed : Allowed bufsz mode a) (hlength : ∀ length, a = .dmaRead length → 0 ≤ length) :
    ∃ s', Runs (Session bufsz mode) Fits (opened buffer bufsz, empty) (s', q.next s a) := by
  have H := run_holds h2 (by omega) hrun
  have hfits := H.fits hsmall hallowed hlength
  obtain ⟨s', hexec, -⟩ := exec_holds H hallowed hfits
  rw [← H.size_eq] at hallowed
  exact ⟨s', hrun.snoc hfits ⟨⟨hallowed, _, hexec⟩, rfl⟩⟩

/-- **The receive buffer is a queue of the newest bytes.** After every run of interrupts and reads
whose indices fit, the bytes kept are the queue's, and the next interrupt or read shows what the
queue says: a read a prefix of it, `rx_indicate` its length. -/
theorem serialRx_fifo {buffer : Nat → UInt8} (h2 : 2 ≤ bufsz) (hlt : bufsz < 2 ^ 16)
    (hrun : Runs (Session bufsz mode) Fits (opened buffer bufsz, empty) (s, q)) :
    read s.buffer bufsz s.getIndex q.items.length = q.items ∧
      ∀ a, Allowed bufsz mode a → Fits (s, q) a → ∃ s', s.exec a = .ok (q.answer a, s') := by
  have H := run_holds h2 hlt hrun
  refine ⟨H.items_eq, fun a hallowed hfits => ?_⟩
  obtain ⟨s', hexec, -⟩ := exec_holds H hallowed hfits
  exact ⟨s', hexec⟩

/-- Two blocks around a read, which leave the oldest pending byte overwritten. -/
theorem serialRx_fifo_blocks :
    ∃ (s : SerialRxFifo) (q : Pending 4 .dma),
      Runs (Session 4 .dma) Fits (opened (fun _ => 0) 4, empty) (s, q) ∧
        q.items = [3, 4, 5, 6] ∧ ∃ s', s.exec (.dmaRead 2) = .ok (.data [3, 4], s') := by
  obtain ⟨s₁, h₁⟩ := @run_step 4 .dma _ _ _ (by decide) (by decide)
    (Runs.refl : Runs (Session 4 .dma) Fits (opened (fun _ => 0) 4, empty) _)
    (.rxDmaDone [1, 2, 3]) (show 3 ≤ 4 by decide) (by rintro _ ⟨⟩)
  obtain ⟨s₂, h₂⟩ := @run_step 4 .dma _ _ _ (by decide) (by decide) h₁ (.dmaRead 1) trivial
    (by rintro _ ⟨⟩; decide)
  obtain ⟨s₃, h₃⟩ := @run_step 4 .dma _ _ _ (by decide) (by decide) h₂
    (.rxDmaDone [4, 5, 6]) (show 3 ≤ 4 by decide) (by rintro _ ⟨⟩)
  have hread := (serialRx_fifo (by decide) (by decide) h₃).2 (.dmaRead 2) trivial
    ((run_holds (by decide) (by decide) h₃).fits (by decide) trivial (by rintro _ ⟨⟩; decide))
  exact ⟨s₃, _, h₃, rfl, hread⟩

/-- 40000 bytes and then 30000 in a buffer of 65535: `put_index` becomes 70000 - 65536, and the
4464 bytes before it are all that is left of 65535 pending ones. -/
theorem serialRx_wrapped :
    ∃ p : SerialRxFifo × Pending 65535 .dma,
      Runs (Session 65535 .dma) Runs.always (opened (fun _ => 0) 65535, empty) p ∧
        ∃ a s', Allowed 65535 .dma a ∧ p.1.exec a = .ok (.indicate (some 4464), s') ∧
          p.2.answer a = .indicate (some 65535) := by
  obtain ⟨first, hfirst⟩ : ∃ bytes : List UInt8, bytes.length = 40000 :=
    ⟨List.replicate 40000 1, List.length_replicate⟩
  obtain ⟨second, hsecond⟩ : ∃ bytes : List UInt8, bytes.length = 30000 :=
    ⟨List.replicate 30000 2, List.length_replicate⟩
  have H : Holds (opened (fun _ => 0) 65535) (empty : Pending 65535 .dma) :=
    Holds.init (by decide) (by decide)
  set m := write (fun _ => 0) 65535 0 first with hm
  have hstate : ((opened (fun _ => 0) 65535).rxDmaDone first).2 =
      { buffer := m, putIndex := 40000, getIndex := 0, isFull := false, bufsz := 65535 } := by
    have hupdate := H.updatePutIndex_eq m (show first.length ≤ 65535 by omega)
      (show 0 + first.length < 2 ^ 16 by omega)
    rw [hfirst] at hupdate
    change updatePutIndex _ first.length = _
    rw [hfirst]
    exact hupdate.trans (by simp [empty, opened])
  have hexec : exec { buffer := m, putIndex := 40000, getIndex := 0, isFull := false,
                      bufsz := 65535 } (.rxDmaDone second) =
      .ok (.indicate (some 4464),
        { buffer := write m 65535 40000 second, putIndex := 4464, getIndex := 0, isFull := false,
          bufsz := 65535 }) := by
    simp [exec, rxDmaDone, hsecond, updatePutIndex, calcRecvedLen, u16]
  have hanswer : Pending.answer ((empty : Pending 65535 .dma).force first) (.rxDmaDone second) =
      .indicate (some 65535) := by
    have hlen : (((empty : Pending 65535 .dma).force first).force second).items.length =
        65535 := by
      rw [force_force, length_force, List.length_append, hfirst, hsecond]
      simp [empty, capacity]
    rw [Pending.answer, hlen]
  refine ⟨(_, _), @Runs.snoc _ _ _ _ _ _ _ (.rxDmaDone first) Runs.refl trivial
    ⟨⟨?_, _, congrArg (fun s => Except.ok (_, s)) hstate⟩, rfl⟩,
    .rxDmaDone second, _, ?_, hexec, hanswer⟩
  · change first.length ≤ 65535
    omega
  · change second.length ≤ 65535
    omega

end SerialRxFifo

end RTThread
