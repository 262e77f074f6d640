import RTThread.Rtdef
import RTThread.Lib.Deque
import RTThread.Lib.Ring
import RTThread.Lib.Runs
import RTThread.Drivers.DataQueue

/-!
# Audio replay (`components/drivers/audio/audio.c`)

A writer fills blocks of a memory pool and pushes them to a data queue; the end of a transmission
fills the next frame of the replay buffer from the queue and has it transmitted. A stop pushes the
block that is not full. A frame is put together from as many pieces as it takes, and what the
queue lacks is left zero.

When the queue runs empty in a frame, the position is moved back by the size of the last piece
only. `audioReplay_stream` shows that the frames are the bytes written, in order and padded, in
every run in which this happens behind the first piece, no position exceeds the 16 bits of
`position`, no write has 65536 bytes, and a stop that pushes a block does not meet a write: it
does not take the lock. `audioReplay_misplaced` is a run in which the position is wrong.

The data queue is the first-in first-out queue that it is shown to be in `DataQueue`. The lock of
the writers is part of the steps, the acknowledgement of a stop and the callbacks are left out.
-/

namespace RTThread

open Ring

/-- The sizes: those of `struct rt_audio_buf_info`, and `block_size` of `_audio_dev_write`, which
is `RT_AUDIO_REPLAY_MP_BLOCK_SIZE` as an `rt_uint16_t`. -/
structure AudioSizes where
  blockSize : Nat
  totalSize : Nat
  mpBlockSize : Nat
  block_pos : 0 < blockSize
  block_lt : blockSize < 2 ^ 16
  total_pos : 0 < totalSize
  total_lt : totalSize < 2 ^ 32
  dvd : blockSize ∣ totalSize
  mp_pos : 0 < mpBlockSize
  mp_lt : mpBlockSize < 2 ^ 16

/-- Where the loop of `_audio_dev_write` is. -/
inductive AudioStage
  /-- It requests a block from the memory pool. -/
  | alloc
  | copy
  /-- It has copied `remain_bytes`. -/
  | advance (remainBytes : Nat)
  /-- It has advanced the indices. -/
  | wrap
  | push
deriving DecidableEq

/-- The thread that holds the lock in `_audio_dev_write`. -/
structure AudioWriter where
  data : List UInt8
  index : Nat
  stage : AudioStage

/-- A thread in `_audio_flush_replay_frame` that found a block which is not full. -/
inductive AudioFlush
  | push (item : DataItem)
  | clear

/-- `struct rt_audio_replay`, with the blocks of its memory pool, and the calls. -/
structure AudioReplay where
  sizes : AudioSizes
  buffer : Nat → UInt8
  /-- The contents of each block. -/
  mem : Nat → Nat → UInt8
  /-- The free blocks. -/
  mp : List Nat
  queue : List DataItem
  writeData : Nat
  writeIndex : Nat
  readIndex : Nat
  pos : Nat
  writer : Option AudioWriter
  flushers : List AudioFlush

/-- What happens to a replay. -/
inductive AudioAct
  /-- A thread takes the lock in `_audio_dev_write`. -/
  | write (data : List UInt8)
  | alloc
  | copy
  | advance
  | wrap
  | push
  /-- A thread enters `_audio_flush_replay_frame`. -/
  | flush
  | flushPush (i : Nat)
  | flushClear (i : Nat)
  /-- `rt_audio_tx_complete` -/
  | txComplete

namespace AudioReplay

variable (s : AudioReplay)

/-- `CFG_AUDIO_REPLAY_QUEUE_COUNT` -/
def queueCount : Nat := 4

/-- The replay after `_audio_dev_open`. -/
def opened (sizes : AudioSizes) (buffer : Nat → UInt8) (mem : Nat → Nat → UInt8) (mp : List Nat) :
    AudioReplay where
  sizes := sizes
  buffer := buffer
  mem := mem
  mp := mp
  queue := []
  writeData := 0
  writeIndex := 0
  readIndex := 0
  pos := 0
  writer := none
  flushers := []

-- Writing

/-- The test of the loop of `_audio_dev_write`, and the test for a new block. -/
def loop (data : List UInt8) (index : Nat) : AudioReplay :=
  if index < data.length then
    if s.writeIndex % s.sizes.mpBlockSize = 0 then { s with writer := some ⟨data, index, .alloc⟩ }
    else { s with writer := some ⟨data, index, .copy⟩ }
  else { s with writer := none }

/-- `rt_mp_alloc` and `rt_memset`. -/
def allocBlock (w : AudioWriter) (block : Nat) (mp : List Nat) : AudioReplay :=
  { s with
    mp
    writeData := block
    mem := Function.update s.mem block
      (blit (s.mem block) 0 (List.replicate s.sizes.mpBlockSize 0))
    writer := some { w with stage := .copy } }

/-- The copy to the block. -/
def copyData (w : AudioWriter) : AudioReplay :=
  let remainBytes := u16 (min (s.sizes.mpBlockSize - s.writeIndex) (w.data.length - w.index))
  { s with
    mem := Function.update s.mem s.writeData
      (blit (s.mem s.writeData) s.writeIndex ((w.data.drop w.index).take remainBytes))
    writer := some { w with stage := .advance remainBytes } }

/-- The indices behind the copy. -/
def advanceIndex (w : AudioWriter) (remainBytes : Nat) : AudioReplay :=
  { s with
    writeIndex := u16 (s.writeIndex + remainBytes)
    writer := some { w with index := u16 (w.index + remainBytes), stage := .wrap } }

/-- The index of the block is reduced, and tested. -/
def wrapIndex (w : AudioWriter) : AudioReplay :=
  let writeIndex := s.writeIndex % s.sizes.mpBlockSize
  if writeIndex = 0 then { s with writeIndex, writer := some { w with stage := .push } }
  else { s with writeIndex }.loop w.data w.index

/-- `rt_data_queue_push`, if there is room. -/
def pushItem (item : DataItem) : Option AudioReplay :=
  (Deque.apply queueCount s.queue (.pushBack item)).map fun queue => { s with queue }

-- Replaying

/-- A copy to the replay buffer. -/
def store (pos : Nat) (data : List UInt8) : Except Fault AudioReplay :=
  if pos + data.length ≤ s.sizes.totalSize then .ok { s with buffer := blit s.buffer pos data }
  else .error .badPointer

/-- The loop of `_audio_send_replay_frame`, with its `index` and `remain_bytes`. -/
def copyFrame : Nat → AudioReplay → Nat → Nat → Except Fault AudioReplay
  | 0, _, _, _ => .error .divergence
  | fuel + 1, s, index, remainBytes =>
    if index < s.sizes.blockSize then
      match s.queue with
      | [] =>
        -- under run
        .ok { s with
          pos := (s.pos + 2 ^ 32 - remainBytes + s.sizes.blockSize) % 2 ^ 32 % s.sizes.totalSize
          readIndex := 0 }
      | item :: queue => do
        let remainBytes := u16 (min (s.sizes.blockSize - index)
          ((item.dataSize + 2 ^ 32 - s.readIndex) % 2 ^ 32))
        let s ← s.store s.pos (slice (s.mem item.dataPtr) s.readIndex remainBytes)
        let index := u16 (index + remainBytes)
        let readIndex := u16 (s.readIndex + remainBytes)
        let pos := (s.pos + remainBytes) % 2 ^ 32 % s.sizes.totalSize
        if readIndex = item.dataSize then
          -- free memory
          copyFrame fuel { s with pos, readIndex := 0, queue, mp := item.dataPtr :: s.mp } index
            remainBytes
        else copyFrame fuel { s with pos, readIndex } index remainBytes
    else .ok s

/-- `_audio_send_replay_frame`, with what it has transmitted. -/
def sendReplayFrame : Except Fault (List UInt8 × AudioReplay) := do
  let position := u16 s.pos
  let s' ← s.store s.pos (List.replicate s.sizes.blockSize 0)
  let s' ←
    match s.queue with
    | [] => .ok { s' with pos := (s'.pos + s.sizes.blockSize) % 2 ^ 32 % s.sizes.totalSize }
    | _ => copyFrame (s.queue.length + 1) s' 0 0
  return (slice s'.buffer position s.sizes.blockSize, s')

-- The steps

/-- The state an action leads to. -/
def exec (s : AudioReplay) : AudioAct → Option AudioReplay
  | .write data =>
    match s.writer with
    | none => some (s.loop data 0)
    | some _ => none
  | .alloc =>
    match s.writer, s.mp with
    | some ⟨data, index, .alloc⟩, block :: mp => some (s.allocBlock ⟨data, index, .alloc⟩ block mp)
    | _, _ => none
  | .copy =>
    match s.writer with
    | some ⟨data, index, .copy⟩ => some (s.copyData ⟨data, index, .copy⟩)
    | _ => none
  | .advance =>
    match s.writer with
    | some ⟨data, index, .advance n⟩ => some (s.advanceIndex ⟨data, index, .advance n⟩ n)
    | _ => none
  | .wrap =>
    match s.writer with
    | some ⟨data, index, .wrap⟩ => some (s.wrapIndex ⟨data, index, .wrap⟩)
    | _ => none
  | .push =>
    match s.writer with
    | some ⟨data, index, .push⟩ =>
      (s.pushItem ⟨s.writeData, s.sizes.mpBlockSize⟩).map fun s => s.loop data index
    | _ => none
  | .flush =>
    if s.writeIndex ≠ 0 then
      some { s with flushers := s.flushers ++ [.push ⟨s.writeData, s.writeIndex⟩] }
    else some s
  | .flushPush i =>
    match s.flushers[i]? with
    | some (.push item) =>
      (s.pushItem item).map fun s => { s with flushers := s.flushers.set i .clear }
    | _ => none
  | .flushClear i =>
    match s.flushers[i]? with
    | some .clear => some { s with writeIndex := 0, flushers := s.flushers.eraseIdx i }
    | _ => none
  | .txComplete => s.sendReplayFrame.toOption.map Prod.snd

-- --------
-- The stream
-- --------

/-- How many bytes the queue has. -/
def queued : Nat := (s.queue.map DataItem.dataSize).sum - s.readIndex

/-- The bytes of the next frame that come from the queue. -/
def taken : Nat := min s.sizes.blockSize s.queued

/-- What becomes of the bytes that have been written and not transmitted. -/
def next (pending : List UInt8) (s : AudioReplay) : AudioAct → List UInt8
  | .write data => pending ++ data
  | .txComplete => pending.drop s.taken
  | _ => pending

/-- The next frame: what the queue has, completed with zeros. -/
def frame (pending : List UInt8) : List UInt8 :=
  pending.take s.taken ++ List.replicate (s.sizes.blockSize - s.taken) 0

/-- The replay at work, with the bytes that are still to be transmitted. -/
abbrev Step := Runs.Observed (Runs.Exec exec) next

/-- **What a run has to keep to**: the sizes fit 16 bits, the queue does not run empty behind the
second piece of a frame, and a stop that pushes a block meets neither a write nor another one. -/
def Fits (p : AudioReplay × List UInt8) : AudioAct → Prop
  | .write data => data.length < 2 ^ 16 ∧ p.1.flushers = []
  | .flush => p.1.writeIndex = 0 ∨ (p.1.writer = none ∧ p.1.flushers = [])
  | .txComplete =>
    p.1.pos < 2 ^ 16 ∧ (p.1.sizes.blockSize ≤ p.1.queued ∨ p.1.queue.length ≤ 1)
  | _ => True

-- --------
-- A frame
-- --------

/-- The bytes of the items of a queue. -/
def queueBytes (mem : Nat → Nat → UInt8) (queue : List DataItem) : List UInt8 :=
  queue.flatMap fun item => slice (mem item.dataPtr) 0 item.dataSize

/-- What the queue still has to give. -/
def unread : List UInt8 := (queueBytes s.mem s.queue).drop s.readIndex

variable {s} {s' : AudioReplay}

theorem length_queueBytes (mem : Nat → Nat → UInt8) (queue : List DataItem) :
    (queueBytes mem queue).length = (queue.map DataItem.dataSize).sum := by
  simp [queueBytes, List.length_flatMap]

theorem length_unread : s.unread.length = s.queued := by
  rw [unread, List.length_drop, length_queueBytes, queued]

/-- The items are not empty, and the index is inside the first one. -/
structure Reading (s : AudioReplay) : Prop where
  sized : ∀ item ∈ s.queue, 0 < item.dataSize ∧ item.dataSize < 2 ^ 16
  read_nil : s.queue = [] → s.readIndex = 0
  read_lt : ∀ item, s.queue.head? = some item → s.readIndex < item.dataSize

/-- What a frame does to the rest of the replay: it takes `n` bytes from the queue, and gives back
the blocks it has emptied. -/
structure Takes (s s' : AudioReplay) (n : Nat) : Prop where
  same : s' = { s with
    buffer := s'.buffer, mp := s'.mp, queue := s'.queue, readIndex := s'.readIndex, pos := s'.pos }
  reading : Reading s'
  unread_eq : s'.unread = s.unread.drop n
  blocks : (s'.queue.map DataItem.dataPtr ++ s'.mp).Perm (s.queue.map DataItem.dataPtr ++ s.mp)

theorem store_ok {pos : Nat} {data : List UInt8} (h : pos + data.length ≤ s.sizes.totalSize) :
    s.store pos data = .ok { s with buffer := blit s.buffer pos data } := if_pos h

theorem Takes.refl (R : Reading s) : Takes s s 0 := ⟨rfl, R, rfl, .refl _⟩

theorem Takes.trans {s₁ s₂ s₃ : AudioReplay} {n m : Nat} (h : Takes s₁ s₂ n)
    (h' : Takes s₂ s₃ m) : Takes s₁ s₃ (n + m) where
  same := by
    rw [h'.same, h.same]
  reading := h'.reading
  unread_eq := by
    rw [h'.unread_eq, h.unread_eq, List.drop_drop]
  blocks := h'.blocks.trans h.blocks

theorem copyFrame_full {fuel index remainBytes : Nat} (h : index = s.sizes.blockSize) :
    copyFrame (fuel + 1) s index remainBytes = .ok s := by
  rw [copyFrame, if_neg (by omega)]

/-- **Under run**: the position is right if the last piece was the only one. -/
theorem copyFrame_empty {fuel index start : Nat} (hqueue : s.queue = [])
    (hindex : index < s.sizes.blockSize) (hpos : s.pos = start + index)
    (hend : start + s.sizes.blockSize ≤ s.sizes.totalSize) :
    copyFrame (fuel + 1) s index index =
      .ok { s with pos := (start + s.sizes.blockSize) % s.sizes.totalSize, readIndex := 0 } := by
  have hlt := s.sizes.total_lt
  rw [copyFrame, if_pos hindex, hqueue]
  dsimp only
  rw [hpos, show start + index + 2 ^ 32 - index + s.sizes.blockSize =
    start + s.sizes.blockSize + 2 ^ 32 by omega, Nat.add_mod_right, Nat.mod_eq_of_lt
    (show start + s.sizes.blockSize < 2 ^ 32 by omega)]

theorem unread_cons {item : DataItem} {queue : List DataItem} (R : Reading s)
    (hqueue : s.queue = item :: queue) :
    s.unread = slice (s.mem item.dataPtr) s.readIndex (item.dataSize - s.readIndex) ++
      queueBytes s.mem queue := by
  have hlt := R.read_lt item (by rw [hqueue]; rfl)
  rw [unread, hqueue, queueBytes, List.flatMap_cons, List.drop_append_of_le_length
    (by rw [length_slice]; omega), drop_slice (by omega), Nat.zero_add]
  rfl

/-- What a round makes of the replay buffer: the data, one more piece, and zeros. -/
theorem piece_spec {m : Nat → UInt8} {start index n : Nat} {data piece : List UInt8}
    (hdata : slice m start index = data)
    (hzero : slice m (start + index) (n - index) = List.replicate (n - index) 0)
    (hle : index + piece.length ≤ n) :
    slice (blit m (start + index) piece) start (index + piece.length) = data ++ piece ∧
      slice (blit m (start + index) piece) (start + (index + piece.length))
          (n - (index + piece.length)) = List.replicate (n - (index + piece.length)) 0 := by
  constructor
  · rw [slice_add, slice_blit_out (by omega), slice_blit rfl, hdata]
  · rw [slice_blit_out (by omega), ← Nat.add_assoc, ← Nat.sub_sub,
      ← drop_slice (show piece.length ≤ n - index by omega), hzero, List.drop_replicate]

/-- A round of the loop copies a piece of the first item. -/
theorem copyFrame_cons {fuel index remainBytes start r : Nat} {item : DataItem}
    {queue : List DataItem} (hqueue : s.queue = item :: queue)
    (hindex : index < s.sizes.blockSize) (hread : s.readIndex < item.dataSize)
    (hsize : item.dataSize < 2 ^ 16) (hpos : s.pos = start + index)
    (hend : start + s.sizes.blockSize ≤ s.sizes.totalSize)
    (hr : r = min (s.sizes.blockSize - index) (item.dataSize - s.readIndex)) :
    copyFrame (fuel + 1) s index remainBytes =
      if s.readIndex + r = item.dataSize then
        copyFrame fuel { s with
          buffer := blit s.buffer (start + index) (slice (s.mem item.dataPtr) s.readIndex r)
          pos := (start + (index + r)) % s.sizes.totalSize, readIndex := 0, queue := queue
          mp := item.dataPtr :: s.mp } (index + r) r
      else
        copyFrame fuel { s with
          buffer := blit s.buffer (start + index) (slice (s.mem item.dataPtr) s.readIndex r)
          pos := (start + (index + r)) % s.sizes.totalSize
          readIndex := s.readIndex + r } (index + r) r := by
  have hblock := s.sizes.block_lt
  have htotal := s.sizes.total_lt
  have hrem : u16 (min (s.sizes.blockSize - index)
      ((item.dataSize + 2 ^ 32 - s.readIndex) % 2 ^ 32)) = r := by
    rw [show item.dataSize + 2 ^ 32 - s.readIndex = item.dataSize - s.readIndex + 2 ^ 32 by
      omega, Nat.add_mod_right, Nat.mod_eq_of_lt (by omega), u16_of_lt (by omega), hr]
  have hpos' : (s.pos + r) % 2 ^ 32 % s.sizes.totalSize =
      (start + (index + r)) % s.sizes.totalSize := by
    rw [hpos, Nat.mod_eq_of_lt (show start + index + r < 2 ^ 32 by omega), Nat.add_assoc]
  conv_lhs => rw [copyFrame, if_pos hindex, hqueue]
  dsimp only
  rw [hrem, store_ok (by rw [length_slice]; omega)]
  change (if u16 (s.readIndex + r) = item.dataSize then _ else _ : Except Fault AudioReplay) = _
  rw [u16_of_lt (by omega), u16_of_lt (by omega), hpos', ← hpos]

/-- **The loop** puts together the rest of a frame that begins at `start`. The queue has enough for
it, or has one piece, or has run empty behind the first piece. -/
theorem copyFrame_spec {start : Nat} (queue : List DataItem) :
    ∀ {fuel : Nat} {s : AudioReplay} {index remainBytes : Nat} {data : List UInt8},
      s.queue = queue → queue.length < fuel → Reading s →
      start + s.sizes.blockSize ≤ s.sizes.totalSize → index ≤ s.sizes.blockSize →
      s.pos = (start + index) % s.sizes.totalSize → slice s.buffer start index = data →
      slice s.buffer (start + index) (s.sizes.blockSize - index) =
        List.replicate (s.sizes.blockSize - index) 0 →
      s.sizes.blockSize ≤ index + s.queued ∨ (queue = [] ∧ remainBytes = index) ∨
        (queue.length = 1 ∧ index = 0) →
      ∃ s', copyFrame fuel s index remainBytes = .ok s' ∧
        Takes s s' (min (s.sizes.blockSize - index) s.queued) ∧
        s'.pos = (start + s.sizes.blockSize) % s.sizes.totalSize ∧
        slice s'.buffer start s.sizes.blockSize =
          data ++ s.unread.take (min (s.sizes.blockSize - index) s.queued) ++
            List.replicate (s.sizes.blockSize - index - s.queued) 0 := by
  induction queue with
  | nil =>
    intro fuel s index remainBytes data hqueue hfuel R hend hindex hpos hdata hzero hrun
    obtain ⟨fuel, rfl⟩ : ∃ k, fuel = k + 1 := ⟨fuel - 1, by omega⟩
    have hnone : s.queued = 0 := by rw [queued, hqueue, List.map_nil, List.sum_nil, Nat.zero_sub]
    have hunread : s.unread = [] := List.eq_nil_of_length_eq_zero (length_unread.trans hnone)
    rw [hnone, Nat.min_zero, Nat.sub_zero, hunread, List.take_nil, List.append_nil, ← hdata,
      ← hzero, ← slice_add, Nat.add_sub_cancel' hindex]
    by_cases hlt : index < s.sizes.blockSize
    · obtain rfl : remainBytes = index := by
        rcases hrun with h | ⟨-, h⟩ | ⟨h, -⟩
        · omega
        · exact h
        · cases h
      rw [Nat.mod_eq_of_lt (by omega)] at hpos
      rw [copyFrame_empty hqueue hlt hpos hend]
      refine ⟨_, rfl, ⟨rfl, ⟨R.sized, fun _ => rfl, fun item h => ?_⟩, ?_, .refl _⟩, rfl, rfl⟩
      · change s.queue.head? = some item at h
        rw [hqueue] at h
        cases h
      · rw [hunread]
        change (queueBytes s.mem s.queue).drop 0 = []
        rw [hqueue]
        rfl
    · obtain rfl : index = s.sizes.blockSize := by omega
      exact ⟨s, copyFrame_full rfl, .refl R, hpos, rfl⟩
  | cons item queue ih =>
    intro fuel s index remainBytes data hqueue hfuel R hend hindex hpos hdata hzero hrun
    rw [List.length_cons] at hfuel hrun
    obtain ⟨fuel, rfl⟩ : ∃ k, fuel = k + 1 + 1 := ⟨fuel - 2, by omega⟩
    by_cases hlt : index < s.sizes.blockSize
    · have hread := R.read_lt item (by rw [hqueue]; rfl)
      have hsize := (R.sized item (by rw [hqueue]; exact List.mem_cons_self)).2
      rw [Nat.mod_eq_of_lt (by omega)] at hpos
      -- the piece that is copied
      set r := min (s.sizes.blockSize - index) (item.dataSize - s.readIndex) with hr
      set piece := slice (s.mem item.dataPtr) s.readIndex r with hpiece
      have hlen : piece.length = r := length_slice
      obtain ⟨hdata', hzero'⟩ := piece_spec hdata hzero (show index + piece.length ≤ _ by omega)
      rw [hlen] at hdata' hzero'
      have hunread := unread_cons R hqueue
      have hcount := congrArg List.length hunread
      rw [length_unread, List.length_append, length_slice] at hcount
      rw [copyFrame_cons hqueue hlt hread hsize hpos hend hr]
      by_cases hdone : s.readIndex + r = item.dataSize
      · -- the item is finished
        rw [if_pos hdone]
        set s₂ : AudioReplay := { s with
          buffer := blit s.buffer (start + index) piece
          pos := (start + (index + r)) % s.sizes.totalSize, readIndex := 0, queue := queue
          mp := item.dataPtr :: s.mp } with hs₂
        have hrest : s.unread = piece ++ s₂.unread := by
          rw [hunread, show item.dataSize - s.readIndex = r by omega]
          rfl
        have htakes : Takes s s₂ r := by
          refine ⟨rfl, ⟨fun x hx => R.sized x ?_, fun _ => rfl, fun x hx => ?_⟩, ?_, ?_⟩
          · rw [hqueue]
            exact List.mem_cons_of_mem _ hx
          · refine (R.sized x ?_).1
            rw [hqueue]
            exact List.mem_cons_of_mem _ (List.mem_of_mem_head? hx)
          · rw [hrest, List.drop_left' hlen]
          · rw [hqueue, List.map_cons, List.cons_append]
            exact List.perm_middle
        have hqueued : s.queued = r + s₂.queued := by
          rw [← length_unread, hrest, List.length_append, hlen, length_unread]
        obtain ⟨s', hcopy, htakes', hend', hslice⟩ := @ih (fuel + 1) s₂ (index + r) r
          (data ++ piece) rfl (by omega) htakes.reading hend (show _ ≤ s.sizes.blockSize by omega)
          rfl hdata' hzero' (by
            change s.sizes.blockSize ≤ _ ∨ _
            rcases hrun with h | ⟨h, -⟩ | ⟨h, hzero⟩
            · exact .inl (by omega)
            · cases h
            · exact .inr (.inl ⟨List.eq_nil_of_length_eq_zero (by omega), by omega⟩))
        change slice s'.buffer start s.sizes.blockSize = _ at hslice
        have hn : min (s.sizes.blockSize - index) s.queued =
            r + min (s₂.sizes.blockSize - (index + r)) s₂.queued := by
          change _ = r + min (s.sizes.blockSize - (index + r)) s₂.queued
          omega
        refine ⟨s', hcopy, hn ▸ htakes.trans htakes', hend', ?_⟩
        rw [hslice, hn, hrest, ← hlen, List.take_length_add_append, hlen, ← List.append_assoc]
        congr 2
        change s.sizes.blockSize - (index + r) - s₂.queued = _
        omega
      · -- the frame is finished
        rw [if_neg hdone]
        have hn : min (s.sizes.blockSize - index) s.queued = r := by omega
        have hfull : index + r = s.sizes.blockSize := by omega
        rw [copyFrame_full (by exact hfull), hn]
        refine ⟨_, rfl, ⟨rfl, ⟨R.sized, fun h => ?_, fun x hx => ?_⟩, ?_, .refl _⟩, ?_, ?_⟩
        · change s.queue = [] at h
          rw [hqueue] at h
          cases h
        · change s.queue.head? = some x at hx
          rw [hqueue] at hx
          cases hx
          change s.readIndex + r < item.dataSize
          omega
        · exact List.drop_drop.symm
        · dsimp only
          rw [hfull]
        · dsimp only
          rw [← hfull, hdata', hunread, List.take_append_of_le_length (by rw [length_slice]; omega),
            take_slice (by omega), show index + r - index - s.queued = 0 by omega,
            List.replicate_zero, List.append_nil]
    · obtain rfl : index = s.sizes.blockSize := by omega
      rw [Nat.sub_self, Nat.zero_min, List.take_zero, Nat.zero_sub, List.replicate_zero,
        List.append_nil, List.append_nil]
      exact ⟨s, copyFrame_full rfl, .refl R, hpos, hdata⟩

/-- **A frame**: the position moves on, and what is transmitted is what the queue has, padded. -/
theorem sendReplayFrame_spec {start : Nat} (R : Reading s) (hpos : s.pos = start)
    (hend : start + s.sizes.blockSize ≤ s.sizes.totalSize) (hfits : s.pos < 2 ^ 16)
    (hrun : s.sizes.blockSize ≤ s.queued ∨ s.queue.length ≤ 1) :
    ∃ s', s.sendReplayFrame = .ok (s.unread.take s.taken ++
        List.replicate (s.sizes.blockSize - s.taken) 0, s') ∧
      Takes s s' s.taken ∧ s'.pos = (start + s.sizes.blockSize) % s.sizes.totalSize := by
  have hlt := s.sizes.total_lt
  have hblock := s.sizes.block_pos
  have hstore : s.store s.pos (List.replicate s.sizes.blockSize 0) = .ok { s with
      buffer := blit s.buffer start (List.replicate s.sizes.blockSize 0) } := by
    rw [store_ok (by rw [List.length_replicate, hpos]; exact hend), hpos]
  set s₁ : AudioReplay :=
    { s with buffer := blit s.buffer start (List.replicate s.sizes.blockSize 0) } with hs₁
  have hzero : slice s₁.buffer start s.sizes.blockSize = List.replicate s.sizes.blockSize 0 :=
    slice_blit List.length_replicate.symm
  have htaken : s.taken = min (s.sizes.blockSize - 0) s₁.queued := rfl
  have hpad : s.sizes.blockSize - s.taken = s.sizes.blockSize - s.queued := by
    rw [taken]
    omega
  rw [sendReplayFrame, hstore]
  cases hqueue : s.queue with
  | nil =>
    have hnone : s.queued = 0 := by rw [queued, hqueue, List.map_nil, List.sum_nil, Nat.zero_sub]
    have hnot : s.taken = 0 := by rw [taken, hnone, Nat.min_zero]
    have hnext : (s.pos + s.sizes.blockSize) % 2 ^ 32 % s.sizes.totalSize =
        (start + s.sizes.blockSize) % s.sizes.totalSize := by
      rw [hpos, Nat.mod_eq_of_lt (show start + s.sizes.blockSize < 2 ^ 32 by omega)]
    refine ⟨{ s₁ with pos := (s.pos + s.sizes.blockSize) % 2 ^ 32 % s.sizes.totalSize }, ?_, ?_,
      hnext⟩
    · change Except.ok (slice s₁.buffer (u16 s.pos) s.sizes.blockSize, _) = _
      rw [u16_of_lt hfits, hpos, hzero, hnot, List.take_zero, List.nil_append, Nat.sub_zero]
    · rw [hnot]
      exact ⟨rfl, ⟨R.sized, R.read_nil, R.read_lt⟩, rfl, .refl _⟩
  | cons item queue =>
    have R₁ : Reading s₁ := ⟨R.sized, R.read_nil, R.read_lt⟩
    obtain ⟨s', hcopy, htakes, hend', hslice⟩ := @copyFrame_spec start (item :: queue)
      ((item :: queue).length + 1) s₁ 0 0 [] hqueue (Nat.lt_succ_self _) R₁ hend (Nat.zero_le _)
      (by
        change s.pos = (start + 0) % s.sizes.totalSize
        rw [Nat.add_zero, Nat.mod_eq_of_lt (by omega), hpos]) rfl hzero (by
        change s.sizes.blockSize ≤ 0 + s.queued ∨ _
        rcases hrun with h | h
        · exact .inl (by omega)
        · rw [hqueue, List.length_cons] at h
          exact .inr (.inr ⟨by rw [List.length_cons]; omega, rfl⟩))
    refine ⟨s', ?_, ⟨?_, htakes.reading, htakes.unread_eq, htakes.blocks⟩, hend'⟩
    · dsimp only
      change (copyFrame _ s₁ 0 0 >>= fun s' => .ok (slice s'.buffer (u16 s.pos)
        s.sizes.blockSize, s')) = _
      rw [hcopy, u16_of_lt hfits, hpos, hpad]
      change Except.ok (slice s'.buffer start s.sizes.blockSize, s') = _
      change slice s'.buffer start s.sizes.blockSize = _ at hslice
      rw [hslice]
      rfl
    · rw [htakes.same]

-- --------
-- The calls
-- --------

/-- The bytes of the block that is being filled. -/
def filled (n : Nat) : List UInt8 := slice (s.mem s.writeData) 0 n

/-- Where the calls are: whether the block belongs to them, what is in it, and what the write has
still to copy. -/
inductive Stage (s : AudioReplay) : Bool → List UInt8 → List UInt8 → Prop
  | idle (hwriter : s.writer = none) (hflush : s.flushers = [])
      (hlt : s.writeIndex < s.sizes.mpBlockSize) :
      Stage s (decide (s.writeIndex ≠ 0)) (s.filled s.writeIndex) []
  | alloc {data : List UInt8} {index : Nat} (hwriter : s.writer = some ⟨data, index, .alloc⟩)
      (hflush : s.flushers = []) (hzero : s.writeIndex = 0) (hindex : index < data.length)
      (hdata : data.length < 2 ^ 16) : Stage s false [] (data.drop index)
  | copy {data : List UInt8} {index : Nat} (hwriter : s.writer = some ⟨data, index, .copy⟩)
      (hflush : s.flushers = []) (hlt : s.writeIndex < s.sizes.mpBlockSize)
      (hindex : index < data.length) (hdata : data.length < 2 ^ 16) :
      Stage s true (s.filled s.writeIndex) (data.drop index)
  | advance {data : List UInt8} {index n : Nat}
      (hwriter : s.writer = some ⟨data, index, .advance n⟩) (hflush : s.flushers = [])
      (hlt : s.writeIndex < s.sizes.mpBlockSize) (hindex : index < data.length)
      (hdata : data.length < 2 ^ 16)
      (hn : n = min (s.sizes.mpBlockSize - s.writeIndex) (data.length - index))
      (hcopied : slice (s.mem s.writeData) s.writeIndex n = (data.drop index).take n) :
      Stage s true (s.filled s.writeIndex) (data.drop index)
  | wrap {data : List UInt8} {index : Nat} (hwriter : s.writer = some ⟨data, index, .wrap⟩)
      (hflush : s.flushers = []) (hpos : 0 < s.writeIndex)
      (hle : s.writeIndex ≤ s.sizes.mpBlockSize) (hindex : index ≤ data.length)
      (hdata : data.length < 2 ^ 16) :
      Stage s true (s.filled s.writeIndex) (data.drop index)
  | push {data : List UInt8} {index : Nat} (hwriter : s.writer = some ⟨data, index, .push⟩)
      (hflush : s.flushers = []) (hzero : s.writeIndex = 0) (hindex : index ≤ data.length)
      (hdata : data.length < 2 ^ 16) :
      Stage s true (s.filled s.sizes.mpBlockSize) (data.drop index)
  | flushPush (hwriter : s.writer = none)
      (hflush : s.flushers = [.push ⟨s.writeData, s.writeIndex⟩]) (hpos : 0 < s.writeIndex)
      (hlt : s.writeIndex < s.sizes.mpBlockSize) :
      Stage s true (s.filled s.writeIndex) []
  /-- The block is in the queue. -/
  | flushClear (hwriter : s.writer = none) (hflush : s.flushers = [.clear]) : Stage s false [] []

/-- The replay buffer and the queue are as they should be, wherever the calls are. -/
structure Sound (s : AudioReplay) : Prop where
  aligned : s.sizes.blockSize ∣ s.pos
  pos_lt : s.pos < s.sizes.totalSize
  reading : Reading s
  /-- No block is in two places. -/
  blocks : (s.queue.map DataItem.dataPtr ++ s.mp).Nodup

/-- The invariant of the replay. -/
structure Inv (s : AudioReplay) (pending : List UInt8) : Prop extends Sound s where
  stage : ∃ held block rest, Stage s held block rest ∧
    (held = true → s.writeData ∉ s.queue.map DataItem.dataPtr ++ s.mp) ∧
    pending = s.unread ++ block ++ rest

/-- The test of the loop of a write. -/
theorem loop_stage {data : List UInt8} {index : Nat} (hflush : s.flushers = [])
    (hlt : s.writeIndex < s.sizes.mpBlockSize) (hindex : index ≤ data.length)
    (hdata : data.length < 2 ^ 16) :
    Stage (s.loop data index) (decide (s.writeIndex ≠ 0)) (s.filled s.writeIndex)
      (data.drop index) := by
  rw [loop]
  by_cases hmore : index < data.length
  · rw [if_pos hmore, Nat.mod_eq_of_lt hlt]
    by_cases hzero : s.writeIndex = 0
    · have hnil : s.filled s.writeIndex = [] := by
        rw [hzero]
        rfl
      rw [if_pos hzero, decide_eq_false (not_not.2 hzero), hnil]
      exact .alloc rfl hflush hzero hmore hdata
    · rw [if_neg hzero, decide_eq_true hzero]
      exact .copy rfl hflush hlt hmore hdata
  · rw [if_neg hmore, List.drop_of_length_le (by omega)]
    exact .idle rfl hflush hlt

theorem loop_same (data : List UInt8) (index : Nat) :
    s.loop data index = { s with writer := (s.loop data index).writer } := by
  rw [loop]
  split
  · split <;> rfl
  · rfl

section Steps

variable {pending : List UInt8} {a : AudioAct}

/-- An item is pushed, if there is room. -/
theorem pushItem_spec {item : DataItem} (R : Reading s) (hpush : s.pushItem item = some s')
    (hpos : 0 < item.dataSize) (hlt : item.dataSize < 2 ^ 16) :
    s' = { s with queue := s.queue ++ [item] } ∧ Reading s' ∧
      s'.unread = s.unread ++ slice (s.mem item.dataPtr) 0 item.dataSize := by
  obtain ⟨queue, happly, rfl⟩ := Option.map_eq_some_iff.1 hpush
  obtain ⟨-, hqueue⟩ := Option.ite_none_right_eq_some.1 happly
  obtain rfl := Option.some.inj hqueue
  refine ⟨rfl, ⟨fun x hx => ?_, fun h => ?_, fun x hx => ?_⟩, ?_⟩
  · rcases List.mem_append.1 hx with hx | hx
    · exact R.sized x hx
    · obtain rfl := List.mem_singleton.1 hx
      exact ⟨hpos, hlt⟩
  · exact absurd h (List.append_ne_nil_of_right_ne_nil _ (List.cons_ne_nil _ _))
  · change (s.queue ++ [item]).head? = some x at hx
    change s.readIndex < x.dataSize
    cases hqueue : s.queue with
    | nil =>
      rw [hqueue] at hx
      cases hx
      rw [R.read_nil hqueue]
      exact hpos
    | cons y queue =>
      rw [hqueue] at hx
      exact R.read_lt x (by rw [hqueue]; exact hx)
  · have hle : s.readIndex ≤ (queueBytes s.mem s.queue).length := by
      cases hqueue : s.queue with
      | nil =>
        rw [R.read_nil hqueue]
        exact Nat.zero_le _
      | cons y queue =>
        have hlt := R.read_lt y (by rw [hqueue]; rfl)
        rw [length_queueBytes, List.map_cons, List.sum_cons]
        omega
    change (queueBytes s.mem (s.queue ++ [item])).drop s.readIndex = _
    rw [queueBytes, List.flatMap_append, List.flatMap_singleton]
    exact List.drop_append_of_le_length hle

theorem queueBytes_update {mem : Nat → Nat → UInt8} {block : Nat} {m : Nat → UInt8}
    {queue : List DataItem} (h : block ∉ queue.map DataItem.dataPtr) :
    queueBytes (Function.update mem block m) queue = queueBytes mem queue := by
  refine List.flatMap_congr fun item hitem => ?_
  have hne : item.dataPtr ≠ block := fun he => h (he ▸ List.mem_map_of_mem hitem)
  rw [Function.update_of_ne hne]

theorem Sound.keep (h : Sound s)
    (hsame : s' = { s with
      writeIndex := s'.writeIndex, writer := s'.writer, flushers := s'.flushers })
    (hstage : ∃ held block rest, Stage s' held block rest ∧
      (held = true → s.writeData ∉ s.queue.map DataItem.dataPtr ++ s.mp) ∧
      pending = s.unread ++ block ++ rest) : Inv s' pending := by
  obtain ⟨held, block, rest, hstage, hheld, hpending⟩ := hstage
  rw [hsame] at hstage ⊢
  exact ⟨⟨h.aligned, h.pos_lt, ⟨h.reading.sized, h.reading.read_nil, h.reading.read_lt⟩,
    h.blocks⟩, held, block, rest, hstage, hheld, hpending⟩

theorem Sound.loop {block : List UInt8} {index : Nat} (h : Sound s) (data : List UInt8)
    (hflush : s.flushers = []) (hlt : s.writeIndex < s.sizes.mpBlockSize)
    (hindex : index ≤ data.length) (hdata : data.length < 2 ^ 16)
    (hblock : block = s.filled s.writeIndex)
    (hheld : s.writeIndex ≠ 0 → s.writeData ∉ s.queue.map DataItem.dataPtr ++ s.mp) :
    Inv (s.loop data index) (s.unread ++ block ++ data.drop index) := by
  refine h.keep ?_ ⟨_, _, _, loop_stage hflush hlt hindex hdata,
    fun hh => hheld (of_decide_eq_true hh), by rw [hblock]⟩
  rw [loop_same]

theorem Inv.write {data : List UInt8} (h : Inv s pending) (hfits : Fits (s, pending) (.write data))
    (hwriter : s.writer = none) : Inv (s.loop data 0) (pending ++ data) := by
  obtain ⟨hdata, hflush⟩ := hfits
  obtain ⟨held, block, rest, hstage, hheld, hpending⟩ := h.stage
  cases hstage with
  | idle _ _ hlt =>
    have hloop := h.loop data hflush hlt (Nat.zero_le _) hdata rfl fun hne =>
      hheld (decide_eq_true hne)
    rw [hpending, List.append_nil]
    exact hloop
  | flushPush _ hf => cases hf.symm.trans hflush
  | flushClear _ hf => cases hf.symm.trans hflush
  | alloc hw | copy hw | advance hw | wrap hw | push hw => cases hw.symm.trans hwriter

theorem Inv.alloc {data : List UInt8} {index block : Nat} {mp : List Nat} (h : Inv s pending)
    (hwriter : s.writer = some ⟨data, index, .alloc⟩) (hmp : s.mp = block :: mp) :
    Inv (s.allocBlock ⟨data, index, .alloc⟩ block mp) pending := by
  obtain ⟨held, b, rest, hstage, -, hpending⟩ := h.stage
  cases hstage with
  | alloc hw hflush hzero hindex hdata =>
    cases hw.symm.trans hwriter
    have hblocks := h.blocks
    rw [hmp, List.nodup_middle, List.nodup_cons] at hblocks
    obtain ⟨hnot, hnodup⟩ := hblocks
    have hunread : (s.allocBlock ⟨data, index, .alloc⟩ block mp).unread = s.unread :=
      congrArg (List.drop s.readIndex)
        (queueBytes_update fun hm => hnot (List.mem_append_left _ hm))
    refine ⟨⟨h.aligned, h.pos_lt, ⟨h.reading.sized, h.reading.read_nil, h.reading.read_lt⟩,
      hnodup⟩, true, _, _, .copy rfl hflush ?_ hindex hdata, fun _ => hnot, ?_⟩
    · change s.writeIndex < _
      rw [hzero]
      exact s.sizes.mp_pos
    · rw [hpending, hunread]
      change _ = _ ++ slice _ 0 s.writeIndex ++ _
      rw [hzero]
      rfl
  | copy hw | advance hw | wrap hw | push hw => cases hw.symm.trans hwriter
  | idle hw | flushPush hw | flushClear hw => cases hw.symm.trans hwriter

theorem Inv.copy {data : List UInt8} {index : Nat} (h : Inv s pending)
    (hwriter : s.writer = some ⟨data, index, .copy⟩) :
    Inv (s.copyData ⟨data, index, .copy⟩) pending := by
  obtain ⟨held, b, rest, hstage, hheld, hpending⟩ := h.stage
  cases hstage with
  | copy hw hflush hlt hindex hdata =>
    cases hw.symm.trans hwriter
    have hnot := hheld rfl
    have hmp := s.sizes.mp_lt
    set n := min (s.sizes.mpBlockSize - s.writeIndex) (data.length - index) with hn
    have hlen : ((data.drop index).take n).length = n := by
      rw [List.length_take, List.length_drop]
      omega
    have hcopy : s.copyData ⟨data, index, .copy⟩ = { s with
        mem := Function.update s.mem s.writeData
          (blit (s.mem s.writeData) s.writeIndex ((data.drop index).take n))
        writer := some ⟨data, index, .advance n⟩ } := by
      rw [copyData]
      dsimp only
      rw [← hn, u16_of_lt (by omega)]
    rw [hcopy]
    have hunread : (queueBytes (Function.update s.mem s.writeData
        (blit (s.mem s.writeData) s.writeIndex ((data.drop index).take n))) s.queue).drop
        s.readIndex = s.unread :=
      congrArg (List.drop s.readIndex)
        (queueBytes_update fun hm => hnot (List.mem_append_left _ hm))
    refine ⟨⟨h.aligned, h.pos_lt, ⟨h.reading.sized, h.reading.read_nil, h.reading.read_lt⟩,
      h.blocks⟩, true, _, _, .advance rfl hflush hlt hindex hdata hn ?_, fun _ => hnot, ?_⟩
    · dsimp only
      rw [Function.update_self, slice_blit hlen.symm]
    · change _ = (queueBytes (Function.update s.mem s.writeData _) s.queue).drop s.readIndex ++
        slice (Function.update s.mem s.writeData _ s.writeData) 0 s.writeIndex ++ _
      rw [hpending, hunread, Function.update_self, slice_blit_out (by omega), filled]
  | alloc hw | advance hw | wrap hw | push hw => cases hw.symm.trans hwriter
  | idle hw | flushPush hw | flushClear hw => cases hw.symm.trans hwriter

theorem Inv.advance {data : List UInt8} {index n : Nat} (h : Inv s pending)
    (hwriter : s.writer = some ⟨data, index, .advance n⟩) :
    Inv (s.advanceIndex ⟨data, index, .advance n⟩ n) pending := by
  obtain ⟨held, b, rest, hstage, hheld, hpending⟩ := h.stage
  cases hstage with
  | advance hw hflush hlt hindex hdata hn hcopied =>
    cases hw.symm.trans hwriter
    have hmp := s.sizes.mp_lt
    have hnext : s.advanceIndex ⟨data, index, .advance n⟩ n = { s with
        writeIndex := s.writeIndex + n, writer := some ⟨data, index + n, .wrap⟩ } := by
      rw [advanceIndex]
      dsimp only
      rw [u16_of_lt (by omega), u16_of_lt (by omega)]
    rw [hnext]
    refine h.keep rfl ⟨true, _, _, .wrap rfl hflush ?_ ?_ ?_ hdata, hheld, ?_⟩
    · change 0 < s.writeIndex + n
      omega
    · change s.writeIndex + n ≤ s.sizes.mpBlockSize
      omega
    · omega
    · change _ = s.unread ++ slice (s.mem s.writeData) 0 (s.writeIndex + n) ++ _
      rw [hpending, slice_add, Nat.zero_add, hcopied, filled, List.append_assoc,
        List.append_assoc, List.append_assoc, ← List.drop_drop, List.take_append_drop]
  | alloc hw | copy hw | wrap hw | push hw => cases hw.symm.trans hwriter
  | idle hw | flushPush hw | flushClear hw => cases hw.symm.trans hwriter

theorem Inv.wrap {data : List UInt8} {index : Nat} (h : Inv s pending)
    (hwriter : s.writer = some ⟨data, index, .wrap⟩) :
    Inv (s.wrapIndex ⟨data, index, .wrap⟩) pending := by
  obtain ⟨held, b, rest, hstage, hheld, hpending⟩ := h.stage
  cases hstage with
  | wrap hw hflush hpos hle hindex hdata =>
    cases hw.symm.trans hwriter
    have hmp := s.sizes.mp_pos
    rw [wrapIndex]
    dsimp only
    by_cases hfull : s.writeIndex = s.sizes.mpBlockSize
    · -- the block is full
      rw [hfull, Nat.mod_self, if_pos rfl]
      refine h.keep rfl ⟨true, _, _, .push rfl hflush rfl hindex hdata, hheld, ?_⟩
      rw [hpending, hfull]
      rfl
    · have hlt : s.writeIndex < s.sizes.mpBlockSize := by omega
      rw [Nat.mod_eq_of_lt hlt, if_neg (by omega), hpending]
      exact h.loop data hflush hlt hindex hdata rfl fun _ => hheld rfl
  | alloc hw | copy hw | advance hw | push hw => cases hw.symm.trans hwriter
  | idle hw | flushPush hw | flushClear hw => cases hw.symm.trans hwriter

/-- An item is pushed that the calls have filled. -/
theorem Inv.pushItem {item : DataItem} {block rest : List UInt8} (h : Inv s pending)
    (hpush : s.pushItem item = some s') (hpos : 0 < item.dataSize) (hlt : item.dataSize < 2 ^ 16)
    (hnot : item.dataPtr ∉ s.queue.map DataItem.dataPtr ++ s.mp)
    (hblock : slice (s.mem item.dataPtr) 0 item.dataSize = block)
    (hpending : pending = s.unread ++ block ++ rest) :
    s' = { s with queue := s.queue ++ [item] } ∧ Sound s' ∧ pending = s'.unread ++ rest := by
  obtain ⟨rfl, R, hunread⟩ := pushItem_spec h.reading hpush hpos hlt
  refine ⟨rfl, ⟨h.aligned, h.pos_lt, R, ?_⟩, ?_⟩
  · change ((s.queue ++ [item]).map _ ++ s.mp).Nodup
    rw [List.map_append, List.append_assoc, List.map_singleton, List.singleton_append,
      List.nodup_middle, List.nodup_cons]
    exact ⟨hnot, h.blocks⟩
  · rw [hpending, hunread, hblock]

theorem Inv.push {data : List UInt8} {index : Nat} (h : Inv s pending)
    (hwriter : s.writer = some ⟨data, index, .push⟩)
    (hpush : s.pushItem ⟨s.writeData, s.sizes.mpBlockSize⟩ = some s') :
    Inv (s'.loop data index) pending := by
  obtain ⟨held, b, rest, hstage, hheld, hpending⟩ := h.stage
  cases hstage with
  | push hw hflush hzero hindex hdata =>
    cases hw.symm.trans hwriter
    obtain ⟨rfl, hsound, hpending⟩ := h.pushItem hpush s.sizes.mp_pos s.sizes.mp_lt (hheld rfl) rfl
      hpending
    have hloop := @Sound.loop _ [] _ hsound data hflush
      (by rw [hzero]; exact s.sizes.mp_pos) hindex hdata (by rw [hzero]; rfl)
      fun hne => absurd hzero hne
    rw [List.append_nil, ← hpending] at hloop
    exact hloop
  | alloc hw | copy hw | advance hw | wrap hw => cases hw.symm.trans hwriter
  | idle hw | flushPush hw | flushClear hw => cases hw.symm.trans hwriter

-- Stops

theorem Inv.flush (h : Inv s pending) (hfits : Fits (s, pending) .flush) (hne : s.writeIndex ≠ 0) :
    Inv { s with flushers := s.flushers ++ [.push ⟨s.writeData, s.writeIndex⟩] } pending := by
  obtain ⟨hwriter, hflush⟩ := hfits.resolve_left hne
  obtain ⟨held, b, rest, hstage, hheld, hpending⟩ := h.stage
  cases hstage with
  | idle _ _ hlt =>
    refine h.keep rfl ⟨true, _, _, .flushPush hwriter ?_ (Nat.pos_of_ne_zero hne) hlt, fun _ =>
      hheld (decide_eq_true hne), hpending⟩
    rw [hflush]
    rfl
  | flushPush _ hf => cases hf.symm.trans hflush
  | flushClear _ hf => cases hf.symm.trans hflush
  | alloc hw | copy hw | advance hw | wrap hw | push hw => cases hw.symm.trans hwriter

theorem Inv.flushPush {item : DataItem} {i : Nat} (h : Inv s pending)
    (hi : s.flushers[i]? = some (.push item)) (hpush : s.pushItem item = some s') :
    Inv { s' with flushers := s'.flushers.set i .clear } pending := by
  obtain ⟨held, b, rest, hstage, hheld, hpending⟩ := h.stage
  cases hstage with
  | flushPush hwriter hflush hpos hlt =>
    rw [hflush] at hi
    obtain ⟨rfl, rfl⟩ : i = 0 ∧ item = ⟨s.writeData, s.writeIndex⟩ := by
      cases i with
      | zero => exact ⟨rfl, by cases hi; rfl⟩
      | succ i => cases hi
    have hmp := s.sizes.mp_lt
    obtain ⟨rfl, hsound, hpending⟩ := h.pushItem hpush hpos (show s.writeIndex < _ by omega)
      (hheld rfl) rfl hpending
    refine hsound.keep rfl ⟨false, [], [], .flushClear hwriter ?_, by rintro ⟨⟩, ?_⟩
    · change s.flushers.set 0 .clear = _
      rw [hflush]
      rfl
    · exact hpending.trans (List.append_nil _).symm
  | idle _ hf | alloc _ hf | copy _ hf | advance _ hf | wrap _ hf | push _ hf | flushClear _ hf =>
    rw [hf] at hi
    cases i <;> cases hi

theorem Inv.flushClear {i : Nat} (h : Inv s pending) (hi : s.flushers[i]? = some .clear) :
    Inv { s with writeIndex := 0, flushers := s.flushers.eraseIdx i } pending := by
  obtain ⟨held, b, rest, hstage, -, hpending⟩ := h.stage
  cases hstage with
  | flushClear hwriter hflush =>
    rw [hflush] at hi
    obtain rfl : i = 0 := by
      cases i with
      | zero => rfl
      | succ i => cases hi
    refine h.keep rfl ⟨false, [], [], ?_, by rintro ⟨⟩, hpending⟩
    refine @Stage.idle { s with writeIndex := 0, flushers := s.flushers.eraseIdx 0 } hwriter ?_
      s.sizes.mp_pos
    dsimp only
    rw [hflush]
    rfl
  | idle _ hf | alloc _ hf | copy _ hf | advance _ hf | wrap _ hf | push _ hf | flushPush _ hf =>
    rw [hf] at hi
    cases i <;> cases hi

-- Frames

theorem Sound.fits (h : Sound s) : s.pos + s.sizes.blockSize ≤ s.sizes.totalSize := by
  obtain ⟨k, hk⟩ := h.aligned
  obtain ⟨n, hn⟩ := s.sizes.dvd
  have hlt := h.pos_lt
  rw [hk, hn] at hlt ⊢
  rw [← Nat.mul_succ]
  exact Nat.mul_le_mul_left _ (Nat.lt_of_mul_lt_mul_left hlt)

/-- The calls do not see a frame. -/
theorem Stage.takes {n : Nat} {held : Bool} {block rest : List UInt8} (h : Stage s held block rest)
    (ht : Takes s s' n) : Stage s' held block rest := by
  rw [ht.same]
  cases h with
  | idle hw hf hlt => exact .idle hw hf hlt
  | alloc hw hf hz hi hd => exact .alloc hw hf hz hi hd
  | copy hw hf hlt hi hd => exact .copy hw hf hlt hi hd
  | advance hw hf hlt hi hd hn hc => exact .advance hw hf hlt hi hd hn hc
  | wrap hw hf hp hle hi hd => exact .wrap hw hf hp hle hi hd
  | push hw hf hz hi hd => exact .push hw hf hz hi hd
  | flushPush hw hf hp hlt => exact .flushPush hw hf hp hlt
  | flushClear hw hf => exact .flushClear hw hf

/-- **A frame** is the next bytes, padded. -/
theorem Inv.txComplete (h : Inv s pending) (hfits : Fits (s, pending) .txComplete) :
    ∃ s', s.sendReplayFrame = .ok (s.frame pending, s') ∧ Inv s' (pending.drop s.taken) := by
  obtain ⟨held, block, rest, hstage, hheld, hpending⟩ := h.stage
  obtain ⟨s', hsend, htakes, hpos⟩ := sendReplayFrame_spec h.reading rfl h.fits hfits.1 hfits.2
  have hle : s.taken ≤ s.unread.length := by
    rw [length_unread]
    exact Nat.min_le_right _ _
  refine ⟨s', ?_, ⟨?_, ?_, htakes.reading, (htakes.blocks.nodup_iff).2 h.blocks⟩, held, block, rest,
    hstage.takes htakes, ?_, ?_⟩
  · rw [hsend, frame, hpending, List.append_assoc, List.take_append_of_le_length hle]
  · rw [hpos, htakes.same]
    exact (Nat.dvd_mod_iff s.sizes.dvd).2 (Nat.dvd_add h.aligned (Nat.dvd_refl _))
  · rw [hpos, htakes.same]
    exact Nat.mod_lt _ s.sizes.total_pos
  · intro hh hmem
    refine hheld hh (htakes.blocks.mem_iff.1 ?_)
    rw [htakes.same] at hmem
    exact hmem
  · rw [hpending, htakes.unread_eq, List.append_assoc, List.append_assoc,
      List.drop_append_of_le_length hle]

end Steps

-- --------
-- Runs
-- --------

/-- **Every step keeps the invariant.** -/
theorem Inv.step {pending : List UInt8} {a : AudioAct} (h : Inv s pending)
    (hok : Fits (s, pending) a) (hexec : s.exec a = some s') : Inv s' (next pending s a) := by
  cases a with
  | write data =>
    dsimp only [exec] at hexec
    split at hexec
    case h_1 hwriter =>
      cases hexec
      exact h.write hok hwriter
    case h_2 => cases hexec
  | alloc =>
    dsimp only [exec] at hexec
    split at hexec
    case h_1 hwriter hmp =>
      cases hexec
      exact h.alloc hwriter hmp
    case h_2 => cases hexec
  | copy =>
    dsimp only [exec] at hexec
    split at hexec
    case h_1 hwriter =>
      cases hexec
      exact h.copy hwriter
    case h_2 => cases hexec
  | advance =>
    dsimp only [exec] at hexec
    split at hexec
    case h_1 hwriter =>
      cases hexec
      exact h.advance hwriter
    case h_2 => cases hexec
  | wrap =>
    dsimp only [exec] at hexec
    split at hexec
    case h_1 hwriter =>
      cases hexec
      exact h.wrap hwriter
    case h_2 => cases hexec
  | push =>
    dsimp only [exec] at hexec
    split at hexec
    case h_1 hwriter =>
      obtain ⟨s₁, hpush, rfl⟩ := Option.map_eq_some_iff.1 hexec
      exact h.push hwriter hpush
    case h_2 => cases hexec
  | flush =>
    dsimp only [exec] at hexec
    split at hexec
    case isTrue hne =>
      cases hexec
      exact h.flush hok hne
    case isFalse =>
      cases hexec
      exact h
  | flushPush i =>
    dsimp only [exec] at hexec
    split at hexec
    case h_1 item hi =>
      obtain ⟨s₁, hpush, rfl⟩ := Option.map_eq_some_iff.1 hexec
      exact h.flushPush hi hpush
    case h_2 => cases hexec
  | flushClear i =>
    dsimp only [exec] at hexec
    split at hexec
    case h_1 hi =>
      cases hexec
      exact h.flushClear hi
    case h_2 => cases hexec
  | txComplete =>
    obtain ⟨s₁, hsend, hinv⟩ := h.txComplete hok
    dsimp only [exec] at hexec
    rw [hsend] at hexec
    cases hexec
    exact hinv

/-- Nothing is written when the replay is opened. -/
theorem opened_inv (sizes : AudioSizes) (buffer : Nat → UInt8) (mem : Nat → Nat → UInt8)
    {mp : List Nat} (hmp : mp.Nodup) : Inv (opened sizes buffer mem mp) [] where
  aligned := Nat.dvd_zero _
  pos_lt := sizes.total_pos
  reading := ⟨fun _ h => absurd h List.not_mem_nil, fun _ => rfl, fun _ h => by cases h⟩
  blocks := hmp
  stage := ⟨_, _, _, .idle rfl rfl sizes.mp_pos, fun h => absurd rfl (of_decide_eq_true h), rfl⟩

/-- **The frames are the bytes written.** In every run that keeps to the condition, the position is
one of a frame, and the next frame is inside the replay buffer and is made of the first bytes that
are pending, with zeros only for what the queue does not have. What is pending and not in the queue
is in a block that is not full, or in the hands of a call. -/
theorem audioReplay_stream {sizes : AudioSizes} {buffer : Nat → UInt8} {mem : Nat → Nat → UInt8}
    {mp : List Nat} (hmp : mp.Nodup) {pending : List UInt8}
    (hrun : Runs Step Fits (opened sizes buffer mem mp, []) (s, pending)) :
    s.pos % s.sizes.blockSize = 0 ∧ s.pos < s.sizes.totalSize ∧ s.queued ≤ pending.length ∧
      (Fits (s, pending) .txComplete →
        ∃ s', s.sendReplayFrame = .ok (s.frame pending, s')) ∧
      (s.writer = none → s.flushers = [] → s.writeIndex = 0 → s.queued = pending.length) := by
  have h : Inv s pending := by
    refine @Runs.invariant _ _ _ _ _ _ (fun p => Inv p.1 p.2) ?_ hrun
      (opened_inv sizes buffer mem hmp)
    rintro ⟨s, q⟩ a ⟨s', q'⟩ h hok ⟨hexec, hq⟩
    obtain rfl : q' = next q s a := hq
    exact h.step hok hexec
  obtain ⟨held, block, rest, hstage, -, hpending⟩ := h.stage
  have hlen := congrArg List.length hpending
  rw [List.length_append, List.length_append, length_unread] at hlen
  refine ⟨Nat.mod_eq_zero_of_dvd h.aligned, h.pos_lt, by omega, fun hfits => ?_,
    fun hwriter hflush hzero => ?_⟩
  · obtain ⟨s', hsend, -⟩ := h.txComplete hfits
    exact ⟨s', hsend⟩
  · cases hstage with
    | idle =>
      rw [hzero, List.length_nil] at hlen
      exact hlen.symm
    | flushPush _ hf => cases hf.symm.trans hflush
    | flushClear _ hf => cases hf.symm.trans hflush
    | alloc hw | copy hw | advance hw | wrap hw | push hw => cases hw.symm.trans hwriter

instance (p : AudioReplay × List UInt8) (a : AudioAct) : Decidable (Fits p a) := by
  unfold Fits
  split <;> infer_instance

/-- Blocks of 3 bytes for frames of 8. -/
def smallSizes : AudioSizes where
  blockSize := 8
  totalSize := 16
  mpBlockSize := 3
  block_pos := by decide
  block_lt := by decide
  total_pos := by decide
  total_lt := by decide
  dvd := by decide
  mp_pos := by decide
  mp_lt := by decide

/-- A block is filled and pushed. -/
def fillBlock : List AudioAct := [.alloc, .copy, .advance, .wrap, .push]

/-- A write of a block and a byte, and a stop. -/
def writeAndStop : List AudioAct :=
  .write [1, 2, 3, 4] :: fillBlock ++
    [.alloc, .copy, .advance, .wrap, .txComplete, .flush, .flushPush 0, .flushClear 0]

theorem audioReplay_stream_stop :
    ∃ s, Runs Step Fits (opened smallSizes (fun _ => 0) (fun _ _ => 0) [0, 1], []) (s, [4]) ∧
      s.pos = 8 ∧ ∃ s', s.sendReplayFrame = .ok ([4, 0, 0, 0, 0, 0, 0, 0], s') := by
  obtain ⟨⟨s, pending⟩, hrun, hend⟩ := @Runs.observed_of_replay _ _ exec _ next Fits _ writeAndStop
    (fun p => decide (p.2 = [4] ∧ p.1.pos = 8 ∧ Fits p .txComplete ∧
      p.1.frame p.2 = [4, 0, 0, 0, 0, 0, 0, 0])) (opened smallSizes (fun _ => 0) (fun _ _ => 0) [0, 1], [])
    (by decide +kernel)
  obtain ⟨rfl, hpos, hfits, hframe⟩ := of_decide_eq_true hend
  obtain ⟨-, -, -, hsend, -⟩ := audioReplay_stream (by decide) hrun
  rw [hframe] at hsend
  exact ⟨s, hrun, hpos, hsend hfits⟩

/-- Two blocks of 3 bytes for a frame of 8. -/
def twoBlocks : List AudioAct :=
  .write [1, 2, 3, 4, 5, 6] :: fillBlock ++ fillBlock ++ [.txComplete]

/-- **The position is wrong** after a frame of two pieces that the queue could not fill: it is 11,
and the next frame is written beyond the end of the replay buffer. -/
theorem audioReplay_misplaced :
    ∃ p, Runs Step Runs.always (opened smallSizes (fun _ => 0) (fun _ _ => 0) [0, 1], []) p ∧
      p.1.pos = 11 ∧ p.1.sendReplayFrame.map Prod.fst = .error .badPointer := by
  obtain ⟨p, hrun, hend⟩ := @Runs.observed_of_replay _ _ exec _ next Runs.always _ twoBlocks
    (fun p => decide (p.1.pos = 11 ∧ p.1.sendReplayFrame.map Prod.fst = .error .badPointer))
    (opened smallSizes (fun _ => 0) (fun _ _ => 0) [0, 1], []) (by decide +kernel)
  exact ⟨p, hrun, of_decide_eq_true hend⟩

end AudioReplay

end RTThread
