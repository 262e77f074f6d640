import RTThread.Drivers.RingBuffer
import RTThread.Lib.BoundedFifo

/-!
# The ring buffer is a bounded queue

`Valid rb d` says that the write index is `d` places behind the read index,
counted around the buffer, and that the mirror bits differ exactly when the end
of the buffer lies in between. It determines `rt_ringbuffer_data_len`, and each
operation moves one of the two indices forward: `Valid.push`, `Valid.pop`, and
for the overwriting variants `Valid.overwrite`.

Main result: `rtRingbuffer_refines`, every sequence of operations gives the
answers of a queue of at most `buffer_size` bytes.
-/

namespace RTThread.RingBuffer

open Ring BoundedFifo

variable {rb : RingBuffer} {d k : Nat}

-- --------
-- Index arithmetic
-- --------

/-- The indices of a ring buffer holding `d` bytes. -/
structure Valid (rb : RingBuffer) (d : Nat) : Prop where
  pos : 0 < rb.bufferSize
  lt : rb.bufferSize < 2 ^ 15
  read_lt : rb.readIndex < rb.bufferSize
  le : d ≤ rb.bufferSize
  write_eq : rb.writeIndex = (rb.readIndex + d) % rb.bufferSize
  mirror_eq : rb.writeMirror = (rb.readMirror ^^ decide (rb.bufferSize ≤ rb.readIndex + d))

theorem Valid.write_lt (V : Valid rb d) : rb.writeIndex < rb.bufferSize := by
  rw [V.write_eq]
  exact Nat.mod_lt _ V.pos

/-- The write index in the read index's side of the mirror, or in the other one. -/
theorem Valid.cases (V : Valid rb d) :
    (rb.readIndex + d < rb.bufferSize ∧ rb.writeIndex = rb.readIndex + d ∧
        rb.writeMirror = rb.readMirror) ∨
      (rb.bufferSize ≤ rb.readIndex + d ∧ rb.writeIndex + rb.bufferSize = rb.readIndex + d ∧
        rb.writeMirror = !rb.readMirror) := by
  have hread := V.read_lt
  have hle := V.le
  have hw := V.write_eq
  have hm := V.mirror_eq
  by_cases h : rb.readIndex + d < rb.bufferSize
  · rw [Nat.mod_eq_of_lt h] at hw
    exact Or.inl ⟨h, hw, by simpa [Nat.not_le.mpr h] using hm⟩
  · have h' : rb.bufferSize ≤ rb.readIndex + d := by omega
    rw [Nat.mod_eq_sub_mod h', Nat.mod_eq_of_lt (by omega)] at hw
    exact Or.inr ⟨h', by omega, by simpa [h'] using hm⟩

/-- The converse of `Valid.cases`. -/
theorem valid_of_cases (hpos : 0 < rb.bufferSize) (hlt : rb.bufferSize < 2 ^ 15)
    (hread : rb.readIndex < rb.bufferSize) (hle : d ≤ rb.bufferSize)
    (h : (rb.readIndex + d < rb.bufferSize ∧ rb.writeIndex = rb.readIndex + d ∧
        rb.writeMirror = rb.readMirror) ∨
      (rb.bufferSize ≤ rb.readIndex + d ∧ rb.writeIndex + rb.bufferSize = rb.readIndex + d ∧
        rb.writeMirror = !rb.readMirror)) : Valid rb d where
  pos := hpos
  lt := hlt
  read_lt := hread
  le := hle
  write_eq := by
    rcases h with ⟨h1, h2, _⟩ | ⟨h1, h2, _⟩
    · rw [Nat.mod_eq_of_lt h1, h2]
    · rw [Nat.mod_eq_sub_mod h1, Nat.mod_eq_of_lt (by omega)]
      omega
  mirror_eq := by
    rcases h with ⟨h1, _, h3⟩ | ⟨h1, _, h3⟩
    · simp [h3, Nat.not_le.mpr h1]
    · simp [h3, h1]

/-- **`rt_ringbuffer_data_len`** counts the bytes. -/
theorem Valid.dataLen (V : Valid rb d) : rb.rtRingbufferDataLen = d := by
  have hread := V.read_lt
  have hlt := V.lt
  have hle := V.le
  unfold rtRingbufferDataLen rtRingbufferStatus
  rcases V.cases with ⟨h1, hw, hm⟩ | ⟨h1, hw, hm⟩
  · by_cases heq : rb.readIndex = rb.writeIndex
    · rw [if_pos heq, if_pos hm.symm]
      dsimp only
      omega
    · rw [if_neg heq]
      dsimp only
      rw [if_pos (by omega), Word32.sub_of_le (by omega) (by omega)]
      omega
  · have hne : rb.readMirror ≠ rb.writeMirror := by
      rw [hm]
      cases rb.readMirror <;> decide
    by_cases heq : rb.readIndex = rb.writeIndex
    · rw [if_pos heq, if_neg hne]
      dsimp only
      omega
    · rw [if_neg heq]
      dsimp only
      rw [if_neg (by omega), Word32.sub_of_le (show rb.writeIndex ≤ rb.readIndex by omega)
        (by omega), Word32.sub_of_le (by omega) (by omega)]
      omega

theorem Valid.spaceLen (V : Valid rb d) : rb.rtRingbufferSpaceLen = rb.bufferSize - d := by
  have hlt := V.lt
  rw [rtRingbufferSpaceLen, V.dataLen, Word32.sub_of_le V.le (by omega)]

/-- The buffer is full when it holds as many bytes as it has room for. -/
theorem Valid.full_iff (V : Valid rb d) : rb.rtRingbufferStatus = .full ↔ d = rb.bufferSize := by
  have hpos := V.pos
  have hread := V.read_lt
  have hle := V.le
  unfold rtRingbufferStatus
  rcases V.cases with ⟨h1, hw, hm⟩ | ⟨h1, hw, hm⟩
  · rw [if_pos hm.symm]
    constructor
    · intro h
      split at h <;> cases h
    · omega
  · have hne : rb.readMirror ≠ rb.writeMirror := by
      rw [hm]
      cases rb.readMirror <;> decide
    rw [if_neg hne]
    constructor
    · intro h
      split at h
      · omega
      · cases h
    · intro h
      rw [if_pos (by omega)]

/-- Moving the write index forward, within the space left. -/
theorem Valid.push (V : Valid rb d) (hk : d + k ≤ rb.bufferSize) (b : Nat → UInt8) :
    Valid { rb with
      buffer := b
      writeIndex := (rb.writeIndex + k) % rb.bufferSize
      writeMirror := rb.writeMirror ^^ decide (rb.bufferSize ≤ rb.writeIndex + k) } (d + k) := by
  have hread := V.read_lt
  refine valid_of_cases V.pos V.lt V.read_lt hk ?_
  dsimp only
  rcases V.cases with ⟨h1, hw, hm⟩ | ⟨h1, hw, hm⟩
  · by_cases h : rb.bufferSize ≤ rb.writeIndex + k
    · rw [Nat.mod_eq_sub_mod h, Nat.mod_eq_of_lt (by omega)]
      exact Or.inr ⟨by omega, by omega, by simp [h, hm]⟩
    · rw [Nat.mod_eq_of_lt (by omega)]
      exact Or.inl ⟨by omega, by omega, by simp [h, hm]⟩
  · -- the write index is behind the read index: it stays in front of the end
    rw [Nat.mod_eq_of_lt (by omega)]
    have h : ¬ rb.bufferSize ≤ rb.writeIndex + k := by omega
    exact Or.inr ⟨by omega, by omega, by simp [h, hm]⟩

/-- Moving the read index forward, within the data. -/
theorem Valid.pop (V : Valid rb d) (hk : k ≤ d) :
    Valid { rb with
      readIndex := (rb.readIndex + k) % rb.bufferSize
      readMirror := rb.readMirror ^^ decide (rb.bufferSize ≤ rb.readIndex + k) } (d - k) := by
  have hread := V.read_lt
  have hle := V.le
  have hpos := V.pos
  refine valid_of_cases V.pos V.lt (Nat.mod_lt _ V.pos) (by dsimp only; omega) ?_
  dsimp only
  rcases V.cases with ⟨h1, hw, hm⟩ | ⟨h1, hw, hm⟩
  · have h : ¬ rb.bufferSize ≤ rb.readIndex + k := by omega
    rw [Nat.mod_eq_of_lt (by omega)]
    exact Or.inl ⟨by omega, by omega, by simp [h, hm]⟩
  · by_cases h : rb.bufferSize ≤ rb.readIndex + k
    · rw [Nat.mod_eq_sub_mod h, Nat.mod_eq_of_lt (by omega)]
      exact Or.inl ⟨by omega, by omega, by simp [h, hm]⟩
    · rw [Nat.mod_eq_of_lt (by omega)]
      exact Or.inr ⟨by omega, by omega, by simp [h, hm]⟩

-- --------
-- The shared copies
-- --------

theorem indexField_of_lt {n : Nat} (h : n < 2 ^ 15) : indexField n = n := Nat.mod_eq_of_lt h

theorem copyIn_eq (V : Valid rb d) {data : List UInt8} (hdata : data.length ≤ rb.bufferSize) :
    rb.copyIn data = { rb with
      buffer := write rb.buffer rb.bufferSize rb.writeIndex data
      writeIndex := (rb.writeIndex + data.length) % rb.bufferSize
      writeMirror := rb.writeMirror ^^
        decide (rb.bufferSize ≤ rb.writeIndex + data.length) } := by
  have hw := V.write_lt
  have hlt := V.lt
  unfold copyIn
  dsimp only
  by_cases h : rb.bufferSize - rb.writeIndex > data.length
  · have hbuf : write rb.buffer rb.bufferSize rb.writeIndex data =
        blit rb.buffer rb.writeIndex data := write_straight (by omega)
    have hend : ¬ rb.bufferSize ≤ rb.writeIndex + data.length := by omega
    rw [if_pos h, hbuf, indexField_of_lt (by omega), Nat.mod_eq_of_lt (by omega)]
    simp [hend]
  · have hend : rb.bufferSize ≤ rb.writeIndex + data.length := by omega
    have hidx : data.length - (rb.bufferSize - rb.writeIndex) =
        (rb.writeIndex + data.length) % rb.bufferSize := by
      rw [Nat.mod_eq_sub_mod hend, Nat.mod_eq_of_lt (by omega)]
      omega
    rw [if_neg h, hidx, indexField_of_lt (by omega)]
    simp [hend, write]

/-- Storing one byte and moving on is the shared copy for a list of one. -/
theorem storeByte_eq (V : Valid rb d) (ch : UInt8) :
    rb.copyIn [ch] =
      if rb.writeIndex = rb.bufferSize - 1 then
        { rb with
          buffer := blit rb.buffer rb.writeIndex [ch]
          writeMirror := !rb.writeMirror
          writeIndex := 0 }
      else
        { rb with
          buffer := blit rb.buffer rb.writeIndex [ch]
          writeIndex := indexField (rb.writeIndex + 1) } := by
  have hw := V.write_lt
  unfold copyIn
  dsimp only [List.length_singleton]
  by_cases h : rb.writeIndex = rb.bufferSize - 1
  · have hroom : rb.bufferSize - rb.writeIndex = 1 := by omega
    rw [if_pos h, if_neg (by omega), hroom]
    simp [blit_nil, indexField]
  · rw [if_neg h, if_pos (by omega)]

-- --------
-- The queue behind a ring buffer
-- --------

/-- The ring buffer holds the bytes of `q`. -/
structure Holds (rb : RingBuffer) {size : Nat} (q : BoundedFifo UInt8 size) : Prop where
  size_eq : rb.bufferSize = size
  valid : Valid rb q.items.length
  items_eq : read rb.buffer size rb.readIndex q.items.length = q.items

variable {size : Nat} {q : BoundedFifo UInt8 size}

theorem Holds.pos (H : Holds rb q) : 0 < size ∧ size < 2 ^ 15 :=
  ⟨H.size_eq ▸ H.valid.pos, H.size_eq ▸ H.valid.lt⟩

/-- Copying in what fits. -/
theorem holds_copyIn (H : Holds rb q) (data : List UInt8)
    (hfit : q.items.length + data.length ≤ size) : Holds (rb.copyIn data) (q.put data) := by
  obtain ⟨rfl, V, hitems⟩ := H
  have hput : (q.put data).items = q.items ++ data := by
    show q.items ++ data.take _ = _
    rw [List.take_of_length_le (by omega)]
  rw [copyIn_eq V (by omega)]
  refine ⟨rfl, ?_, ?_⟩
  · rw [hput, List.length_append]
    exact V.push hfit _
  · rw [hput, List.length_append]
    dsimp only
    rw [read_write_append V.write_lt V.write_eq.symm hfit, hitems]

/-- Taking bytes out. -/
theorem holds_pop (H : Holds rb q) (hk : k ≤ q.items.length) :
    Holds { rb with
      readIndex := (rb.readIndex + k) % rb.bufferSize
      readMirror := rb.readMirror ^^ decide (rb.bufferSize ≤ rb.readIndex + k) } (q.drop k) := by
  obtain ⟨rfl, V, hitems⟩ := H
  have hdrop : (q.drop k).items = q.items.drop k := rfl
  refine ⟨rfl, ?_, ?_⟩
  · rw [hdrop, List.length_drop]
    exact V.pop hk
  · dsimp only
    rw [hdrop, List.length_drop, read_mod, ← drop_read hk, hitems]

/-- **Overwriting.** Copying in more than fits moves the read index to the write index, which
leaves the buffer full of the newest bytes. The mirror bit is to flip when the read index
passes the end of the buffer. -/
theorem holds_overwrite (H : Holds rb q) (data : List UInt8) (rm : Bool)
    (hdata : data.length ≤ size) (hover : size < q.items.length + data.length)
    (hrm : (rb.copyIn data).writeMirror = !rm) :
    Holds { rb.copyIn data with
      readIndex := (rb.copyIn data).writeIndex
      readMirror := rm } (q.force data) := by
  obtain ⟨rfl, V, hitems⟩ := H
  have hw := V.write_lt
  have hpos := V.pos
  have hforce : (q.force data).items =
      q.items.drop (q.items.length + data.length - rb.bufferSize) ++ data := lastOf_append hdata
  have hlen : (q.force data).items.length = rb.bufferSize := by
    rw [hforce, List.length_append, List.length_drop]
    omega
  rw [copyIn_eq V hdata] at hrm ⊢
  refine ⟨rfl, ?_, ?_⟩
  · rw [hlen]
    refine valid_of_cases V.pos V.lt (Nat.mod_lt _ V.pos) (Nat.le_refl _) (Or.inr ⟨?_, rfl, hrm⟩)
    dsimp only
    omega
  · -- the reading starts behind the bytes written and ends with them
    have hsum : rb.bufferSize = (rb.bufferSize - data.length) + data.length := by omega
    have hstart : (rb.writeIndex + data.length) % rb.bufferSize =
        (rb.readIndex + (q.items.length + data.length - rb.bufferSize)) % rb.bufferSize := by
      rw [V.write_eq, Nat.mod_add_mod,
        show rb.readIndex + q.items.length + data.length =
          rb.readIndex + (q.items.length + data.length - rb.bufferSize) + rb.bufferSize by omega,
        Nat.add_mod_right]
    have hold := V.le
    rw [hlen, hforce]
    dsimp only
    have hread : read (write rb.buffer rb.bufferSize rb.writeIndex data) rb.bufferSize
        (rb.writeIndex + data.length) ((rb.bufferSize - data.length) + data.length) =
        read rb.buffer rb.bufferSize (rb.writeIndex + data.length)
          (rb.bufferSize - data.length) ++ data := by
      refine read_write_append hw ?_ (by omega)
      rw [show rb.writeIndex + data.length + (rb.bufferSize - data.length) =
        rb.writeIndex + rb.bufferSize by omega, Nat.add_mod_right, Nat.mod_eq_of_lt hw]
    rw [read_mod]
    rw [← hsum] at hread
    rw [hread, ← read_mod, hstart, read_mod]
    have hrest : rb.bufferSize - data.length =
        q.items.length - (q.items.length + data.length - rb.bufferSize) := by omega
    rw [hrest, ← drop_read (by omega), hitems]

-- --------
-- The operations
-- --------

theorem Holds.dataLen (H : Holds rb q) : rb.rtRingbufferDataLen = q.items.length := H.valid.dataLen

theorem Holds.spaceLen (H : Holds rb q) : rb.rtRingbufferSpaceLen = size - q.items.length := by
  rw [H.valid.spaceLen, H.size_eq]

theorem holds_put (H : Holds rb q) (ptr : List UInt8) :
    (rb.rtRingbufferPut ptr).1 = min ptr.length (size - q.items.length) ∧
      Holds (rb.rtRingbufferPut ptr).2 (q.put ptr) := by
  have hlt := H.pos.2
  have hfits := q.fits
  unfold rtRingbufferPut
  rw [H.spaceLen, Nat.mod_eq_of_lt (by omega)]
  dsimp only
  by_cases hfull : size - q.items.length = 0
  · have hput : q.put ptr = q := by
      ext1
      show q.items ++ ptr.take _ = _
      rw [hfull, List.take_zero, List.append_nil]
    rw [if_pos hfull, hput, hfull, Nat.min_zero]
    exact ⟨rfl, H⟩
  · have hlen : (if size - q.items.length < ptr.length then size - q.items.length else ptr.length) =
        min ptr.length (size - q.items.length) := by
      split <;> omega
    have hput : q.put ptr = q.put (ptr.take (min ptr.length (size - q.items.length))) := by
      ext1
      show q.items ++ ptr.take _ = q.items ++ (ptr.take _).take _
      rw [List.take_take, Nat.min_comm ptr.length, ← Nat.min_assoc, Nat.min_self, ← List.take_take,
        List.take_length]
    rw [if_neg hfull, hlen, hput]
    refine ⟨rfl, holds_copyIn H _ ?_⟩
    rw [List.length_take]
    omega

theorem holds_putForce (H : Holds rb q) (ptr : List UInt8) :
    (rb.rtRingbufferPutForce ptr).1 = min ptr.length size ∧
      Holds (rb.rtRingbufferPutForce ptr).2 (q.force ptr) := by
  have hlt := H.pos.2
  have hfits := q.fits
  -- only the last `buffer_size` bytes are looked at
  have htrim : (if ptr.length > rb.bufferSize then ptr.drop (ptr.length - rb.bufferSize) else ptr) =
      lastOf size ptr := by
    rw [H.size_eq]
    split
    · rfl
    · rw [lastOf_of_le (by omega)]
  have hforce : q.force ptr = q.force (lastOf size ptr) := by
    ext1
    exact (lastOf_append_lastOf size q.items ptr).symm
  have hlen : (lastOf size ptr).length = min ptr.length size := by
    rw [length_lastOf, Nat.min_comm]
  unfold rtRingbufferPutForce
  rw [htrim, H.spaceLen, Nat.mod_eq_of_lt (by omega), hforce]
  generalize lastOf size ptr = data at hlen ⊢
  dsimp only
  by_cases hover : data.length > size - q.items.length
  · rw [if_pos hover]
    refine ⟨hlen, holds_overwrite H _ _ (by omega) (by omega) ?_⟩
    have hsize := H.size_eq
    rw [copyIn_eq H.valid (by omega)]
    dsimp only
    have hw := H.valid.write_lt
    rcases H.valid.cases with ⟨h1, hwi, hm⟩ | ⟨h1, hwi, hm⟩
    · -- same mirror: the copy passes the end and stops in front of nothing unread
      have hend : rb.bufferSize ≤ rb.writeIndex + data.length := by omega
      have hpast : ¬ (rb.writeIndex + data.length) % rb.bufferSize ≤ rb.readIndex := by
        rw [Nat.mod_eq_sub_mod hend, Nat.mod_eq_of_lt (by omega)]
        omega
      rw [if_neg fun hc => hpast hc.2, hm]
      simp [hend]
    · by_cases hend : rb.bufferSize ≤ rb.writeIndex + data.length
      · have hback : (rb.writeIndex + data.length) % rb.bufferSize ≤ rb.readIndex := by
          have hread := H.valid.read_lt
          rw [Nat.mod_eq_sub_mod hend, Nat.mod_eq_of_lt (by omega)]
          have := H.valid.le
          omega
        rw [if_pos ⟨by omega, hback⟩, hm]
        simp [hend]
      · rw [if_neg fun hc => hc.1 (by omega), hm]
        simp [hend]
  · rw [if_neg hover, force_eq_put (by omega)]
    exact ⟨hlen, holds_copyIn H _ (by omega)⟩

theorem holds_putchar (H : Holds rb q) (ch : UInt8) :
    (rb.rtRingbufferPutchar ch).1 = min 1 (size - q.items.length) ∧
      Holds (rb.rtRingbufferPutchar ch).2 (q.put [ch]) := by
  have hfits := q.fits
  unfold rtRingbufferPutchar
  rw [H.spaceLen]
  by_cases hfull : size - q.items.length = 0
  · have hput : q.put [ch] = q := by
      ext1
      show q.items ++ [ch].take _ = _
      rw [hfull, List.take_zero, List.append_nil]
    rw [if_pos hfull, hput, hfull]
    exact ⟨rfl, H⟩
  · have hcopy := holds_copyIn H [ch] (by simp only [List.length_singleton]; omega)
    rw [storeByte_eq H.valid] at hcopy
    rw [if_neg hfull, Nat.min_eq_left (by omega)]
    dsimp only
    split at hcopy
    · rename_i h
      rw [if_pos h]
      exact ⟨rfl, hcopy⟩
    · rename_i h
      rw [if_neg h]
      exact ⟨rfl, hcopy⟩

theorem holds_putcharForce (H : Holds rb q) (ch : UInt8) :
    (rb.rtRingbufferPutcharForce ch).1 = 1 ∧
      Holds (rb.rtRingbufferPutcharForce ch).2 (q.force [ch]) := by
  have hfits := q.fits
  have hpos := H.pos.1
  have hsize := H.size_eq
  have hstore := storeByte_eq H.valid ch
  unfold rtRingbufferPutcharForce
  dsimp only
  by_cases hfull : rb.rtRingbufferStatus = .full
  · have hlen : q.items.length = rb.bufferSize := H.valid.full_iff.mp hfull
    have hmirror : rb.writeMirror = !rb.readMirror := by
      rcases H.valid.cases with ⟨h1, _, _⟩ | ⟨_, _, hm⟩
      · omega
      · exact hm
    have hover : ∀ rm, (rb.copyIn [ch]).writeMirror = !rm → _ := fun rm hrm =>
      holds_overwrite H [ch] rm (by simp only [List.length_singleton]; omega)
        (by simp only [List.length_singleton]; omega) hrm
    by_cases hlast : rb.writeIndex = rb.bufferSize - 1
    · rw [if_pos hlast] at hstore
      rw [if_pos hlast, if_pos hfull]
      rw [hstore] at hover
      exact ⟨rfl, hover (!rb.readMirror) (by rw [hmirror])⟩
    · rw [if_neg hlast] at hstore
      rw [if_neg hlast, if_pos hfull]
      rw [hstore] at hover
      exact ⟨rfl, hover rb.readMirror hmirror⟩
  · have hnot : q.items.length ≠ rb.bufferSize := mt H.valid.full_iff.mpr hfull
    have hcopy := holds_copyIn H [ch] (by simp only [List.length_singleton]; omega)
    rw [force_eq_put (by simp only [List.length_singleton]; omega)]
    by_cases hlast : rb.writeIndex = rb.bufferSize - 1
    · rw [hstore, if_pos hlast] at hcopy
      rw [if_pos hlast, if_neg hfull]
      exact ⟨rfl, hcopy⟩
    · rw [hstore, if_neg hlast] at hcopy
      rw [if_neg hlast, if_neg hfull]
      exact ⟨rfl, hcopy⟩

/-- Moving the read index over `k` bytes, as `rt_ringbuffer_get` does it. -/
theorem pop_eq (V : Valid rb d) (hk : k ≤ d) :
    { rb with
      readIndex := (rb.readIndex + k) % rb.bufferSize
      readMirror := rb.readMirror ^^ decide (rb.bufferSize ≤ rb.readIndex + k) } =
      if rb.bufferSize - rb.readIndex > k then
        { rb with readIndex := indexField (rb.readIndex + k) }
      else
        { rb with
          readMirror := !rb.readMirror
          readIndex := indexField (k - (rb.bufferSize - rb.readIndex)) } := by
  have hread := V.read_lt
  have hlt := V.lt
  have hle := V.le
  by_cases h : rb.bufferSize - rb.readIndex > k
  · have hend : ¬ rb.bufferSize ≤ rb.readIndex + k := by omega
    rw [if_pos h, indexField_of_lt (by omega), Nat.mod_eq_of_lt (by omega)]
    simp [hend]
  · have hend : rb.bufferSize ≤ rb.readIndex + k := by omega
    rw [if_neg h, indexField_of_lt (by omega), Nat.mod_eq_sub_mod hend,
      Nat.mod_eq_of_lt (by omega)]
    simp only [hend, decide_true, Bool.xor_true, show rb.readIndex + k - rb.bufferSize =
      k - (rb.bufferSize - rb.readIndex) by omega]

theorem holds_get (H : Holds rb q) (n : Nat) :
    (rb.rtRingbufferGet n).1 = q.items.take n ∧ Holds (rb.rtRingbufferGet n).2 (q.drop n) := by
  have hsize := H.size_eq
  have hread := H.valid.read_lt
  have hfits := q.fits
  unfold rtRingbufferGet
  rw [H.dataLen]
  dsimp only
  by_cases hempty : q.items.length = 0
  · have hnil : q.items = [] := List.eq_nil_of_length_eq_zero hempty
    have hdrop : q.drop n = q := by
      ext1
      show q.items.drop n = q.items
      rw [hnil, List.drop_nil]
    rw [if_pos hempty, hdrop, hnil, List.take_nil]
    exact ⟨rfl, H⟩
  · obtain ⟨k, hk⟩ : ∃ k, k = min n q.items.length := ⟨_, rfl⟩
    have hlen : (if q.items.length < n then q.items.length else n) = k := by
      rw [hk]
      split <;> omega
    have htake : q.items.take n = read rb.buffer size rb.readIndex k := by
      rw [← H.items_eq, hk, Nat.min_comm, ← take_read (Nat.min_le_left ..), H.items_eq]
      rcases Nat.le_total n q.items.length with h | h
      · rw [Nat.min_eq_right h]
      · rw [Nat.min_eq_left h, List.take_of_length_le h, List.take_length]
    have hdrop : q.drop n = q.drop k := by
      ext1
      show q.items.drop n = q.items.drop k
      rcases Nat.le_total n q.items.length with h | h
      · rw [hk, Nat.min_eq_left h]
      · rw [hk, Nat.min_eq_right h, List.drop_of_length_le h, List.drop_length]
    have hpop := holds_pop H (k := k) (by omega)
    rw [pop_eq H.valid (by omega)] at hpop
    rw [if_neg hempty, hlen, htake, hdrop]
    by_cases h : rb.bufferSize - rb.readIndex > k
    · rw [if_pos h] at hpop ⊢
      exact ⟨(read_straight (by omega)).symm, hpop⟩
    · rw [if_neg h] at hpop ⊢
      refine ⟨?_, hpop⟩
      rw [read_wrapped (by omega) (by omega) (by omega), hsize]

theorem holds_getchar (H : Holds rb q) :
    (rb.rtRingbufferGetchar).1.toList = q.items.take 1 ∧
      Holds (rb.rtRingbufferGetchar).2 (q.drop 1) := by
  have hsize := H.size_eq
  have hread := H.valid.read_lt
  have hfits := q.fits
  unfold rtRingbufferGetchar
  rw [H.dataLen]
  dsimp only
  by_cases hempty : q.items.length = 0
  · have hnil : q.items = [] := List.eq_nil_of_length_eq_zero hempty
    have hdrop : q.drop 1 = q := by
      ext1
      show q.items.drop 1 = q.items
      rw [hnil, List.drop_nil]
    rw [if_pos hempty, hdrop, hnil]
    exact ⟨rfl, H⟩
  · have htake : q.items.take 1 = [rb.buffer rb.readIndex] := by
      rw [← H.items_eq, take_read (by omega)]
      simp [Ring.read, Nat.mod_eq_of_lt (show rb.readIndex < size by omega)]
    have hpop := holds_pop H (k := 1) (by omega)
    rw [pop_eq H.valid (by omega)] at hpop
    rw [if_neg hempty, htake]
    by_cases h : rb.readIndex = rb.bufferSize - 1
    · rw [if_neg (by omega), show 1 - (rb.bufferSize - rb.readIndex) = 0 by omega] at hpop
      rw [if_pos h]
      exact ⟨rfl, hpop⟩
    · rw [if_pos (by omega)] at hpop
      rw [if_neg h]
      exact ⟨rfl, hpop⟩

/-- **`rt_ringbuffer_peak`** removes the longest run of the oldest bytes that does not pass the
end of the buffer. -/
theorem holds_peak (H : Holds rb q) (hne : q.items ≠ []) :
    ∃ n, 0 < n ∧ n ≤ q.items.length ∧ rb.readIndex + n ≤ size ∧
      (n = q.items.length ∨ rb.readIndex + n = size) ∧
      slice rb.buffer rb.readIndex n = q.items.take n ∧
      ∃ rb', rb.rtRingbufferPeak = (some rb.readIndex, n, rb') ∧ rb'.buffer = rb.buffer ∧
        Holds rb' (q.drop n) := by
  have hsize := H.size_eq
  have hread := H.valid.read_lt
  have hfits := q.fits
  have hlen : q.items.length ≠ 0 := fun h => hne (List.eq_nil_of_length_eq_zero h)
  have hslice : ∀ n, n ≤ q.items.length → rb.readIndex + n ≤ size →
      slice rb.buffer rb.readIndex n = q.items.take n := fun n hn hend => by
    rw [← read_straight hend, ← take_read hn, H.items_eq]
  unfold rtRingbufferPeak
  rw [H.dataLen, if_neg hlen]
  dsimp only
  by_cases h : rb.bufferSize - rb.readIndex > q.items.length
  · have hpop := holds_pop H (k := q.items.length) (Nat.le_refl _)
    rw [pop_eq H.valid (Nat.le_refl _), if_pos h] at hpop
    rw [if_pos h]
    exact ⟨_, by omega, Nat.le_refl _, by omega, Or.inl rfl, hslice _ (Nat.le_refl _) (by omega),
      _, rfl, rfl, hpop⟩
  · have hroom : rb.bufferSize - rb.readIndex ≤ q.items.length := by omega
    have hpop := holds_pop H (k := rb.bufferSize - rb.readIndex) hroom
    rw [pop_eq H.valid hroom, if_neg (by omega), Nat.sub_self] at hpop
    rw [if_neg h]
    exact ⟨_, by omega, hroom, by omega, Or.inr (by omega), hslice _ hroom (by omega),
      _, rfl, rfl, hpop⟩

theorem holds_reset (H : Holds rb q) :
    Holds rb.rtRingbufferReset (BoundedFifo.empty : BoundedFifo UInt8 size) where
  size_eq := H.size_eq
  valid := valid_of_cases H.valid.pos H.valid.lt H.valid.pos (Nat.zero_le _)
    (Or.inl ⟨H.valid.pos, rfl, rfl⟩)
  items_eq := rfl

/-- The buffer is empty at the start. -/
theorem holds_init {pool : Nat → UInt8} (hpos : 0 < size) (hmod : size % rtAlignSize = 0)
    (hlt : size < 2 ^ 15) (hinit : rtRingbufferInit pool size = .ok rb) :
    Holds rb (BoundedFifo.empty : BoundedFifo UInt8 size) := by
  rw [rtRingbufferInit, rtAssert_bind hpos] at hinit
  cases hinit
  have hmod : size % 4 = 0 := hmod
  have hdown : rtAlignDown size = size := by
    rw [rtAlignDown_eq (by omega)]
    omega
  refine ⟨hdown, valid_of_cases ?_ ?_ ?_ (Nat.zero_le _) (Or.inl ⟨?_, rfl, rfl⟩), rfl⟩ <;>
    · dsimp only [BoundedFifo.empty, List.length_nil]
      omega

theorem holds_create {pool : Option (Nat → UInt8)} (hlt : size < 2 ^ 16)
    (hcreate : rtRingbufferCreate pool size = .ok (some rb)) :
    Holds rb (BoundedFifo.empty : BoundedFifo UInt8 (rtAlignDown size)) := by
  unfold rtRingbufferCreate at hcreate
  obtain ⟨_, -, hcreate⟩ := except_bind_ok hcreate
  cases pool with
  | none => cases hcreate
  | some pool =>
    obtain ⟨_, hsize, hcreate⟩ := except_bind_ok hcreate
    obtain ⟨rb', hinit, hcreate⟩ := except_bind_ok hcreate
    cases hcreate
    have hpos : rtAlignDown size > 0 := by
      rw [rtRingbufferInit] at hinit
      obtain ⟨_, hpos, -⟩ := except_bind_ok hinit
      exact of_rtAssert hpos
    have hmod : rtAlignDown size % 4 = 0 := by
      rw [rtAlignDown_eq (by omega)]
      omega
    exact holds_init hpos hmod (of_rtAssert hsize) hinit

-- --------
-- Sequences of operations
-- --------

/-- A call, with its data or length. -/
inductive Op
  | put (ptr : List UInt8)
  | putForce (ptr : List UInt8)
  | putchar (ch : UInt8)
  | putcharForce (ch : UInt8)
  | get (length : Nat)
  | getchar
  | peak
  | reset

/-- What a call answers: a count, the bytes it stored for the caller, or, for `peak`, where the
run starts in the buffer and the bytes found there. -/
inductive Out
  | count (n : Nat)
  | bytes (bs : List UInt8)
  | run (start : Option Nat) (bs : List UInt8)
  | done

def exec (rb : RingBuffer) : Op → Out × RingBuffer
  | .put ptr => (.count (rb.rtRingbufferPut ptr).1, (rb.rtRingbufferPut ptr).2)
  | .putForce ptr => (.count (rb.rtRingbufferPutForce ptr).1, (rb.rtRingbufferPutForce ptr).2)
  | .putchar ch => (.count (rb.rtRingbufferPutchar ch).1, (rb.rtRingbufferPutchar ch).2)
  | .putcharForce ch =>
    (.count (rb.rtRingbufferPutcharForce ch).1, (rb.rtRingbufferPutcharForce ch).2)
  | .get n => (.bytes (rb.rtRingbufferGet n).1, (rb.rtRingbufferGet n).2)
  | .getchar => (.bytes rb.rtRingbufferGetchar.1.toList, rb.rtRingbufferGetchar.2)
  | .peak =>
    let (start, n, rb) := rb.rtRingbufferPeak
    (.run start (slice rb.buffer (start.getD 0) n), rb)
  | .reset => (.done, rb.rtRingbufferReset)

def execAll (rb : RingBuffer) : List Op → List Out × RingBuffer
  | [] => ([], rb)
  | op :: ops =>
    let (out, rb) := rb.exec op
    let (outs, rb) := rb.execAll ops
    (out :: outs, rb)

/-- What each call does to a queue of at most `size` bytes. -/
inductive QueueStep {size : Nat} : BoundedFifo UInt8 size → Op → Out → BoundedFifo UInt8 size → Prop
  | put (q : BoundedFifo UInt8 size) (ptr : List UInt8) :
      QueueStep q (.put ptr) (.count (min ptr.length (size - q.items.length))) (q.put ptr)
  | putForce (q : BoundedFifo UInt8 size) (ptr : List UInt8) :
      QueueStep q (.putForce ptr) (.count (min ptr.length size)) (q.force ptr)
  | putchar (q : BoundedFifo UInt8 size) (ch : UInt8) :
      QueueStep q (.putchar ch) (.count (min 1 (size - q.items.length))) (q.put [ch])
  | putcharForce (q : BoundedFifo UInt8 size) (ch : UInt8) :
      QueueStep q (.putcharForce ch) (.count 1) (q.force [ch])
  | get (q : BoundedFifo UInt8 size) (n : Nat) :
      QueueStep q (.get n) (.bytes (q.items.take n)) (q.drop n)
  | getchar (q : BoundedFifo UInt8 size) :
      QueueStep q .getchar (.bytes (q.items.take 1)) (q.drop 1)
  | peakEmpty (q : BoundedFifo UInt8 size) : q.items = [] → QueueStep q .peak (.run none []) q
  /-- the run is all of the contents, or reaches the end of the buffer -/
  | peak (q : BoundedFifo UInt8 size) (start n : Nat) : 0 < n → n ≤ q.items.length →
      start + n ≤ size → (n = q.items.length ∨ start + n = size) →
      QueueStep q .peak (.run (some start) (q.items.take n)) (q.drop n)
  | reset (q : BoundedFifo UInt8 size) : QueueStep q .reset .done BoundedFifo.empty

/-- A sequence of calls on a queue, with their answers. -/
inductive QueueRun {size : Nat} :
    BoundedFifo UInt8 size → List Op → List Out → BoundedFifo UInt8 size → Prop
  | nil (q : BoundedFifo UInt8 size) : QueueRun q [] [] q
  | cons {q q' q'' : BoundedFifo UInt8 size} {op : Op} {ops : List Op} {out : Out}
      {outs : List Out} : QueueStep q op out q' → QueueRun q' ops outs q'' →
      QueueRun q (op :: ops) (out :: outs) q''

/-- **One call** does to the ring buffer what it does to the queue. -/
theorem holds_exec (H : Holds rb q) (op : Op) :
    ∃ q', QueueStep q op (rb.exec op).1 q' ∧ Holds (rb.exec op).2 q' := by
  cases op with
  | put ptr =>
    obtain ⟨hout, H'⟩ := holds_put H ptr
    exact ⟨_, by rw [exec, hout]; exact .put q ptr, H'⟩
  | putForce ptr =>
    obtain ⟨hout, H'⟩ := holds_putForce H ptr
    exact ⟨_, by rw [exec, hout]; exact .putForce q ptr, H'⟩
  | putchar ch =>
    obtain ⟨hout, H'⟩ := holds_putchar H ch
    exact ⟨_, by rw [exec, hout]; exact .putchar q ch, H'⟩
  | putcharForce ch =>
    obtain ⟨hout, H'⟩ := holds_putcharForce H ch
    exact ⟨_, by rw [exec, hout]; exact .putcharForce q ch, H'⟩
  | get n =>
    obtain ⟨hout, H'⟩ := holds_get H n
    exact ⟨_, by rw [exec, hout]; exact .get q n, H'⟩
  | getchar =>
    obtain ⟨hout, H'⟩ := holds_getchar H
    exact ⟨_, by rw [exec, hout]; exact .getchar q, H'⟩
  | peak =>
    by_cases hnil : q.items = []
    · have hpeak : rb.rtRingbufferPeak = (none, 0, rb) := by
        rw [rtRingbufferPeak, H.dataLen, hnil]
        exact if_pos rfl
      rw [exec, hpeak]
      exact ⟨q, .peakEmpty q hnil, H⟩
    · obtain ⟨n, h0, hn, hend, hrun, hslice, rb', hpeak, hbuf, H'⟩ := holds_peak H hnil
      have hout : slice rb'.buffer rb.readIndex n = q.items.take n := by rw [hbuf, hslice]
      rw [exec, hpeak]
      refine ⟨q.drop n, ?_, H'⟩
      dsimp only [Option.getD_some]
      rw [hout]
      exact .peak q rb.readIndex n h0 hn hend hrun
  | reset => exact ⟨_, .reset q, holds_reset H⟩

theorem holds_execAll : ∀ (ops : List Op) {rb : RingBuffer} {q : BoundedFifo UInt8 size},
    Holds rb q → ∃ q', QueueRun q ops (rb.execAll ops).1 q' ∧ Holds (rb.execAll ops).2 q' := by
  intro ops
  induction ops with
  | nil => intro rb q H; exact ⟨q, .nil q, H⟩
  | cons op ops ih =>
    intro rb q H
    obtain ⟨q₁, hstep, H₁⟩ := holds_exec H op
    obtain ⟨q₂, hrun, H₂⟩ := ih H₁
    exact ⟨q₂, .cons hstep hrun, H₂⟩

/-- **Refinement.** Whatever is called on a fresh ring buffer, in any order, the answers are
those of a bounded queue, which the buffer holds at the end; data and space add up. -/
theorem rtRingbuffer_refines {pool : Nat → UInt8} {rb : RingBuffer} (hpos : 0 < size)
    (hmod : size % rtAlignSize = 0) (hlt : size < 32768)
    (hinit : rtRingbufferInit pool size = .ok rb) (ops : List Op) :
    ∃ q : BoundedFifo UInt8 size,
      QueueRun BoundedFifo.empty ops (rb.execAll ops).1 q ∧
      read (rb.execAll ops).2.buffer size (rb.execAll ops).2.readIndex q.items.length = q.items ∧
      (rb.execAll ops).2.rtRingbufferDataLen = q.items.length ∧
      (rb.execAll ops).2.rtRingbufferDataLen + (rb.execAll ops).2.rtRingbufferSpaceLen = size := by
  obtain ⟨q, hrun, H⟩ := holds_execAll ops (holds_init hpos hmod hlt hinit)
  refine ⟨q, hrun, H.items_eq, H.dataLen, ?_⟩
  have hfits := q.fits
  rw [H.dataLen, H.spaceLen]
  omega

/-- Five bytes offered to a buffer of four, and the oldest one overwritten. -/
theorem rtRingbuffer_refines_four :
    ∃ rb, rtRingbufferInit (fun _ => 0) 4 = .ok rb ∧ ∃ q : BoundedFifo UInt8 4,
      QueueRun BoundedFifo.empty [.put [1, 2, 3, 4, 5], .putcharForce 6]
        (rb.execAll [.put [1, 2, 3, 4, 5], .putcharForce 6]).1 q ∧
      (rb.execAll [.put [1, 2, 3, 4, 5], .putcharForce 6]).2.rtRingbufferDataLen =
        q.items.length := by
  obtain ⟨rb, hinit⟩ : ∃ rb, rtRingbufferInit (fun _ => 0) 4 = .ok rb := ⟨_, rfl⟩
  obtain ⟨q, hrun, _, hlen, _⟩ := rtRingbuffer_refines (by decide) (by decide) (by decide) hinit
    [.put [1, 2, 3, 4, 5], .putcharForce 6]
  exact ⟨rb, hinit, q, hrun, hlen⟩

end RTThread.RingBuffer
