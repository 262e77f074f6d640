import RTThread.Lib.Execution
import RTThread.Drivers.AudioReplay

/-!
# A write to the audio device (`_audio_dev_write` of `components/drivers/audio/audio.c`)

The write of `AudioReplay` as its caller sees it: which bytes of the buffer it reads, and what it
returns. Stops and ends of transmissions may take their steps in between.

`index` is an `rt_uint16_t`. `audioDevWrite_returns` says for which sizes a write that is always
given its blocks and the room in the queue reads all bytes, each once and in order, and returns
their number: those below 65536. It never ends for the others (`audioDevWrite_endless` is the
smallest of them).

The test of the open flag is left out: the device is open for writing.
-/

namespace RTThread

open Ring

namespace AudioReplay

variable {s s' : AudioReplay} {a : AudioAct} {data : List UInt8}

/-- What a write has done so far. -/
structure WriteCall where
  /-- The places of the caller's buffer it has read. -/
  reads : List Nat
  /-- What it has returned. -/
  result : Option Nat
deriving DecidableEq

/-- The `remain_bytes` of a round. -/
def remainBytes (s : AudioReplay) (w : AudioWriter) : Nat :=
  u16 (min (s.sizes.mpBlockSize - s.writeIndex) (w.data.length - w.index))

/-- What the write returns at the test of its loop. -/
def returned (data : List UInt8) (index : Nat) : Option Nat :=
  if index < data.length then none else some index

/-- What an action of the replay adds to it. -/
def WriteCall.next (c : WriteCall) (s : AudioReplay) : AudioAct → WriteCall
  | .write data => ⟨[], returned data 0⟩
  | .copy =>
    match s.writer with
    | some w => { c with reads := c.reads ++ List.range' w.index (s.remainBytes w) }
    | none => c
  | .wrap =>
    match s.writer with
    | some w =>
      if s.writeIndex % s.sizes.mpBlockSize = 0 then c
      else { c with result := returned w.data w.index }
    | none => c
  | .push =>
    match s.writer with
    | some w => { c with result := returned w.data w.index }
    | none => c
  | _ => c

/-- The replay at work, with its last write. -/
abbrev CallStep := Runs.Observed (Runs.Exec exec) WriteCall.next

/-- The steps of the loop of a write. -/
def OfWrite (a : AudioAct) : Prop :=
  a = .alloc ∨ a = .copy ∨ a = .advance ∨ a = .wrap ∨ a = .push

/-- The pool supplies blocks and the queue drains: a write that has not returned takes another
step at some time. -/
def Served (e : Execution CallStep) : Prop :=
  ∀ n, (e.state n).1.writer ≠ none → ∃ m, n ≤ m ∧ ∃ a, e.act m = some a ∧ OfWrite a

/-- A write of the data has returned as it should. -/
def Returned (data : List UInt8) (p : AudioReplay × WriteCall) : Prop :=
  p.1.writer = none ∧ p.2 = ⟨List.range data.length, some data.length⟩

-- --------
-- What a step does
-- --------

/-- What the others do leaves the write where it is. -/
structure Aside (s s' : AudioReplay) : Prop where
  sizes : s'.sizes = s.sizes
  writer : s'.writer = s.writer
  writeIndex : s'.writeIndex = s.writeIndex ∨ s'.writeIndex = 0

theorem store_eq {pos : Nat} {piece : List UInt8} (h : s.store pos piece = .ok s') :
    s' = { s with buffer := blit s.buffer pos piece } := by
  unfold store at h
  split at h
  case isTrue => exact (Except.ok.inj h).symm
  case isFalse => cases h

theorem copyFrame_aside {fuel : Nat} : ∀ {s s' : AudioReplay} {index remainBytes : Nat},
    copyFrame fuel s index remainBytes = .ok s' →
      s'.sizes = s.sizes ∧ s'.writer = s.writer ∧ s'.writeIndex = s.writeIndex := by
  induction fuel with
  | zero =>
    intro s s' index remainBytes h
    cases h
  | succ fuel ih =>
    intro s s' index remainBytes h
    rw [copyFrame] at h
    split at h
    case isFalse =>
      cases h
      exact ⟨rfl, rfl, rfl⟩
    case isTrue =>
      split at h
      case h_1 =>
        cases h
        exact ⟨rfl, rfl, rfl⟩
      case h_2 item queue hqueue =>
        obtain ⟨s₁, hstore, h⟩ := except_bind_ok h
        obtain rfl := store_eq hstore
        dsimp only at h
        split at h
        case isTrue =>
          have hkept := ih h
          exact hkept
        case isFalse =>
          have hkept := ih h
          exact hkept

theorem sendReplayFrame_aside {frame : List UInt8} (h : s.sendReplayFrame = .ok (frame, s')) :
    Aside s s' := by
  unfold sendReplayFrame at h
  obtain ⟨s₁, hstore, h⟩ := except_bind_ok h
  obtain rfl := store_eq hstore
  dsimp only at h
  split at h
  case h_1 =>
    obtain ⟨-, rfl⟩ := Prod.mk.inj (Except.ok.inj h)
    exact ⟨rfl, rfl, .inl rfl⟩
  case h_2 =>
    obtain ⟨s₂, hcopy, h⟩ := except_bind_ok h
    obtain ⟨-, rfl⟩ := Prod.mk.inj (Except.ok.inj h)
    obtain ⟨hsizes, hwriter, hindex⟩ := copyFrame_aside hcopy
    exact ⟨hsizes, hwriter, .inl hindex⟩

theorem pushItem_eq {item : DataItem} (h : s.pushItem item = some s') :
    ∃ queue, s' = { s with queue } := by
  obtain ⟨queue, -, rfl⟩ := Option.map_eq_some_iff.1 h
  exact ⟨queue, rfl⟩

/-- **The steps**: those of the write, and those of the others. -/
theorem exec_cases (h : s.exec a = some s') :
    (∃ data, a = .write data ∧ s.writer = none ∧ s' = s.loop data 0) ∨
    (∃ data index block mp, a = .alloc ∧ s.writer = some ⟨data, index, .alloc⟩ ∧
      s' = s.allocBlock ⟨data, index, .alloc⟩ block mp) ∨
    (∃ data index, a = .copy ∧ s.writer = some ⟨data, index, .copy⟩ ∧
      s' = s.copyData ⟨data, index, .copy⟩) ∨
    (∃ data index n, a = .advance ∧ s.writer = some ⟨data, index, .advance n⟩ ∧
      s' = s.advanceIndex ⟨data, index, .advance n⟩ n) ∨
    (∃ data index, a = .wrap ∧ s.writer = some ⟨data, index, .wrap⟩ ∧
      s' = s.wrapIndex ⟨data, index, .wrap⟩) ∨
    (∃ data index queue, a = .push ∧ s.writer = some ⟨data, index, .push⟩ ∧
      s' = loop { s with queue } data index) ∨
    (¬OfWrite a ∧ (∀ data, a ≠ .write data) ∧ Aside s s') := by
  cases a with
  | write data =>
    dsimp only [exec] at h
    split at h
    case h_1 hwriter => exact .inl ⟨data, rfl, hwriter, (Option.some.inj h).symm⟩
    case h_2 => cases h
  | alloc =>
    dsimp only [exec] at h
    split at h
    case h_1 hwriter _ =>
      exact .inr (.inl ⟨_, _, _, _, rfl, hwriter, (Option.some.inj h).symm⟩)
    case h_2 => cases h
  | copy =>
    dsimp only [exec] at h
    split at h
    case h_1 hwriter =>
      exact .inr (.inr (.inl ⟨_, _, rfl, hwriter, (Option.some.inj h).symm⟩))
    case h_2 => cases h
  | advance =>
    dsimp only [exec] at h
    split at h
    case h_1 hwriter =>
      exact .inr (.inr (.inr (.inl ⟨_, _, _, rfl, hwriter, (Option.some.inj h).symm⟩)))
    case h_2 => cases h
  | wrap =>
    dsimp only [exec] at h
    split at h
    case h_1 hwriter =>
      exact .inr (.inr (.inr (.inr (.inl ⟨_, _, rfl, hwriter, (Option.some.inj h).symm⟩))))
    case h_2 => cases h
  | push =>
    dsimp only [exec] at h
    split at h
    case h_1 hwriter =>
      obtain ⟨s₁, hpush, rfl⟩ := Option.map_eq_some_iff.1 h
      obtain ⟨queue, rfl⟩ := pushItem_eq hpush
      exact .inr (.inr (.inr (.inr (.inr (.inl ⟨_, _, queue, rfl, hwriter, rfl⟩)))))
    case h_2 => cases h
  | flush =>
    refine .inr (.inr (.inr (.inr (.inr (.inr ⟨by simp [OfWrite], by simp, ?_⟩)))))
    dsimp only [exec] at h
    split at h
    case isTrue =>
      obtain rfl := Option.some.inj h
      exact ⟨rfl, rfl, .inl rfl⟩
    case isFalse =>
      obtain rfl := Option.some.inj h
      exact ⟨rfl, rfl, .inl rfl⟩
  | flushPush i =>
    refine .inr (.inr (.inr (.inr (.inr (.inr ⟨by simp [OfWrite], by simp, ?_⟩)))))
    dsimp only [exec] at h
    split at h
    case h_1 =>
      obtain ⟨s₁, hpush, rfl⟩ := Option.map_eq_some_iff.1 h
      obtain ⟨queue, rfl⟩ := pushItem_eq hpush
      exact ⟨rfl, rfl, .inl rfl⟩
    case h_2 => cases h
  | flushClear i =>
    refine .inr (.inr (.inr (.inr (.inr (.inr ⟨by simp [OfWrite], by simp, ?_⟩)))))
    dsimp only [exec] at h
    split at h
    case h_1 =>
      obtain rfl := Option.some.inj h
      exact ⟨rfl, rfl, .inr rfl⟩
    case h_2 => cases h
  | txComplete =>
    refine .inr (.inr (.inr (.inr (.inr (.inr ⟨by simp [OfWrite], by simp, ?_⟩)))))
    dsimp only [exec] at h
    cases hsend : s.sendReplayFrame with
    | error =>
      rw [hsend] at h
      cases h
    | ok r =>
      rw [hsend] at h
      obtain rfl := Option.some.inj h
      exact sendReplayFrame_aside hsend

-- --------
-- Between the writes
-- --------

/-- The index is inside a block, but for a write that has still to reduce it. -/
def Ready (s : AudioReplay) : Prop :=
  s.writeIndex < s.sizes.mpBlockSize ∨ ∃ w, s.writer = some w ∧ w.stage = .wrap

theorem Ready.lt (h : Ready s) (hwriter : ∀ w, s.writer = some w → w.stage ≠ .wrap) :
    s.writeIndex < s.sizes.mpBlockSize := by
  rcases h with h | ⟨w, hw, hstage⟩
  · exact h
  · exact absurd hstage (hwriter w hw)

theorem loop_ready {index : Nat} (h : s.writeIndex < s.sizes.mpBlockSize) :
    Ready (s.loop data index) := by
  rw [loop_same]
  exact .inl h

/-- **A step** keeps the index inside a block. -/
theorem Ready.step (h : Ready s) (hexec : s.exec a = some s') : Ready s' := by
  rcases exec_cases hexec with ⟨data, rfl, hw, rfl⟩ | ⟨data, index, block, mp, rfl, hw, rfl⟩ |
    ⟨data, index, rfl, hw, rfl⟩ | ⟨data, index, n, rfl, hw, rfl⟩ | ⟨data, index, rfl, hw, rfl⟩ |
    ⟨data, index, queue, rfl, hw, rfl⟩ | ⟨-, -, haside⟩
  · exact loop_ready (h.lt fun w hw' => by rw [hw] at hw'; cases hw')
  · exact .inl (h.lt fun w hw' => by rw [hw] at hw'; cases hw'; nofun)
  · exact .inl (h.lt fun w hw' => by rw [hw] at hw'; cases hw'; nofun)
  · exact .inr ⟨_, rfl, rfl⟩
  · have hlt : s.writeIndex % s.sizes.mpBlockSize < s.sizes.mpBlockSize :=
      Nat.mod_lt _ s.sizes.mp_pos
    unfold wrapIndex
    dsimp only
    split
    case isTrue => exact .inl hlt
    case isFalse => exact loop_ready hlt
  · exact loop_ready (h.lt fun w hw' => by rw [hw] at hw'; cases hw'; nofun)
  · rcases haside.writeIndex with hi | hi
    · rw [Ready, hi, haside.sizes, haside.writer]
      exact h
    · exact .inl (by rw [hi]; exact s'.sizes.mp_pos)

-- --------
-- A write that ends
-- --------

/-- What the write has read, wherever it is: the bytes in front of the next round. -/
def HasRead (s : AudioReplay) (w : AudioWriter) (reads : List Nat) : Prop :=
  match w.stage with
  | .alloc | .copy =>
    reads = List.range w.index ∧ w.index < w.data.length ∧ s.writeIndex < s.sizes.mpBlockSize
  | .advance n => reads = List.range (w.index + n) ∧ 0 < n ∧ w.index + n ≤ w.data.length
  | .wrap => reads = List.range w.index ∧ w.index ≤ w.data.length
  | .push =>
    reads = List.range w.index ∧ w.index ≤ w.data.length ∧ s.writeIndex < s.sizes.mpBlockSize

/-- The write of the data is going on. -/
def Writing (data : List UInt8) (p : AudioReplay × WriteCall) : Prop :=
  ∃ w, p.1.writer = some w ∧ w.data = data ∧ p.2.result = none ∧ HasRead p.1 w p.2.reads

/-- How far a stage is from the end of its round. -/
def AudioStage.rank : AudioStage → Nat
  | .alloc => 4
  | .copy => 3
  | .advance _ => 2
  | .wrap => 6
  | .push => 5

/-- How far the write is from its end. -/
def left (data : List UInt8) (p : AudioReplay × WriteCall) : Nat :=
  match p.1.writer with
  | some w => 7 * (data.length - w.index) + AudioStage.rank w.stage
  | none => 0

theorem left_eq {p : AudioReplay × WriteCall} {w : AudioWriter} (h : p.1.writer = some w) :
    left data p = 7 * (data.length - w.index) + AudioStage.rank w.stage := by
  rw [left, h]

/-- The test of the loop. -/
theorem loop_writing {index : Nat} (hlt : s.writeIndex < s.sizes.mpBlockSize)
    (hle : index ≤ data.length) :
    Returned data (s.loop data index, ⟨List.range index, returned data index⟩) ∨
      (Writing data (s.loop data index, ⟨List.range index, returned data index⟩) ∧
        left data (s.loop data index, ⟨List.range index, returned data index⟩) ≤
          7 * (data.length - index) + 4) := by
  unfold loop returned
  by_cases hmore : index < data.length
  · rw [if_pos hmore, if_pos hmore]
    split
    case isTrue => exact .inr ⟨⟨_, rfl, rfl, rfl, rfl, hmore, hlt⟩, Nat.le_refl _⟩
    case isFalse => exact .inr ⟨⟨_, rfl, rfl, rfl, rfl, hmore, hlt⟩, Nat.le_succ _⟩
  · rw [if_neg hmore, if_neg hmore]
    obtain rfl : index = data.length := by omega
    exact .inl ⟨rfl, rfl⟩

/-- What the others do does not move the write. -/
theorem Writing.aside {c : WriteCall} (h : Writing data (s, c)) (haside : Aside s s') :
    Writing data (s', c) ∧ left data (s', c) = left data (s, c) := by
  have hlt : s.writeIndex < s.sizes.mpBlockSize → s'.writeIndex < s'.sizes.mpBlockSize := by
    intro hlt
    rcases haside.writeIndex with hi | hi
    · rw [hi, haside.sizes]
      exact hlt
    · rw [hi]
      exact s'.sizes.mp_pos
  obtain ⟨w, hw, hdata, hresult, hread⟩ := h
  refine ⟨⟨w, haside.writer.trans hw, hdata, hresult, ?_⟩, by rw [left, left, haside.writer]⟩
  unfold HasRead at hread ⊢
  split at hread
  case h_1 => exact ⟨hread.1, hread.2.1, hlt hread.2.2⟩
  case h_2 => exact ⟨hread.1, hread.2.1, hlt hread.2.2⟩
  case h_3 => exact hread
  case h_4 => exact hread
  case h_5 => exact ⟨hread.1, hread.2.1, hlt hread.2.2⟩

/-- A round reads at least one byte, and no more than there are. -/
theorem remainBytes_spec {index : Nat} {stage : AudioStage} (hsize : data.length < 2 ^ 16)
    (hindex : index < data.length) (hlt : s.writeIndex < s.sizes.mpBlockSize) :
    0 < s.remainBytes ⟨data, index, stage⟩ ∧
      index + s.remainBytes ⟨data, index, stage⟩ ≤ data.length := by
  unfold remainBytes
  dsimp only
  rw [u16_of_lt (by omega)]
  omega

theorem range_append_range' (n m : Nat) :
    List.range n ++ List.range' n m = List.range (n + m) := by
  have happend := @List.range'_append_1 0 n m
  rw [Nat.zero_add] at happend
  rw [List.range_eq_range', List.range_eq_range', happend]

/-- The write has returned, or is nearer to its end. -/
def Nearer (data : List UInt8) (p q : AudioReplay × WriteCall) : Prop :=
  Returned data q ∨ (Writing data q ∧ left data q < left data p)

section Steps

variable {c : WriteCall} {data' : List UInt8} {index : Nat}

theorem Writing.hasRead {w : AudioWriter} (h : Writing data (s, c)) (hw : s.writer = some w) :
    w.data = data ∧ c.result = none ∧ HasRead s w c.reads := by
  obtain ⟨w', hw', hdata, hresult, hread⟩ := h
  obtain rfl := Option.some.inj (hw'.symm.trans hw)
  exact ⟨hdata, hresult, hread⟩

theorem Writing.alloc {block : Nat} {mp : List Nat} (h : Writing data (s, c))
    (hw : s.writer = some ⟨data', index, .alloc⟩) :
    Nearer data (s, c) (s.allocBlock ⟨data', index, .alloc⟩ block mp, c.next s .alloc) := by
  obtain ⟨rfl, hresult, hread⟩ := h.hasRead hw
  refine .inr ⟨⟨_, rfl, rfl, hresult, hread⟩, ?_⟩
  rw [@left_eq _ (s, c) _ hw, left_eq rfl]
  exact Nat.lt_succ_self _

theorem Writing.copy (h : Writing data (s, c)) (hsize : data.length < 2 ^ 16)
    (hw : s.writer = some ⟨data', index, .copy⟩) :
    Nearer data (s, c) (s.copyData ⟨data', index, .copy⟩, c.next s .copy) := by
  obtain ⟨rfl, hresult, hreads, hindex, hlt⟩ := h.hasRead hw
  obtain ⟨hpos, hle⟩ := @remainBytes_spec s data' index .copy hsize hindex hlt
  have hnext : c.next s .copy =
      { c with reads := c.reads ++ List.range' index (s.remainBytes ⟨data', index, .copy⟩) } := by
    rw [WriteCall.next, hw]
  rw [hnext]
  refine .inr ⟨⟨_, rfl, rfl, hresult, ?_, hpos, hle⟩, ?_⟩
  · exact (congrArg (· ++ _) hreads).trans (range_append_range' _ _)
  · rw [@left_eq _ (s, c) _ hw, left_eq rfl]
    exact Nat.lt_succ_self _

theorem Writing.advance {n : Nat} (h : Writing data (s, c)) (hsize : data.length < 2 ^ 16)
    (hw : s.writer = some ⟨data', index, .advance n⟩) :
    Nearer data (s, c) (s.advanceIndex ⟨data', index, .advance n⟩ n, c.next s .advance) := by
  obtain ⟨rfl, hresult, hreads, hn, hle⟩ := h.hasRead hw
  dsimp only at hn hle hsize
  have hindex : u16 (index + n) = index + n := u16_of_lt (by omega)
  refine .inr ⟨⟨_, rfl, rfl, hresult, ?_⟩, ?_⟩
  · dsimp only [HasRead]
    rw [hindex]
    exact ⟨hreads, hle⟩
  · rw [@left_eq _ (s, c) _ hw, left_eq rfl]
    dsimp only [AudioStage.rank]
    rw [hindex]
    omega

/-- The test of the loop behind a stage of the write. -/
theorem Writing.test {s₁ : AudioReplay} {stage : AudioStage}
    (hw : s.writer = some ⟨data, index, stage⟩) (hc : c = ⟨List.range index, none⟩)
    (hle : index ≤ data.length) (hlt : s₁.writeIndex < s₁.sizes.mpBlockSize)
    (hrank : 4 < AudioStage.rank stage) :
    Nearer data (s, c) (s₁.loop data index, { c with result := returned data index }) := by
  subst hc
  rcases loop_writing hlt hle with hreturned | ⟨hwriting, hleft⟩
  · exact .inl hreturned
  · refine .inr ⟨hwriting, hleft.trans_lt ?_⟩
    rw [@left_eq _ (s, _) _ hw]
    exact Nat.add_lt_add_left hrank _

theorem Writing.wrap (h : Writing data (s, c)) (hw : s.writer = some ⟨data', index, .wrap⟩) :
    Nearer data (s, c) (s.wrapIndex ⟨data', index, .wrap⟩, c.next s .wrap) := by
  obtain ⟨rfl, hresult, hreads, hle⟩ := h.hasRead hw
  have hmod : s.writeIndex % s.sizes.mpBlockSize < s.sizes.mpBlockSize :=
    Nat.mod_lt _ s.sizes.mp_pos
  rw [WriteCall.next, hw, wrapIndex]
  dsimp only
  split
  case isTrue =>
    refine .inr ⟨⟨_, rfl, rfl, hresult, hreads, hle, hmod⟩, ?_⟩
    rw [@left_eq _ (s, c) _ hw, left_eq rfl]
    exact Nat.lt_succ_self _
  case isFalse =>
    have hc : c = ⟨List.range index, none⟩ := by
      rw [← hreads, ← hresult]
    exact Writing.test hw hc hle hmod (by decide)

theorem Writing.push {queue : List DataItem} (h : Writing data (s, c))
    (hw : s.writer = some ⟨data', index, .push⟩) :
    Nearer data (s, c) (loop { s with queue } data' index, c.next s .push) := by
  obtain ⟨rfl, hresult, hreads, hle, hlt⟩ := h.hasRead hw
  have hc : c = ⟨List.range index, none⟩ := by
    rw [← hreads, ← hresult]
  rw [WriteCall.next, hw]
  exact Writing.test hw hc hle hlt (by decide)

end Steps

/-- **A step** takes the write nearer to its end, if it is one of the write. -/
theorem Writing.step {p q : AudioReplay × WriteCall} (hsize : data.length < 2 ^ 16)
    (h : Writing data p) (hstep : CallStep p a q) :
    Returned data q ∨
      (Writing data q ∧ left data q ≤ left data p ∧ (OfWrite a → left data q < left data p)) := by
  have hnearer : Nearer data p q → Returned data q ∨
      (Writing data q ∧ left data q ≤ left data p ∧ (OfWrite a → left data q < left data p)) :=
    fun hn => hn.imp_right fun hn => ⟨hn.1, hn.2.le, fun _ => hn.2⟩
  obtain ⟨s, c⟩ := p
  obtain ⟨s', c'⟩ := q
  obtain ⟨hexec, hc⟩ := hstep
  obtain rfl : c' = c.next s a := hc
  rcases exec_cases hexec with ⟨data', rfl, hw, rfl⟩ | ⟨data', index, block, mp, rfl, hw, rfl⟩ |
    ⟨data', index, rfl, hw, rfl⟩ | ⟨data', index, n, rfl, hw, rfl⟩ | ⟨data', index, rfl, hw, rfl⟩ |
    ⟨data', index, queue, rfl, hw, rfl⟩ | ⟨hother, hnew, haside⟩
  · obtain ⟨w, hw', -⟩ := h
    cases hw.symm.trans hw'
  · exact hnearer (h.alloc hw)
  · exact hnearer (h.copy hsize hw)
  · exact hnearer (h.advance hsize hw)
  · exact hnearer (h.wrap hw)
  · exact hnearer (h.push hw)
  · have hsame : c.next s a = c := by
      cases a with
      | write data' => exact absurd rfl (hnew data')
      | alloc | advance | flush | flushPush | flushClear | txComplete => rfl
      | copy | wrap | push => simp [OfWrite] at hother
    rw [hsame]
    obtain ⟨hwriting, hleft⟩ := h.aside haside
    exact .inr ⟨hwriting, hleft.le, fun ha => absurd ha hother⟩

-- --------
-- A write that does not end
-- --------

/-- A write whose index cannot reach the size. -/
def Endless (data : List UInt8) (s : AudioReplay) : Prop :=
  2 ^ 16 ≤ data.length ∧ ∃ w, s.writer = some w ∧ w.data = data ∧ w.index < 2 ^ 16

theorem loop_endless {index : Nat} (hsize : 2 ^ 16 ≤ data.length) (hindex : index < 2 ^ 16) :
    Endless data (s.loop data index) := by
  rw [loop, if_pos (by omega)]
  split
  case isTrue => exact ⟨hsize, _, rfl, rfl, hindex⟩
  case isFalse => exact ⟨hsize, _, rfl, rfl, hindex⟩

/-- A write that is endless stays so. -/
theorem Endless.step (h : Endless data s) (hexec : s.exec a = some s') : Endless data s' := by
  obtain ⟨hsize, w, hw', rfl, hindex⟩ := h
  rcases exec_cases hexec with ⟨data', rfl, hw, rfl⟩ | ⟨data', index, block, mp, rfl, hw, rfl⟩ |
    ⟨data', index, rfl, hw, rfl⟩ | ⟨data', index, n, rfl, hw, rfl⟩ | ⟨data', index, rfl, hw, rfl⟩ |
    ⟨data', index, queue, rfl, hw, rfl⟩ | ⟨-, -, haside⟩
  · cases hw.symm.trans hw'
  · cases hw.symm.trans hw'
    exact ⟨hsize, _, rfl, rfl, hindex⟩
  · cases hw.symm.trans hw'
    exact ⟨hsize, _, rfl, rfl, hindex⟩
  · cases hw.symm.trans hw'
    exact ⟨hsize, _, rfl, rfl, u16_lt _⟩
  · cases hw.symm.trans hw'
    rw [wrapIndex]
    split
    case isTrue => exact ⟨hsize, _, rfl, rfl, hindex⟩
    case isFalse => exact loop_endless hsize hindex
  · cases hw.symm.trans hw'
    exact loop_endless hsize hindex
  · exact ⟨hsize, w, haside.writer.trans hw', rfl, hindex⟩

theorem Endless.never {e : Execution CallStep} {k : Nat} (h : Endless data (e.state k).1) :
    ¬∃ n, k ≤ n ∧ Returned data (e.state n) := by
  rintro ⟨n, hn, hreturned, -⟩
  obtain ⟨-, w, hw, -⟩ := e.stays (P := fun p => Endless data p.1)
    (fun p a q h hstep => h.step hstep.1) h n hn
  rw [hreturned] at hw
  cases hw

-- --------
-- All writes
-- --------

theorem write_eq {p q : AudioReplay × WriteCall} (h : CallStep p (.write data) q) :
    p.1.writer = none ∧ q = (p.1.loop data 0, ⟨List.range 0, returned data 0⟩) := by
  obtain ⟨hexec, hcall⟩ := h
  rcases exec_cases hexec with ⟨data', ha, hw, hs⟩ | ⟨_, _, _, _, ha, -⟩ | ⟨_, _, ha, -⟩ |
    ⟨_, _, _, ha, -⟩ | ⟨_, _, ha, -⟩ | ⟨_, _, _, ha, -⟩ | ⟨-, hnew, -⟩
  · cases ha
    exact ⟨hw, Prod.ext hs hcall⟩
  · cases ha
  · cases ha
  · cases ha
  · cases ha
  · cases ha
  · exact absurd rfl (hnew data)

/-- **When a write returns.** In every execution in which the writes are served, whatever the state
of the replay is when it begins: it returns the size, and has read each byte of the buffer once, in
order, and nothing beyond it, if and only if the size is below 65536. -/
theorem audioDevWrite_returns {e : Execution CallStep} {sizes : AudioSizes} {buffer : Nat → UInt8}
    {mem : Nat → Nat → UInt8} {mp : List Nat} {k : Nat}
    (hopen : (e.state 0).1 = opened sizes buffer mem mp) (hserved : Served e)
    (hwrite : e.act k = some (.write data)) :
    (∃ n, k < n ∧ Returned data (e.state n)) ↔ data.length < 2 ^ 16 := by
  have hready : Ready (e.state k).1 := by
    refine e.stays (P := fun p => Ready p.1) (fun p a q h hstep => h.step hstep.1) (k := 0) ?_ k
      (Nat.zero_le k)
    rw [hopen]
    exact .inl sizes.mp_pos
  obtain ⟨hw, hnext⟩ := write_eq (e.step k _ hwrite)
  constructor
  · rintro ⟨n, hn, hreturned⟩
    by_contra hsize
    have hendless : Endless data (e.state (k + 1)).1 := by
      rw [hnext]
      exact loop_endless (by omega) (by omega)
    exact hendless.never ⟨n, hn, hreturned⟩
  · intro hsize
    have hlt : (e.state k).1.writeIndex < (e.state k).1.sizes.mpBlockSize :=
      hready.lt fun w hw' => by rw [hw] at hw'; cases hw'
    rcases @loop_writing _ data 0 hlt (Nat.zero_le _) with hreturned | ⟨hwriting, -⟩
    · exact ⟨k + 1, Nat.lt_succ_self k, by rw [hnext]; exact hreturned⟩
    · obtain ⟨n, hn, hreturned⟩ := @Execution.leads_to _ _ _ e (k + 1) (Writing data) _ _
        _ (fun p a q h hstep => h.step hsize hstep) (fun n _ h => hserved n (by
          obtain ⟨w, hw', -⟩ := h
          rw [hw']
          exact Option.some_ne_none w)) (by rw [hnext]; exact hwriting)
      exact ⟨n, by omega, hreturned⟩

/-- Seven bytes through two blocks of three: the last one waits for a block that a frame gives
back. -/
def sevenBytes : List AudioAct :=
  [.write [1, 2, 3, 4, 5, 6, 7], .alloc, .copy, .advance, .wrap, .push,
    .alloc, .copy, .advance, .wrap, .push, .txComplete, .alloc, .copy, .advance, .wrap]

theorem audioDevWrite_returns_seven :
    ∃ e : Execution CallStep,
      (e.state 0).1 = opened smallSizes (fun _ => 0) (fun _ _ => 0) [0, 1] ∧ Served e ∧
        e.act 0 = some (.write [1, 2, 3, 4, 5, 6, 7]) ∧
        ∃ n, 0 < n ∧ Returned [1, 2, 3, 4, 5, 6, 7] (e.state n) := by
  obtain ⟨p, hreplay, hp⟩ : ∃ p, Runs.replay (Runs.execObserved exec WriteCall.next)
      (opened smallSizes (fun _ => 0) (fun _ _ => 0) [0, 1], ⟨[], none⟩) sevenBytes = some p ∧
        p.1.writer.isNone = true := by
    have hreplay : (Runs.replay (Runs.execObserved exec WriteCall.next)
      (opened smallSizes (fun _ => 0) (fun _ _ => 0) [0, 1], ⟨[], none⟩) sevenBytes).any
        (fun p => p.1.writer.isNone) = true := by decide +kernel
    exact (Option.any_eq_true ..).1 hreplay
  have hexec : ∀ p a q, Runs.execObserved exec WriteCall.next p a = some q → CallStep p a q := by
    intro p a q hq
    obtain ⟨s', hs, rfl⟩ := Option.map_eq_some_iff.1 hq
    exact ⟨hs, rfl⟩
  obtain ⟨e, hstart, hact, hend⟩ := Execution.exists_of_replay hexec hreplay
  have hopen : (e.state 0).1 = opened smallSizes (fun _ => 0) (fun _ _ => 0) [0, 1] := by
    rw [hstart]
  have hserved : Served e := by
    intro n hn
    by_cases hlt : n < 16
    · exact ⟨15, by omega, .wrap, hact 15, by simp [OfWrite]⟩
    · rw [hend n (Nat.le_of_not_lt hlt)] at hn
      exact absurd (Option.isNone_iff_eq_none.1 hp) hn
  exact ⟨e, hopen, hserved, hact 0,
    (audioDevWrite_returns hopen hserved (hact 0)).2 (by decide)⟩

-- A write of 65536 bytes

/-- One byte a block, and one place in the replay buffer. -/
def onePlace : AudioSizes where
  blockSize := 1
  totalSize := 1
  mpBlockSize := 1
  block_pos := by decide
  block_lt := by decide
  total_pos := by decide
  total_lt := by decide
  dvd := by decide
  mp_pos := by decide
  mp_lt := by decide

/-- Where an endless write is, in a replay with one block that each frame gives back. -/
structure Turns (data : List UInt8) (s : AudioReplay) : Prop where
  size : 2 ^ 16 ≤ data.length
  sizes : s.sizes = onePlace
  readIndex : s.readIndex = 0
  pos : s.pos = 0
  stage : ∃ index stage, s.writer = some ⟨data, index, stage⟩ ∧ index < 2 ^ 16 ∧
    match stage with
    | .alloc => s.writeIndex = 0 ∧ ((∃ block, s.mp = [block] ∧ s.queue = []) ∨
      (∃ block, s.mp = [] ∧ s.queue = [⟨block, 1⟩]))
    | .copy => s.writeIndex = 0 ∧ s.mp = [] ∧ s.queue = []
    | .advance n => s.writeIndex = 0 ∧ s.mp = [] ∧ s.queue = [] ∧ n = 1
    | .wrap => s.writeIndex = 1 ∧ s.mp = [] ∧ s.queue = []
    | .push => s.writeIndex = 0 ∧ s.mp = [] ∧ s.queue = []

/-- The write takes its next step, or the block it waits for is transmitted. -/
def choose (s : AudioReplay) : AudioAct :=
  match s.writer with
  | none => .flush
  | some w =>
    match w.stage with
    | .alloc => if s.mp = [] then .txComplete else .alloc
    | .copy => .copy
    | .advance _ => .advance
    | .wrap => .wrap
    | .push => .push

theorem sendReplayFrame_one {block : Nat} (hsizes : s.sizes = onePlace)
    (hread : s.readIndex = 0) (hpos : s.pos = 0) (hqueue : s.queue = [⟨block, 1⟩]) :
    ∃ frame buffer, s.sendReplayFrame =
      .ok (frame, { s with buffer, mp := block :: s.mp, queue := [], readIndex := 0, pos := 0 }) := by
  have hblock : s.sizes.blockSize = 1 := by rw [hsizes]; rfl
  have htotal : s.sizes.totalSize = 1 := by rw [hsizes]; rfl
  have hstore : s.store s.pos (List.replicate s.sizes.blockSize 0) = .ok { s with
      buffer := blit s.buffer s.pos (List.replicate s.sizes.blockSize 0) } :=
    store_ok (by rw [List.length_replicate, hpos, hblock, htotal])
  set s₁ : AudioReplay :=
    { s with buffer := blit s.buffer s.pos (List.replicate s.sizes.blockSize 0) } with hs₁
  have hcopy : copyFrame 2 s₁ 0 0 = .ok { s with
      buffer := blit s₁.buffer (0 + 0) (slice (s.mem block) s.readIndex 1)
      mp := block :: s.mp, queue := [], readIndex := 0, pos := 0 } := by
    rw [@copyFrame_cons s₁ 1 0 0 0 1 ⟨block, 1⟩ [] hqueue (hblock ▸ Nat.one_pos)
      (hread ▸ Nat.one_pos) (show 1 < 2 ^ 16 by decide) hpos
      (show 0 + s.sizes.blockSize ≤ s.sizes.totalSize by omega)
      (show 1 = min (s.sizes.blockSize - 0) (1 - s.readIndex) by omega),
      if_pos (show s.readIndex + 1 = 1 by omega)]
    rw [show (0 + (0 + 1)) % s₁.sizes.totalSize = 0 by rw [show s₁.sizes.totalSize = 1 from htotal]]
    exact copyFrame_full (show 0 + 1 = s.sizes.blockSize by omega)
  rw [sendReplayFrame, hstore, hqueue]
  change ∃ frame buffer, (copyFrame 2 s₁ 0 0 >>= fun s' => .ok (slice s'.buffer (u16 s.pos)
    s.sizes.blockSize, s')) = _
  rw [hcopy]
  exact ⟨_, _, rfl⟩

/-- There is a next step, and the write goes on. -/
theorem Turns.step (h : Turns data s) : ∃ s', s.exec (choose s) = some s' ∧ Turns data s' := by
  obtain ⟨hsize, hsizes, hread, hpos, index, stage, hw, hindex, hstage⟩ := h
  cases stage with
  | alloc =>
    obtain ⟨hzero, ⟨block, hmp, hqueue⟩ | ⟨block, hmp, hqueue⟩⟩ := hstage
    · have hchoose : choose s = .alloc := by rw [choose, hw]; dsimp only; rw [hmp]; rfl
      refine ⟨s.allocBlock ⟨data, index, .alloc⟩ block [], ?_, hsize, hsizes, hread, hpos,
        index, .copy, rfl, hindex, hzero, rfl, hqueue⟩
      rw [hchoose, exec, hw, hmp]
    · have hchoose : choose s = .txComplete := by rw [choose, hw]; dsimp only; rw [hmp]; rfl
      obtain ⟨frame, buffer, hsend⟩ := sendReplayFrame_one hsizes hread hpos hqueue
      refine ⟨{ s with buffer, mp := block :: s.mp, queue := [], readIndex := 0, pos := 0 }, ?_,
        hsize, hsizes, rfl, rfl, index, .alloc, hw, hindex, hzero, .inl ⟨block, by rw [hmp], rfl⟩⟩
      rw [hchoose, exec, hsend]
      rfl
  | copy =>
    obtain ⟨hzero, hmp, hqueue⟩ := hstage
    have hchoose : choose s = .copy := by rw [choose, hw]
    have hone : s.remainBytes ⟨data, index, .copy⟩ = 1 := by
      rw [remainBytes, hsizes, hzero]
      dsimp only [onePlace]
      rw [show min (1 - 0) (data.length - index) = 1 by omega]
      rfl
    refine ⟨s.copyData ⟨data, index, .copy⟩, ?_, hsize, hsizes, hread, hpos, index, .advance _,
      rfl, hindex, hzero, hmp, hqueue, hone⟩
    rw [hchoose, exec, hw]
  | advance n =>
    obtain ⟨hzero, hmp, hqueue, rfl⟩ := hstage
    have hchoose : choose s = .advance := by rw [choose, hw]
    refine ⟨s.advanceIndex ⟨data, index, .advance 1⟩ 1, ?_, hsize, hsizes, hread, hpos, _, .wrap,
      rfl, u16_lt _, ?_, hmp, hqueue⟩
    · rw [hchoose, exec, hw]
    · dsimp only [advanceIndex]
      rw [hzero]
      rfl
  | wrap =>
    obtain ⟨hone, hmp, hqueue⟩ := hstage
    have hchoose : choose s = .wrap := by rw [choose, hw]
    have hmod : s.writeIndex % s.sizes.mpBlockSize = 0 := by rw [hone, hsizes]; rfl
    refine ⟨s.wrapIndex ⟨data, index, .wrap⟩, by rw [hchoose, exec, hw], ?_⟩
    rw [wrapIndex]
    dsimp only
    rw [if_pos hmod]
    exact ⟨hsize, hsizes, hread, hpos, index, .push, rfl, hindex, hmod, hmp, hqueue⟩
  | push =>
    obtain ⟨hzero, hmp, hqueue⟩ := hstage
    have hchoose : choose s = .push := by rw [choose, hw]
    have hpush : s.pushItem ⟨s.writeData, s.sizes.mpBlockSize⟩ =
        some { s with queue := [⟨s.writeData, 1⟩] } := by
      rw [pushItem, hqueue, hsizes]
      rfl
    refine ⟨loop { s with queue := [⟨s.writeData, 1⟩] } data index, ?_, ?_⟩
    · rw [hchoose, exec, hw]
      dsimp only
      rw [hpush]
      rfl
    · have hmod : s.writeIndex % s.sizes.mpBlockSize = 0 := by rw [hzero, Nat.zero_mod]
      rw [loop, if_pos (by omega), if_pos hmod]
      exact ⟨hsize, hsizes, hread, hpos, index, .alloc, rfl, hindex, hzero,
        .inr ⟨s.writeData, hmp, rfl⟩⟩

/-- Where the block is not free, it is after the next action. -/
theorem Turns.ofWrite (h : Turns data s) (hexec : s.exec (choose s) = some s') :
    OfWrite (choose s) ∨ OfWrite (choose s') := by
  obtain ⟨-, hsizes, hread, hpos, index, stage, hw, -, hstage⟩ := h
  cases stage with
  | alloc =>
    obtain ⟨-, ⟨block, hmp, hqueue⟩ | ⟨block, hmp, hqueue⟩⟩ := hstage
    · left
      rw [choose, hw]
      dsimp only
      rw [hmp]
      exact .inl rfl
    · right
      have hchoose : choose s = .txComplete := by rw [choose, hw]; dsimp only; rw [hmp]; rfl
      obtain ⟨frame, buffer, hsend⟩ := sendReplayFrame_one hsizes hread hpos hqueue
      rw [hchoose, exec, hsend] at hexec
      obtain rfl := Option.some.inj hexec
      rw [choose]
      dsimp only
      rw [hw]
      exact .inl rfl
  | copy | advance | wrap | push =>
    left
    rw [choose, hw]
    simp [OfWrite]

/-- In an execution an endless write is served for ever. -/
theorem exists_endless (hsize : 2 ^ 16 ≤ data.length) (buffer : Nat → UInt8)
    (mem : Nat → Nat → UInt8) (block : Nat) :
    ∃ e : Execution CallStep, (e.state 0).1 = opened onePlace buffer mem [block] ∧ Served e ∧
      e.act 0 = some (.write data) ∧ ¬∃ n, 0 < n ∧ Returned data (e.state n) := by
  have hloop : loop (opened onePlace buffer mem [block]) data 0 =
      { opened onePlace buffer mem [block] with writer := some ⟨data, 0, .alloc⟩ } := by
    rw [loop, if_pos (by omega)]
    rfl
  have hturns : Turns data (loop (opened onePlace buffer mem [block]) data 0) := by
    rw [hloop]
    exact ⟨hsize, rfl, rfl, rfl, 0, .alloc, rfl, by omega, rfl, .inl ⟨block, rfl, rfl⟩⟩
  have hstep : ∀ p : AudioReplay × WriteCall, Turns data p.1 →
      CallStep p (choose p.1) ((p.1.exec (choose p.1)).getD p.1, p.2.next p.1 (choose p.1)) ∧
        Turns data ((p.1.exec (choose p.1)).getD p.1) := by
    intro p hp
    obtain ⟨s', hexec, hs'⟩ := hp.step
    rw [hexec]
    exact ⟨⟨hexec, rfl⟩, hs'⟩
  obtain ⟨e, hstart, hturn⟩ := @Execution.exists_of_choice _ _ CallStep
    (fun p => Turns data p.1) _ _ hstep
    (loop (opened onePlace buffer mem [block]) data 0, ⟨[], returned data 0⟩) hturns
  have hfirst : CallStep (opened onePlace buffer mem [block], ⟨[], none⟩) (.write data)
      (e.state 0) := by
    rw [hstart]
    exact ⟨rfl, rfl⟩
  -- the write is what the write of the first step has begun
  have hserved : ∀ n, ∃ m, n ≤ m ∧ ∃ a, e.act m = some a ∧ OfWrite a := by
    intro n
    obtain ⟨hn, hact⟩ := hturn n
    obtain ⟨hn', hact'⟩ := hturn (n + 1)
    rcases hn.ofWrite (e.step n _ hact).1 with ha | ha
    · exact ⟨n, Nat.le_refl n, _, hact, ha⟩
    · exact ⟨n + 1, Nat.le_succ n, _, hact', ha⟩
  have hendless : Endless data ((e.cons hfirst).state 1).1 := by
    change Endless data (e.state 0).1
    rw [hstart]
    exact loop_endless hsize (by omega)
  refine ⟨e.cons hfirst, rfl, fun n _ => ?_, rfl, hendless.never⟩
  obtain ⟨m, hm, a, ha, hwrite⟩ := hserved n
  exact ⟨m + 1, by omega, a, ha, hwrite⟩

/-- **A write of 65536 bytes never returns.** -/
theorem audioDevWrite_endless :
    ∃ e : Execution CallStep,
      (e.state 0).1 = opened onePlace (fun _ => 0) (fun _ _ => 0) [0] ∧ Served e ∧
        e.act 0 = some (.write (List.replicate 65536 0)) ∧
        ¬∃ n, 0 < n ∧ Returned (List.replicate 65536 0) (e.state n) :=
  exists_endless (Nat.le_of_eq List.length_replicate.symm) _ _ _

end AudioReplay

end RTThread
