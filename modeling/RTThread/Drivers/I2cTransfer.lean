import RTThread.Drivers.I2cBitOps
import RTThread.Lib.Runs

/-!
# What a transfer says to its target

`converse` is a transfer as a conversation of bytes: what goes over the lines is left out of it.
The driver that sets and reads the lines has this conversation with every target that releases
the clock in time.

A message that receives has to ask for a byte: a target that has acknowledged its address for
reading has the first bit of a byte on the line, and neither a start nor a stop is seen there.

## Main results

* `Tracks.i2cWriteb`, `Tracks.i2cReadb` — what the driver does for a byte.
* `i2c_transfers_converse` — every sequence of transfers is a sequence of conversations.
* `i2c_acknowledged_transfer` — what a transfer is to a target that acknowledges everything.
-/

namespace RTThread

open TwoWire

-- --------
-- Conversations
-- --------

namespace I2cMsg

variable {σ : Type} (T : Target σ)

/-- Bytes go out until one is not acknowledged. -/
def sayBytes (ignoreNack : Bool) : List UInt8 → Bus σ → Bool × Bus σ
  | [], b => (true, b)
  | d :: ds, b =>
    let (ack, b) := b.write T d
    if ack || ignoreNack then sayBytes ignoreNack ds b else (false, b)

/-- Bytes come in; the last one is not acknowledged. -/
def hearBytes : Nat → List UInt8 → Bus σ → List UInt8 × Bus σ
  | 0, ds, b => (ds, b)
  | n + 1, ds, b =>
    let (d, b) := b.read T (n ≠ 0)
    hearBytes n (ds ++ [d]) b

/-- A target is called until it answers. -/
def call (addr : UInt8) : Nat → Bus σ → Bool × Bus σ
  | 0, b => b.write T addr
  | retries + 1, b =>
    let (ack, b) := b.write T addr
    if ack then (true, b) else call addr retries ((b.stop T).start T)

/-- The address of a message; may the message go on? -/
def sayAddress (m : I2cMsg) (retries : Nat) (b : Bus σ) : Bool × Bus σ :=
  let retries := if m.ignoreNack then 0 else retries
  if m.tenBit then
    let (ack, b) := call T (I2cBitOps.addr10 m) retries b
    if !ack && !m.ignoreNack then (false, b)
    else
      let (ack, b) := b.write T (.ofBitVec (m.addr.setWidth 8))
      if !ack && !m.ignoreNack then (false, b)
      else if m.rd then
        let (ack, b) := call T (I2cBitOps.addr10 m ||| 1) retries (b.start T)
        (ack || m.ignoreNack, b)
      else (true, b)
  else
    let (ack, b) := call T (I2cBitOps.addr7 m) retries b
    (ack || m.ignoreNack, b)

/-- A message: the error it ends with, if it fails, and what has come in. -/
def converseMsg (m : I2cMsg) (retries : Nat) (b : Bus σ) : Option Int × List UInt8 × Bus σ :=
  let (ok, b) := if m.noStart then (true, b) else m.sayAddress T retries (b.start T)
  if !ok then (some i2cIo, [], b)
  else if m.rd then
    let (buf, b) := hearBytes T m.buf.length [] b
    (none, buf, b)
  else
    let (ok, b) := sayBytes T m.ignoreNack m.buf b
    (if ok then none else some i2cError, [], b)

/-- The messages of a transfer. -/
def converseLoop (retries : Nat) : Bus σ → Nat → I2cMsg → List I2cMsg →
    (Int × List (List UInt8)) × Bus σ
  | b, i, m, msgs =>
    match m.converseMsg T retries b, msgs with
    | (some ret, buf, b), _ => ((ret, [buf]), b)
    | (none, buf, b), [] => ((i + 1, [buf]), b)
    | (none, buf, b), m' :: msgs =>
      let ((ret, bufs), b) := converseLoop retries b (i + 1) m' msgs
      ((ret, buf :: bufs), b)

/-- A transfer. -/
def converse (retries : Nat) (b : Bus σ) : List I2cMsg → (Int × List (List UInt8)) × Bus σ
  | [] => ((0, []), b)
  | m :: msgs =>
    let (r, b) := converseLoop T retries b 0 m msgs
    (r, b.stop T)

end I2cMsg

-- --------
-- Bytes
-- --------

namespace I2cBitOps

variable {σ : Type} {T : Target σ} {o o' : I2cBitOps σ} {b : Bus σ} {w : Wire σ} {d : UInt8}
  {n i : Nat}

/-- The lines are as in `w`, and whatever else there is as in `o`. -/
structure Sets (o : I2cBitOps σ) (w : Wire σ) (o' : I2cBitOps σ) : Prop where
  wire : o'.wire = w
  inTime : o'.inTime = o.inTime
  retries : o'.retries = o.retries

theorem sets_setSda (h : Sets o w o') (v : Bool) : Sets o (w.setSda T v) (o'.setSda T v) :=
  ⟨congrArg (·.setSda T v) h.wire, h.inTime, h.retries⟩

theorem sets_sclL (h : Sets o w o') : Sets o (w.setScl T false) (o'.sclL T) :=
  ⟨congrArg (·.setScl T false) h.wire, h.inTime, h.retries⟩

theorem sets_sclH (h : Sets o w o') (hin : ∀ k, o.inTime k = true) :
    ∃ o₁, o'.sclH T = (true, o₁) ∧ Sets o (w.setScl T true) o₁ := by
  unfold sclH
  dsimp only
  rw [h.inTime, hin, if_pos rfl]
  exact ⟨_, rfl, congrArg (·.setScl T true) h.wire, rfl, h.retries⟩

theorem sets_writeLoop (hin : ∀ k, o.inTime k = true) (h : Sets o w o') :
    ∃ o₁, writeLoop T d i o' = (true, o₁) ∧ Sets o (w.sendBits T d i) o₁ := by
  induction i generalizing w o' with
  | zero => exact ⟨o', rfl, h⟩
  | succ i ih =>
    obtain ⟨o₁, hrise, h₁⟩ := sets_sclH (T := T)
      (sets_setSda (T := T) (sets_sclL (T := T) h) (d.toNat.testBit i)) hin
    obtain ⟨o₂, hloop, h₂⟩ := ih h₁
    refine ⟨o₂, ?_, h₂⟩
    rw [writeLoop, hrise]
    exact hloop

/-- **`i2c_writeb`** returns whether the byte has been acknowledged. -/
theorem sets_i2cWriteb (hin : ∀ k, o.inTime k = true) :
    ∃ o₁, o.i2cWriteb T d = (if (o.wire.writeByte T d).1 then 1 else 0, o₁) ∧
      Sets o (o.wire.writeByte T d).2 o₁ := by
  obtain ⟨o₁, hloop, h₁⟩ := sets_writeLoop (T := T) (d := d) (i := 8) hin ⟨rfl, rfl, rfl⟩
  obtain ⟨o₂, hrise, h₂⟩ := sets_sclH (T := T)
    (sets_setSda (T := T) (sets_sclL (T := T) h₁) true) hin
  refine ⟨o₂.sclL T, ?_, sets_sclL h₂⟩
  unfold i2cWriteb i2cWaitack
  rw [hloop]
  dsimp only
  rw [hrise]
  dsimp only
  rw [h₂.wire]
  unfold Wire.writeByte Wire.acknowledged Wire.clockOut
  cases Wire.line _ <;> rfl

theorem sets_readLoop (hin : ∀ k, o.inTime k = true) (h : Sets o w o') :
    ∃ o₁, readLoop T i d o' = (some (w.recvBits T i d).1, o₁) ∧
      Sets o (w.recvBits T i d).2 o₁ := by
  induction i generalizing w o' d with
  | zero => exact ⟨o', rfl, h⟩
  | succ i ih =>
    obtain ⟨o₁, hrise, h₁⟩ := sets_sclH (T := T) h hin
    obtain ⟨o₂, hloop, h₂⟩ := ih (d := Wire.shiftIn d (w.setScl T true).line)
      (sets_sclL (T := T) h₁)
    refine ⟨o₂, ?_, h₂⟩
    rw [readLoop, hrise]
    dsimp only
    rw [h₁.wire]
    exact hloop

/-- **`i2c_readb`, and the answer** to what it has read. -/
theorem sets_i2cReadb (hin : ∀ k, o.inTime k = true) (ack : Bool) :
    ∃ o₁ o₂, o.i2cReadb T = (some (o.wire.readByte T ack).1, o₁) ∧
      o₁.i2cSendAckOrNack T ack = (true, o₂) ∧ Sets o (o.wire.readByte T ack).2 o₂ := by
  obtain ⟨o₁, hloop, h₁⟩ := sets_readLoop (T := T) (d := 0) (i := 8) hin
    (sets_setSda (T := T) (o := o) ⟨rfl, rfl, rfl⟩ true)
  have hdata : Sets o
      (if ack then Wire.setSda T (Wire.recvBits T 8 0 (o.wire.setSda T true)).2 false
        else (Wire.recvBits T 8 0 (o.wire.setSda T true)).2)
      (if ack then o₁.setSda T false else o₁) := by
    cases ack with
    | false => exact h₁
    | true => exact sets_setSda h₁ false
  obtain ⟨o₂, hrise, h₂⟩ := sets_sclH (T := T) hdata hin
  refine ⟨o₁, o₂.sclL T, hloop, ?_, sets_sclL h₂⟩
  unfold i2cSendAckOrNack
  rw [hrise]

-- --------
-- Messages
-- --------

/-- The driver is where the conversation is. -/
structure Tracks (T : Target σ) (n : Nat) (o : I2cBitOps σ) (b : Bus σ) : Prop where
  aligned : Aligned T o.wire b
  inTime : ∀ k, o.inTime k = true
  retries : o.retries = n

/-- Both lines are high. -/
structure Rests (n : Nat) (o : I2cBitOps σ) (b : Bus σ) : Prop where
  quiet : Quiet o.wire b
  inTime : ∀ k, o.inTime k = true
  retries : o.retries = n

/-- No target sends, and none waits for an address. -/
def Settled (b : Bus σ) : Prop := b.mode = .off ∨ b.mode = .recv false

theorem Settled.ne_send (h : Settled b) : b.mode ≠ .send := by
  intro hsend
  rcases h with h | h
  · cases hsend.symm.trans h
  · cases hsend.symm.trans h

theorem Sets.tracks (h : Sets o w o') (hin : ∀ k, o.inTime k = true) (hr : o.retries = n)
    (haligned : Aligned T w b) : Tracks T n o' b where
  aligned := h.wire ▸ haligned
  inTime k := by
    rw [h.inTime]
    exact hin k
  retries := h.retries.trans hr

theorem Tracks.i2cWriteb (h : Tracks T n o b) (hmode : b.mode ≠ .send) (d : UInt8) :
    ∃ o₁, o.i2cWriteb T d = (if (b.write T d).1 then 1 else 0, o₁) ∧
      Tracks T n o₁ (b.write T d).2 := by
  obtain ⟨w, hwrite, haligned⟩ := h.aligned.write hmode d
  obtain ⟨o₁, heq, hsets⟩ := sets_i2cWriteb (T := T) (d := d) h.inTime
  rw [hwrite] at heq hsets
  exact ⟨o₁, heq, hsets.tracks h.inTime h.retries haligned⟩

theorem Tracks.i2cReadb (h : Tracks T n o b) (ack : Bool) :
    ∃ o₁ o₂, o.i2cReadb T = (some (b.read T ack).1, o₁) ∧
      o₁.i2cSendAckOrNack T ack = (true, o₂) ∧ Tracks T n o₂ (b.read T ack).2 := by
  obtain ⟨w, hread, haligned⟩ := h.aligned.read ack
  obtain ⟨o₁, o₂, heq, hack, hsets⟩ := sets_i2cReadb (T := T) h.inTime ack
  rw [hread] at heq hsets
  exact ⟨o₁, o₂, heq, hack, hsets.tracks h.inTime h.retries haligned⟩

theorem Rests.i2cStart (h : Rests n o b) : Tracks T n (o.i2cStart T) (b.start T) :=
  have hsets : Sets o _ (o.i2cStart T) :=
    sets_sclL (T := T) (sets_setSda (T := T) (o := o) ⟨rfl, rfl, rfl⟩ false)
  hsets.tracks h.inTime h.retries (h.quiet.start T)

theorem Tracks.i2cRestart (h : Tracks T n o b) (hmode : b.mode ≠ .send) :
    Tracks T n (o.i2cRestart T) (b.start T) := by
  obtain ⟨o₁, hrise, h₁⟩ := sets_sclH (T := T)
    (sets_setSda (T := T) (o := o) ⟨rfl, rfl, rfl⟩ true) h.inTime
  unfold I2cBitOps.i2cRestart
  rw [hrise]
  exact (sets_sclL (T := T) (sets_setSda (T := T) h₁ false)).tracks h.inTime h.retries
    (h.aligned.restart hmode)

theorem Tracks.i2cStop (h : Tracks T n o b) (hmode : b.mode ≠ .send) :
    Rests n (o.i2cStop T) (b.stop T) := by
  obtain ⟨o₁, hrise, h₁⟩ := sets_sclH (T := T)
    (sets_setSda (T := T) (o := o) ⟨rfl, rfl, rfl⟩ false) h.inTime
  have hsets := sets_setSda (T := T) h₁ true
  unfold I2cBitOps.i2cStop
  rw [hrise]
  exact ⟨hsets.wire ▸ h.aligned.stop hmode, fun k => by rw [hsets.inTime]; exact h.inTime k,
    hsets.retries.trans h.retries⟩

-- Where a byte leads to

theorem settled_write (h : Settled b) : Settled (b.write T d).2 := by
  obtain ⟨s, mode⟩ := b
  rcases h with h | h
  · cases h
    exact Or.inl rfl
  · cases h
    exact Or.inr rfl

/-- Behind an address the target sends if it has acknowledged to be read. -/
theorem write_address (h : b.mode = .recv true) : if (b.write T d).1 && d.toNat.testBit 0
    then (b.write T d).2.mode = .send else Settled (b.write T d).2 := by
  obtain ⟨s, mode⟩ := b
  cases h
  show if (T.write s d).1 && _ then Bus.next true (T.write s d).1 d = .send
    else Settled ⟨_, Bus.next true (T.write s d).1 d⟩
  unfold Bus.next Settled
  cases (T.write s d).1 <;> cases d.toNat.testBit 0 <;> simp

/-- Behind a byte that the target has sent. -/
theorem read_mode (h : Settled b ∨ b.mode = .send) (ack : Bool) :
    Settled (b.read T ack).2 ∨ (ack = true ∧ (b.read T ack).2.mode = .send) := by
  obtain ⟨s, mode⟩ := b
  rcases h with (h | h) | h
  · cases h
    exact Or.inl (Or.inl rfl)
  · cases h
    exact Or.inl (Or.inr rfl)
  · cases h
    cases ack with
    | false => exact Or.inl (Or.inl rfl)
    | true => exact Or.inr ⟨rfl, rfl⟩

-- What the functions of the driver do

theorem Tracks.i2cSendBytes (ignore : Bool) (ds : List UInt8) (bytes : Nat) (h : Tracks T n o b)
    (hb : Settled b) : ∃ ok b' o₁, I2cMsg.sayBytes T ignore ds b = (ok, b') ∧
      i2cSendBytes T ignore ds bytes o = (if ok then ((bytes + ds.length : Nat) : Int) else 0, o₁) ∧
      Tracks T n o₁ b' ∧ Settled b' ∧ (ok = false → 0 < ds.length) := by
  induction ds generalizing bytes o b with
  | nil => exact ⟨true, b, o, rfl, rfl, h, hb, fun hne => by cases hne⟩
  | cons d ds ih =>
    obtain ⟨o₁, hwrite, h₁⟩ := h.i2cWriteb hb.ne_send d
    have hb₁ : Settled (b.write T d).2 := settled_write hb
    rw [I2cMsg.sayBytes, I2cBitOps.i2cSendBytes, hwrite]
    dsimp only
    generalize b.write T d = r at h₁ hb₁
    obtain ⟨ack, b₁⟩ := r
    by_cases hgo : (ack || ignore) = true
    · obtain ⟨ok, b₂, o₂, hsay, hsend, h₂, hb₂, -⟩ := ih (bytes + 1) h₁ hb₁
      refine ⟨ok, b₂, o₂, by rw [if_pos hgo, hsay], ?_, h₂, hb₂, fun _ => Nat.succ_pos _⟩
      have hcond : 0 < (if ack then (1 : Int) else 0) ∨
          (ignore ∧ (if ack then (1 : Int) else 0) = 0) := by
        cases ack with
        | true => exact Or.inl (by decide)
        | false => exact Or.inr ⟨hgo, rfl⟩
      rw [if_pos hcond, hsend, List.length_cons, Nat.add_assoc, Nat.add_comm 1]
    · obtain ⟨rfl, rfl⟩ : ack = false ∧ ignore = false := by simpa using hgo
      exact ⟨false, b₁, o₁, rfl, rfl, h₁, hb₁, fun _ => Nat.succ_pos _⟩

theorem Tracks.i2cRecvBytes (count : Nat) (buf : List UInt8) (h : Tracks T n o b)
    (hb : Settled b ∨ (b.mode = .send ∧ 0 < count)) :
    ∃ ds b' o₁, I2cMsg.hearBytes T count buf b = (ds, b') ∧ ds.length = buf.length + count ∧
      i2cRecvBytes T false count buf o = (((ds.length : Nat) : Int), ds, o₁) ∧
      Tracks T n o₁ b' ∧ Settled b' := by
  induction count generalizing buf o b with
  | zero =>
    exact ⟨buf, b, o, rfl, rfl, rfl, h, hb.resolve_right fun hsend => absurd hsend.2 (by decide)⟩
  | succ count ih =>
    obtain ⟨o₁, o₂, hread, hack, h₂⟩ := h.i2cReadb (decide (count ≠ 0))
    -- a target that goes on sending has been asked for more
    have hmode := @read_mode _ T _ (hb.imp id And.left) (decide (count ≠ 0))
    rw [I2cMsg.hearBytes, I2cBitOps.i2cRecvBytes, hread]
    dsimp only
    rw [if_neg Bool.false_ne_true, hack]
    generalize b.read T (decide (count ≠ 0)) = r at h₂ hmode
    obtain ⟨d, b₁⟩ := r
    obtain ⟨ds, b₂, o₃, hhear, hlength, hrecv, h₃, hb₃⟩ := ih (buf ++ [d]) h₂ (by
      refine hmode.imp id fun hsend => ⟨hsend.2, ?_⟩
      exact Nat.pos_of_ne_zero (of_decide_eq_true hsend.1))
    refine ⟨ds, b₂, o₃, hhear, ?_, hrecv, h₃, hb₃⟩
    rw [hlength, List.length_append, List.length_singleton, Nat.add_assoc, Nat.add_comm 1]

/-- **Calling a target**: by induction on the calls that are left. -/
theorem Tracks.i2cSendAddress (addr : UInt8) (retries : Nat) (h : Tracks T n o b)
    (hb : b.mode = .recv true) : ∃ ack b' o₁, I2cMsg.call T addr retries b = (ack, b') ∧
      i2cSendAddress T addr retries o = (if ack then 1 else 0, o₁) ∧ Tracks T n o₁ b' ∧
      (if ack && addr.toNat.testBit 0 then b'.mode = .send else Settled b') := by
  induction retries generalizing o b with
  | zero =>
    obtain ⟨o₁, hwrite, h₁⟩ := h.i2cWriteb (by rw [hb]; intro hne; cases hne) addr
    exact ⟨_, _, o₁, rfl, hwrite, h₁, write_address hb⟩
  | succ retries ih =>
    obtain ⟨o₁, hwrite, h₁⟩ := h.i2cWriteb (by rw [hb]; intro hne; cases hne) addr
    have hmode := @write_address _ T _ addr hb
    rw [I2cMsg.call, I2cBitOps.i2cSendAddress, hwrite]
    dsimp only
    generalize b.write T addr = r at h₁ hmode
    obtain ⟨ack, b₁⟩ := r
    cases ack with
    | true => exact ⟨true, b₁, o₁, rfl, rfl, h₁, hmode⟩
    | false =>
      have hb₁ : Settled b₁ := hmode
      obtain ⟨ack, b₂, o₂, hcall, hsend, h₂, hmode₂⟩ :=
        ih (b := (b₁.stop T).start T) ((h₁.i2cStop hb₁.ne_send).i2cStart (T := T)) rfl
      exact ⟨ack, b₂, o₂, hcall, hsend, h₂, hmode₂⟩

theorem testBit_addr7 (m : I2cMsg) : (addr7 m).toNat.testBit 0 = m.rd := by
  have hshift : addr7 m = Wire.shiftIn (.ofBitVec (m.addr.setWidth 8)) m.rd := rfl
  rw [hshift, toNat_shiftIn]
  cases m.rd <;> simp [Nat.testBit_zero]

theorem testBit_addr10 (m : I2cMsg) : (addr10 m).toNat.testBit 0 = false := by
  unfold addr10
  rw [UInt8.toNat_or, Nat.testBit_or, UInt8.toNat_and, Nat.testBit_and]
  simp [Nat.testBit_zero]

/-- **The address of a message**: who is to be read sends behind it, if it answers. -/
theorem Tracks.i2cBitSendAddress {m : I2cMsg} (h : Tracks T n o b) (hb : b.mode = .recv true) :
    ∃ ok b' o₁, m.sayAddress T n b = (ok, b') ∧
      o.i2cBitSendAddress T m = (if ok then 0 else i2cIo, o₁) ∧ Tracks T n o₁ b' ∧
      (Settled b' ∨ (ok = true ∧ m.rd = true ∧ b'.mode = .send)) ∧
      (ok = false → m.ignoreNack = false) := by
  have hsome : ∀ ack, (ack || m.ignoreNack) = false → m.ignoreNack = false := by
    intro ack hfalse
    exact (Bool.or_eq_false_iff.1 hfalse).2
  have hno : ∀ ack, (!ack && !m.ignoreNack) = true → m.ignoreNack = false := by
    intro ack htrue
    simpa using (Bool.and_eq_true_iff.1 htrue).2
  -- what is made of an answer
  have hanswer : ∀ ack : Bool, ((if ack then (1 : Int) else 0) ≠ 1 ∧ (!m.ignoreNack) = true) ↔
      (!ack && !m.ignoreNack) = true := by
    intro ack
    cases ack <;> simp
  have hlast : ∀ (ack : Bool) (o : I2cBitOps σ),
      (if (!ack && !m.ignoreNack) = true then (i2cIo, o) else (0, o)) =
        (if (ack || m.ignoreNack) = true then 0 else i2cIo, o) := by
    intro ack o
    cases ack <;> cases m.ignoreNack <;> rfl
  unfold I2cMsg.sayAddress I2cBitOps.i2cBitSendAddress
  rw [h.retries]
  dsimp only
  generalize (if m.ignoreNack then 0 else n) = retries
  by_cases hten : m.tenBit = true
  · rw [if_pos hten, if_pos hten]
    obtain ⟨ack, b₁, o₁, hcall, hsend, h₁, hb₁⟩ :=
      h.i2cSendAddress (addr10 m) retries hb
    rw [testBit_addr10, Bool.and_false, if_neg Bool.false_ne_true] at hb₁
    rw [hcall, hsend]
    dsimp only
    rw [if_congr (hanswer ack) rfl rfl]
    by_cases hfail : (!ack && !m.ignoreNack) = true
    · rw [if_pos hfail, if_pos hfail]
      exact ⟨false, b₁, o₁, rfl, rfl, h₁, Or.inl hb₁, fun _ => hno _ hfail⟩
    · rw [if_neg hfail, if_neg hfail]
      obtain ⟨o₂, hwrite, h₂⟩ := h₁.i2cWriteb hb₁.ne_send (.ofBitVec (m.addr.setWidth 8))
      have hb₂ : Settled (b₁.write T (.ofBitVec (m.addr.setWidth 8))).2 := settled_write hb₁
      rw [hwrite]
      dsimp only
      generalize b₁.write T (.ofBitVec (m.addr.setWidth 8)) = r at h₂ hb₂
      obtain ⟨ack₂, b₂⟩ := r
      rw [if_congr (hanswer ack₂) rfl rfl]
      by_cases hfail₂ : (!ack₂ && !m.ignoreNack) = true
      · rw [if_pos hfail₂, if_pos hfail₂]
        exact ⟨false, b₂, o₂, rfl, rfl, h₂, Or.inl hb₂, fun _ => hno _ hfail₂⟩
      · rw [if_neg hfail₂, if_neg hfail₂]
        by_cases hrd : m.rd = true
        · rw [if_pos hrd, if_pos hrd]
          obtain ⟨ack₃, b₃, o₃, hcall₃, hsend₃, h₃, hb₃⟩ := (h₂.i2cRestart
            hb₂.ne_send).i2cSendAddress (addr10 m ||| 1) retries rfl
          rw [hcall₃, hsend₃]
          dsimp only
          rw [if_congr (hanswer ack₃) rfl rfl, hlast]
          refine ⟨_, b₃, o₃, rfl, rfl, h₃, ?_, hsome ack₃⟩
          split at hb₃
          case isTrue hack =>
            rw [Bool.and_eq_true] at hack
            exact Or.inr ⟨by rw [hack.1, Bool.true_or], hrd, hb₃⟩
          case isFalse => exact Or.inl hb₃
        · rw [if_neg hrd, if_neg hrd]
          exact ⟨true, b₂, o₂, rfl, rfl, h₂, Or.inl hb₂, fun hne => by cases hne⟩
  · rw [if_neg hten, if_neg hten]
    obtain ⟨ack, b₁, o₁, hcall, hsend, h₁, hb₁⟩ :=
      h.i2cSendAddress (addr7 m) retries hb
    rw [testBit_addr7] at hb₁
    rw [hcall, hsend]
    dsimp only
    rw [if_congr (hanswer ack) rfl rfl, hlast]
    refine ⟨_, b₁, o₁, rfl, rfl, h₁, ?_, hsome ack⟩
    split at hb₁
    case isTrue hack =>
      rw [Bool.and_eq_true] at hack
      exact Or.inr ⟨by rw [hack.1, Bool.true_or], hack.2, hb₁⟩
    case isFalse => exact Or.inl hb₁

/-- What is asked of a message. -/
structure Plain (m : I2cMsg) : Prop where
  asks : m.rd = true → 0 < m.buf.length
  answers : m.rd = true → m.noReadAck = false
  stops : m.noStop = false

/-- The start of a message, the first one or a later one. -/
theorem xferMsg_start {m : I2cMsg} {first : Bool}
    (hfirst : first = true → m.noStart = false ∧ Rests n o b)
    (hlater : first = false → Tracks T n o b ∧ Settled b) :
    ∃ ok b' o₁, (if m.noStart then (true, b) else m.sayAddress T n (b.start T)) = (ok, b') ∧
      (if m.noStart then ((0 : Int), o) else
        (if first then o.i2cStart T else o.i2cRestart T).i2cBitSendAddress T m) =
          (if ok then 0 else i2cIo, o₁) ∧ Tracks T n o₁ b' ∧
      (Settled b' ∨ (ok = true ∧ m.rd = true ∧ b'.mode = .send)) ∧
      (ok = false → m.ignoreNack = false) := by
  by_cases hstart : m.noStart = true
  · cases first with
    | true => exact absurd hstart (by simp [(hfirst rfl).1])
    | false =>
      obtain ⟨h, hb⟩ := hlater rfl
      rw [if_pos hstart, if_pos hstart]
      exact ⟨true, b, o, rfl, rfl, h, Or.inl hb, fun hne => by cases hne⟩
  · rw [if_neg hstart, if_neg hstart]
    refine Tracks.i2cBitSendAddress ?_ rfl
    cases first with
    | true => exact (hfirst rfl).2.i2cStart
    | false => exact (hlater rfl).1.i2cRestart (hlater rfl).2.ne_send

/-- **A message** of a transfer. -/
theorem xferMsg_converse {m : I2cMsg} {first : Bool} (hm : Plain m)
    (hfirst : first = true → m.noStart = false ∧ Rests n o b)
    (hlater : first = false → Tracks T n o b ∧ Settled b) :
    ∃ r buf b' o₁, m.converseMsg T n b = (r, buf, b') ∧ o.xferMsg T first m = (r, buf, o₁) ∧
      Tracks T n o₁ b' ∧ Settled b' := by
  obtain ⟨ok, b₁, o₁, hsay, hsend, h₁, hb₁, hignore⟩ := xferMsg_start hfirst hlater
  unfold I2cMsg.converseMsg I2cBitOps.xferMsg
  rw [hsay, hsend]
  dsimp only
  cases ok with
  | false =>
    have hb₁ := hb₁.resolve_right fun hsend => Bool.false_ne_true hsend.1
    have hfail : (if false = true then (0 : Int) else i2cIo) ≠ 0 ∧ (!m.ignoreNack) = true := by
      rw [hignore rfl]
      decide
    rw [if_pos hfail]
    exact ⟨_, _, b₁, o₁, rfl, rfl, h₁, hb₁⟩
  | true =>
    have hgo : ¬ ((if true = true then (0 : Int) else i2cIo) ≠ 0 ∧ (!m.ignoreNack) = true) :=
      fun hne => hne.1 rfl
    rw [if_neg hgo]
    by_cases hrd : m.rd = true
    · obtain ⟨ds, b₂, o₂, hhear, hlength, hrecv, h₂, hb₂⟩ :=
        h₁.i2cRecvBytes m.buf.length []
          (hb₁.imp id fun hsend => ⟨hsend.2.2, hm.asks hrd⟩)
      rw [if_pos hrd, hm.answers hrd, hhear, hrecv]
      dsimp only
      have hall : ¬ ((ds.length : Nat) : Int) < m.buf.length := by
        rw [hlength, List.length_nil, Nat.zero_add]
        exact Int.lt_irrefl _
      rw [if_neg hall, if_pos hrd]
      exact ⟨_, _, b₂, o₂, rfl, rfl, h₂, hb₂⟩
    · have hb₁ := hb₁.resolve_right fun hsend => hrd hsend.2.1
      obtain ⟨ok, b₂, o₂, hsay, hsend, h₂, hb₂, hsome⟩ :=
        h₁.i2cSendBytes m.ignoreNack m.buf 0 hb₁
      rw [if_neg hrd, hsay, hsend]
      dsimp only
      rw [if_neg hrd]
      refine ⟨_, _, b₂, o₂, rfl, ?_, h₂, hb₂⟩
      cases ok with
      | true =>
        have hall : ¬ ((0 + m.buf.length : Nat) : Int) < m.buf.length := by
          rw [Nat.zero_add]
          exact Int.lt_irrefl _
        rw [if_pos rfl, if_neg hall]
        rfl
      | false =>
        have hfew : (0 : Int) < m.buf.length := by
          have hpos := hsome rfl
          omega
        rw [if_neg Bool.false_ne_true, if_pos hfew]
        rfl

/-- **The loop** over the messages, by induction on those behind the next one. -/
theorem xferLoop_converse {m : I2cMsg} {msgs : List I2cMsg} (hm : ∀ m' ∈ m :: msgs, Plain m')
    (hfirst : i = 0 → m.noStart = false ∧ Rests n o b)
    (hlater : i ≠ 0 → Tracks T n o b ∧ Settled b) :
    ∃ r b' last o₁, I2cMsg.converseLoop T n b i m msgs = (r, b') ∧
      xferLoop T o i m msgs = ((r.1, r.2, last), o₁) ∧ Plain last ∧ Tracks T n o₁ b' ∧
      Settled b' := by
  induction msgs generalizing o b i m with
  | nil =>
    have hplain := hm m List.mem_cons_self
    obtain ⟨r, buf, b₁, o₁, hconverse, hxfer, h₁, hb₁⟩ := @xferMsg_converse _ T o b n m
      (decide (i = 0)) hplain (fun hi => hfirst (of_decide_eq_true hi))
      (fun hi => hlater (of_decide_eq_false hi))
    unfold I2cMsg.converseLoop I2cBitOps.xferLoop
    rw [hconverse, hxfer]
    cases r with
    | none => exact ⟨_, b₁, m, o₁, rfl, rfl, hplain, h₁, hb₁⟩
    | some ret => exact ⟨_, b₁, m, o₁, rfl, rfl, hplain, h₁, hb₁⟩
  | cons m' msgs ih =>
    have hplain := hm m List.mem_cons_self
    obtain ⟨r, buf, b₁, o₁, hconverse, hxfer, h₁, hb₁⟩ := @xferMsg_converse _ T o b n m
      (decide (i = 0)) hplain (fun hi => hfirst (of_decide_eq_true hi))
      (fun hi => hlater (of_decide_eq_false hi))
    unfold I2cMsg.converseLoop I2cBitOps.xferLoop
    rw [hconverse, hxfer]
    cases r with
    | some ret => exact ⟨_, b₁, m, o₁, rfl, rfl, hplain, h₁, hb₁⟩
    | none =>
      -- a later message does not find the lines at rest
      obtain ⟨r, b', last, o', hloop, hloop', hlast, h', hb'⟩ := ih (i := i + 1) (m := m')
        (fun m'' hm'' => hm m'' (List.mem_cons_of_mem _ hm''))
        (fun hi => absurd hi (Nat.succ_ne_zero i)) (fun _ => ⟨h₁, hb₁⟩)
      refine ⟨(r.1, buf :: r.2), b', last, o', ?_, ?_, hlast, h', hb'⟩
      · dsimp only
        rw [hloop]
      · dsimp only
        rw [hloop']

/-- **A transfer** is a conversation, between two rests of the lines. -/
theorem Rests.i2cBitXfer {msgs : List I2cMsg} (h : Rests n o b) (hm : ∀ m ∈ msgs, Plain m)
    (hstart : ∀ m ∈ msgs.head?, m.noStart = false) :
    ∃ r b' o₁, I2cMsg.converse T n b msgs = (r, b') ∧ i2cBitXfer T o msgs = (r, o₁) ∧
      Rests n o₁ b' := by
  cases msgs with
  | nil => exact ⟨_, b, o, rfl, rfl, h⟩
  | cons m msgs =>
    obtain ⟨r, b₁, last, o₁, hloop, hloop', hlast, h₁, hb₁⟩ := @xferLoop_converse _ T o b n 0 m msgs
      hm (fun _ => ⟨hstart m rfl, h⟩) (fun hne => absurd rfl hne)
    refine ⟨r, b₁.stop T, o₁.i2cStop T, ?_, ?_, h₁.i2cStop hb₁.ne_send⟩
    · unfold I2cMsg.converse
      dsimp only
      rw [hloop]
    · unfold I2cBitOps.i2cBitXfer
      dsimp only
      rw [hloop']
      dsimp only
      rw [hlast.stops, if_neg Bool.false_ne_true]

-- --------
-- Transfers
-- --------

/-- A device drives the lines with a transfer after the other. -/
def transfers (T : Target σ) : List (List I2cMsg) → I2cBitOps σ →
    List (Int × List (List UInt8)) × I2cBitOps σ
  | [], o => ([], o)
  | msgs :: rest, o =>
    let (r, o) := i2cBitXfer T o msgs
    let (rs, o) := transfers T rest o
    (r :: rs, o)

end I2cBitOps

namespace I2cMsg

variable {σ : Type}

/-- One conversation after the other. -/
def conversations (T : Target σ) (retries : Nat) : List (List I2cMsg) → Bus σ →
    List (Int × List (List UInt8)) × Bus σ
  | [], b => ([], b)
  | msgs :: rest, b =>
    let (r, b) := converse T retries b msgs
    let (rs, b) := conversations T retries rest b
    (r :: rs, b)

end I2cMsg

-- Targets that acknowledge everything

section Acknowledged

variable {σ : Type} {T : Target σ} {b : Bus σ} {s : σ}

/-- Bytes go to the target. -/
def told (T : Target σ) (s : σ) (ds : List UInt8) : σ := ds.foldl (fun s d => (T.write s d).2) s

/-- Bytes come from the target, all but the last one are acknowledged. -/
def heard (T : Target σ) : Nat → σ → List UInt8 × σ
  | 0, s => ([], s)
  | n + 1, s =>
    let (d, s) := T.read s
    let (ds, s) := heard T n (T.answered s (n ≠ 0))
    (d :: ds, s)

namespace I2cMsg

/-- The address of a message, as the bytes of each start. -/
def addressed (T : Target σ) (m : I2cMsg) (s : σ) : σ :=
  if m.tenBit then
    let s := told T s [I2cBitOps.addr10 m, .ofBitVec (m.addr.setWidth 8)]
    if m.rd then told T (T.start s) [I2cBitOps.addr10 m ||| 1] else s
  else told T s [I2cBitOps.addr7 m]

/-- What a message is to the target, and what comes in by it. -/
def exchange (T : Target σ) (m : I2cMsg) (s : σ) : List UInt8 × σ :=
  if m.rd then heard T m.buf.length (m.addressed T (T.start s))
  else ([], told T (m.addressed T (T.start s)) m.buf)

/-- What the messages of a transfer are to the target. -/
def exchanges (T : Target σ) : List I2cMsg → σ → List (List UInt8) × σ
  | [], s => ([], s)
  | m :: msgs, s =>
    let (buf, s) := m.exchange T s
    let (bufs, s) := exchanges T msgs s
    (buf :: bufs, s)

theorem sayBytes_acknowledged (hack : ∀ s d, (T.write s d).1 = true) (ignore : Bool)
    (ds : List UInt8) (s : σ) :
    sayBytes T ignore ds ⟨s, .recv false⟩ = (true, ⟨told T s ds, .recv false⟩) := by
  induction ds generalizing s with
  | nil => rfl
  | cons d ds ih =>
    have hwrite : Bus.write T ⟨s, .recv false⟩ d = (true, ⟨(T.write s d).2, .recv false⟩) := by
      simp [Bus.write, Bus.next, hack]
    rw [sayBytes, hwrite]
    exact ih _

theorem hearBytes_acknowledged (n : Nat) (ds : List UInt8) (s : σ) :
    (hearBytes T n ds ⟨s, .send⟩).1 = ds ++ (heard T n s).1 ∧ (hearBytes T n ds ⟨s, .send⟩).2.state = (heard T n s).2 := by
  induction n generalizing ds s with
  | zero => exact ⟨(List.append_nil ds).symm, rfl⟩
  | succ n ih =>
    rw [hearBytes, heard]
    cases n with
    | zero => exact ⟨rfl, rfl⟩
    | succ n =>
      obtain ⟨hds, hstate⟩ := ih (ds ++ [(T.read s).1]) (T.answered (T.read s).2 true)
      refine ⟨?_, hstate⟩
      rw [List.append_assoc] at hds
      exact hds

theorem call_acknowledged (hack : ∀ s d, (T.write s d).1 = true) (addr : UInt8) (retries : Nat)
    (s : σ) : call T addr retries ⟨s, .recv true⟩ = (true, ⟨told T s [addr],
      if addr.toNat.testBit 0 then .send else .recv false⟩) := by
  have hwrite : Bus.write T ⟨s, .recv true⟩ addr = (true, ⟨(T.write s addr).2,
      if addr.toNat.testBit 0 then .send else .recv false⟩) := by
    simp [Bus.write, Bus.next, hack]
  cases retries with
  | zero => exact hwrite
  | succ retries =>
    rw [call, hwrite]
    rfl

theorem sayAddress_acknowledged (hack : ∀ s d, (T.write s d).1 = true) (m : I2cMsg)
    (retries : Nat) (s : σ) : m.sayAddress T retries ⟨s, .recv true⟩ =
      (true, ⟨m.addressed T s, if m.rd then .send else .recv false⟩) := by
  unfold sayAddress addressed
  by_cases hten : m.tenBit = true
  · rw [if_pos hten, if_pos hten, call_acknowledged hack, I2cBitOps.testBit_addr10,
      if_neg Bool.false_ne_true]
    dsimp only
    rw [Bool.not_true, Bool.false_and, if_neg Bool.false_ne_true]
    have hwrite : ∀ d, Bus.write T ⟨told T s [I2cBitOps.addr10 m], .recv false⟩ d =
        (true, ⟨told T s [I2cBitOps.addr10 m, d], .recv false⟩) := by
      intro d
      simp [Bus.write, Bus.next, hack, told]
    rw [hwrite]
    dsimp only
    rw [Bool.not_true, Bool.false_and, if_neg Bool.false_ne_true]
    by_cases hrd : m.rd = true
    · have hodd : (I2cBitOps.addr10 m ||| 1).toNat.testBit 0 = true := by
        rw [UInt8.toNat_or, Nat.testBit_or]
        simp
      rw [if_pos hrd, if_pos hrd, if_pos hrd, Bus.start, call_acknowledged hack, if_pos hodd]
      rfl
    · rw [if_neg hrd, if_neg hrd, if_neg hrd]
  · rw [if_neg hten, if_neg hten, call_acknowledged hack, I2cBitOps.testBit_addr7]
    rfl

theorem converseMsg_acknowledged (hack : ∀ s d, (T.write s d).1 = true) {m : I2cMsg}
    (hstart : m.noStart = false) (retries : Nat) (b : Bus σ) : ∃ b',
      m.converseMsg T retries b = (none, (m.exchange T b.state).1, b') ∧
      b'.state = (m.exchange T b.state).2 := by
  unfold converseMsg exchange
  rw [hstart, if_neg Bool.false_ne_true, Bus.start, sayAddress_acknowledged hack]
  dsimp only
  rw [Bool.not_true, if_neg Bool.false_ne_true]
  by_cases hrd : m.rd = true
  · obtain ⟨hbuf, hstate⟩ := hearBytes_acknowledged (T := T) m.buf.length []
      (m.addressed T (T.start b.state))
    rw [if_pos hrd, if_pos hrd, if_pos hrd]
    exact ⟨_, congrArg (fun buf => (none, buf, _)) hbuf, hstate⟩
  · rw [if_neg hrd, if_neg hrd, if_neg hrd, sayBytes_acknowledged hack]
    exact ⟨_, rfl, rfl⟩

theorem converseLoop_acknowledged (hack : ∀ s d, (T.write s d).1 = true) (retries : Nat)
    {m : I2cMsg} {msgs : List I2cMsg} (hstart : ∀ m' ∈ m :: msgs, m'.noStart = false) (i : Nat)
    (b : Bus σ) : ∃ b', converseLoop T retries b i m msgs =
        ((((i + (m :: msgs).length : Nat) : Int), (exchanges T (m :: msgs) b.state).1), b') ∧
      b'.state = (exchanges T (m :: msgs) b.state).2 := by
  obtain ⟨b₁, hmsg, hstate₁⟩ :=
    converseMsg_acknowledged hack (hstart m List.mem_cons_self) retries b
  induction msgs generalizing m i b b₁ with
  | nil =>
    unfold converseLoop
    rw [hmsg]
    exact ⟨b₁, rfl, hstate₁⟩
  | cons m' msgs ih =>
    have hrest : ∀ m'' ∈ m' :: msgs, m''.noStart = false := fun m'' hm'' =>
      hstart m'' (List.mem_cons_of_mem m hm'')
    obtain ⟨b₂, hmsg₂, hstate₂⟩ :=
      converseMsg_acknowledged hack (hrest m' List.mem_cons_self) retries b₁
    obtain ⟨b', hloop, hstate'⟩ := ih hrest (i + 1) b₁ b₂ hmsg₂ hstate₂
    unfold converseLoop
    rw [hmsg]
    dsimp only
    rw [hloop, hstate₁]
    refine ⟨b', ?_, ?_⟩
    · rw [List.length_cons, List.length_cons, List.length_cons, Nat.add_right_comm, Nat.add_assoc]
      rfl
    · rw [hstate', hstate₁]
      rfl

end I2cMsg

end Acknowledged

namespace I2cBitOps

variable {σ : Type}

/-- **I²C by two pins.** Whatever the target does with the bytes it gets, and whichever bytes it
sends and acknowledges, if it releases the clock in time: a sequence of transfers that begins with
both lines high returns what the sequence of conversations returns, and leaves the target in the
same state and the lines high again. -/
theorem i2c_transfers_converse (T : Target σ) (o : I2cBitOps σ) (b : Bus σ)
    (hrest : Rests o.retries o b) (ts : List (List I2cMsg))
    (hplain : ∀ msgs ∈ ts, ∀ m ∈ msgs, Plain m)
    (hstart : ∀ msgs ∈ ts, ∀ m ∈ msgs.head?, m.noStart = false) :
    (transfers T ts o).1 = (I2cMsg.conversations T o.retries ts b).1 ∧
      Rests o.retries (transfers T ts o).2 (I2cMsg.conversations T o.retries ts b).2 := by
  generalize o.retries = n at hrest ⊢
  induction ts generalizing o b with
  | nil => exact ⟨rfl, hrest⟩
  | cons msgs ts ih =>
    obtain ⟨r, b₁, o₁, hconverse, hxfer, h₁⟩ := hrest.i2cBitXfer (T := T)
      (hplain msgs List.mem_cons_self) (hstart msgs List.mem_cons_self)
    obtain ⟨hresults, hrests⟩ := ih o₁ b₁ (fun msgs' h' => hplain msgs' (List.mem_cons_of_mem _ h'))
      (fun msgs' h' => hstart msgs' (List.mem_cons_of_mem _ h')) h₁
    rw [transfers, I2cMsg.conversations, hxfer, hconverse]
    exact ⟨congrArg (r :: ·) hresults, hrests⟩

/-- A target that sends what it has been told, from its address on. -/
def echo : Target (List UInt8) where
  start s := s
  stop s := s
  write s d := (true, s ++ [d])
  read s := (s.headD 0, s.tail)
  answered s _ := s

/-- Both lines are high, and the target has been told nothing. -/
def echoBus : I2cBitOps (List UInt8) := ⟨⟨true, true, [], .off⟩, fun _ => true, 0, 1⟩

/-- A message to the target `0x50`. -/
def toEcho (rd : Bool) (buf : List UInt8) : I2cMsg :=
  ⟨0x50, rd, false, false, false, false, false, buf⟩

theorem i2c_transfers_converse_echo :
    (transfers echo [[toEcho false [1, 2]], [toEcho false [3], toEcho true [0, 0]]] echoBus).1 =
      [(1, [[]]), (2, [[], [0xa0, 1]])] :=
  (i2c_transfers_converse echo echoBus ⟨[], .off⟩ ⟨⟨rfl, rfl⟩, fun _ => rfl, rfl⟩
    [[toEcho false [1, 2]], [toEcho false [3], toEcho true [0, 0]]]
    (by
      intro msgs hmsgs m hm
      simp only [List.mem_cons, List.not_mem_nil, or_false] at hmsgs
      rcases hmsgs with rfl | rfl
      · obtain rfl := List.mem_singleton.1 hm
        exact ⟨by decide, fun _ => rfl, rfl⟩
      · simp only [List.mem_cons, List.not_mem_nil, or_false] at hm
        rcases hm with rfl | rfl
        · exact ⟨by decide, fun _ => rfl, rfl⟩
        · exact ⟨by decide, fun _ => rfl, rfl⟩)
    (by
      intro msgs hmsgs m hm
      simp only [List.mem_cons, List.not_mem_nil, or_false] at hmsgs
      rcases hmsgs with rfl | rfl
      · cases hm
        rfl
      · cases hm
        rfl)).1.trans (by decide +kernel)

/-- **A target that acknowledges everything** gets exactly the bytes of the messages, each behind
its start and its address, and what it sends is what has come in; the transfer returns the number
of its messages, and a stop ends it. -/
theorem i2c_acknowledged_transfer (T : Target σ) (hack : ∀ s d, (T.write s d).1 = true)
    (o : I2cBitOps σ) (b : Bus σ) (hrest : Rests o.retries o b) (m : I2cMsg) (msgs : List I2cMsg)
    (hplain : ∀ m' ∈ m :: msgs, Plain m') (hstart : ∀ m' ∈ m :: msgs, m'.noStart = false) :
    ∃ o', i2cBitXfer T o (m :: msgs) =
        ((((m :: msgs).length : Int), (I2cMsg.exchanges T (m :: msgs) b.state).1), o') ∧
      Rests o.retries o' ⟨T.stop (I2cMsg.exchanges T (m :: msgs) b.state).2, .off⟩ := by
  obtain ⟨r, b', o', hconverse, hxfer, hrest'⟩ := hrest.i2cBitXfer (T := T) hplain
    fun m' hm' => by
      cases hm'
      exact hstart m List.mem_cons_self
  obtain ⟨b₁, hloop, hstate⟩ := I2cMsg.converseLoop_acknowledged hack o.retries hstart 0 b
  unfold I2cMsg.converse at hconverse
  dsimp only at hconverse
  rw [hloop, Nat.zero_add] at hconverse
  cases hconverse
  rw [Bus.stop, hstate] at hrest'
  exact ⟨o', hxfer, hrest'⟩

theorem i2c_acknowledged_transfer_echo : ∃ o',
    i2cBitXfer echo echoBus [toEcho false [3], toEcho true [0, 0]] = ((2, [[], [0xa0, 3]]), o') ∧
      Rests 1 o' ⟨[0xa1], .off⟩ :=
  i2c_acknowledged_transfer echo (fun _ _ => rfl) echoBus ⟨[], .off⟩
    ⟨⟨rfl, rfl⟩, fun _ => rfl, rfl⟩ (toEcho false [3]) [toEcho true [0, 0]]
    (by
      intro m hm
      simp only [List.mem_cons, List.not_mem_nil, or_false] at hm
      rcases hm with rfl | rfl
      · exact ⟨by decide, fun _ => rfl, rfl⟩
      · exact ⟨by decide, fun _ => rfl, rfl⟩)
    (by
      intro m hm
      simp only [List.mem_cons, List.not_mem_nil, or_false] at hm
      rcases hm with rfl | rfl
      · rfl
      · rfl)

end I2cBitOps

end RTThread
