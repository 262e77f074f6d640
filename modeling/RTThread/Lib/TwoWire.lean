import Mathlib.Data.Nat.Bitwise
import Mathlib.Tactic.Common
import Mathlib.Tactic.Ring

/-!
# Two-wire buses

A data line and a clock line that everybody can pull low. Data changes while the clock is low and
is read while it is high; a data line that falls while the clock is high starts a conversation, one
that rises ends it. A target is what it does with whole bytes. `Bus` is a conversation of bytes
with a target, `Wire` the same target behind the two lines, counting clocks; `Aligned` relates
them between two bytes.

A target that has acknowledged an address with the lowest bit set sends bytes until one of them is
not acknowledged, and one that has not acknowledged its address waits for the next start.

## Main results

* `Aligned.write`, `Aligned.read` — nine clocks of a byte are a byte of the conversation.
* `Quiet.start`, `Aligned.restart`, `Aligned.stop` — the conditions on the lines.
-/

namespace TwoWire

/-- What a target does. -/
structure Target (σ : Type*) where
  start : σ → σ
  stop : σ → σ
  /-- A byte comes in; does the target acknowledge it? -/
  write : σ → UInt8 → Bool × σ
  /-- The next byte that goes out. -/
  read : σ → UInt8 × σ
  /-- The byte that went out is acknowledged, or not. -/
  answered : σ → Bool → σ

/-- Who sends bytes. -/
inductive Mode
  /-- The target waits for a start. -/
  | off
  /-- The controller sends; `first` is the address. -/
  | recv (first : Bool)
  /-- The target sends. -/
  | send

/-- A conversation of bytes. -/
structure Bus (σ : Type*) where
  state : σ
  mode : Mode

namespace Bus

variable {σ : Type*}

/-- Who sends behind a byte that came in. -/
def next (first ack : Bool) (d : UInt8) : Mode :=
  if first then if ack then if d.toNat.testBit 0 then .send else .recv false else .off
  else .recv false

def start (T : Target σ) (b : Bus σ) : Bus σ := ⟨T.start b.state, .recv true⟩

def stop (T : Target σ) (b : Bus σ) : Bus σ := ⟨T.stop b.state, .off⟩

/-- The controller sends a byte. A target that sends too sees that nobody acknowledges its own. -/
def write (T : Target σ) (b : Bus σ) (d : UInt8) : Bool × Bus σ :=
  match b.mode with
  | .off => (false, b)
  | .recv first =>
    let (ack, s) := T.write b.state d
    (ack, ⟨s, next first ack d⟩)
  | .send => (false, ⟨T.answered (T.read b.state).2 false, .off⟩)

/-- The controller reads a byte. Nobody pulls the line low where no target sends. -/
def read (T : Target σ) (b : Bus σ) (ack : Bool) : UInt8 × Bus σ :=
  match b.mode with
  | .off => (255, b)
  | .recv first =>
    let (a, s) := T.write b.state 255
    (255, ⟨s, next first a 255⟩)
  | .send =>
    let (d, s) := T.read b.state
    (d, ⟨T.answered s ack, if ack then .send else .off⟩)

end Bus

-- --------
-- The lines
-- --------

/-- What a target is about between two edges of the clock. -/
inductive Phase
  | off
  /-- It has read `n` bits, whose value is `acc`. -/
  | recv (first : Bool) (acc n : Nat)
  /-- It answers a byte. -/
  | ackOut (first ack : Bool) (d : UInt8)
  /-- It sends the bit `n` of a byte, from the highest one on. -/
  | send (d : UInt8) (n : Nat)
  | masterAck
  | acked (ack : Bool)

/-- The lines as the controller drives them, and the target. -/
structure Wire (σ : Type*) where
  sda : Bool
  scl : Bool
  state : σ
  phase : Phase

/-- What the target does to the data line: `false` pulls it low. -/
def Phase.out : Phase → Bool
  | .ackOut _ ack _ => !ack
  | .send d n => d.toNat.testBit (7 - n)
  | _ => true

namespace Wire

variable {σ : Type*}

/-- The level of the data line. -/
def line (w : Wire σ) : Bool := w.sda && w.phase.out

/-- The clock rises. -/
def rise (T : Target σ) (w : Wire σ) : Wire σ :=
  match w.phase with
  | .recv first acc n => { w with phase := .recv first (2 * acc + w.line.toNat) (n + 1) }
  | .masterAck => { w with phase := .acked !w.line, state := T.answered w.state !w.line }
  | _ => w

/-- The target goes on behind a byte. -/
def behind (T : Target σ) (w : Wire σ) : Mode → Wire σ
  | .off => { w with phase := .off }
  | .recv first => { w with phase := .recv first 0 0 }
  | .send =>
    let (d, s) := T.read w.state
    { w with state := s, phase := .send d 0 }

/-- The clock falls. -/
def fall (T : Target σ) (w : Wire σ) : Wire σ :=
  match w.phase with
  | .recv first acc n =>
    if n = 8 then
      let (ack, s) := T.write w.state (.ofNat acc)
      { w with state := s, phase := .ackOut first ack (.ofNat acc) }
    else w
  | .ackOut first ack d => w.behind T (Bus.next first ack d)
  | .send d n => { w with phase := if n = 7 then .masterAck else .send d (n + 1) }
  | .acked ack => w.behind T (if ack then .send else .off)
  | _ => w

/-- The controller sets the clock line. -/
def setScl (T : Target σ) (w : Wire σ) (v : Bool) : Wire σ :=
  if v && !w.scl then { w.rise T with scl := true }
  else if !v && w.scl then { w.fall T with scl := false }
  else w

/-- The controller sets the data line. -/
def setSda (T : Target σ) (w : Wire σ) (v : Bool) : Wire σ :=
  let w' := { w with sda := v }
  if w.scl && w.line && !w'.line then { w' with state := T.start w.state, phase := .recv true 0 0 }
  else if w.scl && !w.line && w'.line then { w' with state := T.stop w.state, phase := .off }
  else w'

-- The controller's part of a byte

/-- One bit goes out. -/
def clockOut (T : Target σ) (w : Wire σ) (v : Bool) : Wire σ :=
  ((w.setScl T false).setSda T v).setScl T true

/-- The lowest `n` bits of a byte go out, the highest of them first. -/
def sendBits (T : Target σ) (d : UInt8) : Nat → Wire σ → Wire σ
  | 0, w => w
  | i + 1, w => sendBits T d i (w.clockOut T (d.toNat.testBit i))

/-- Is a byte acknowledged whose ninth clock is high? -/
def acknowledged (T : Target σ) (w : Wire σ) : Bool × Wire σ := (!w.line, w.setScl T false)

/-- A byte goes out; is it acknowledged? -/
def writeByte (T : Target σ) (w : Wire σ) (d : UInt8) : Bool × Wire σ :=
  ((sendBits T d 8 w).clockOut T true).acknowledged T

/-- A bit comes in behind others. -/
def shiftIn (d : UInt8) (v : Bool) : UInt8 := if v then d <<< 1 ||| 1 else d <<< 1

/-- `n` bits come in behind others. -/
def recvBits (T : Target σ) : Nat → UInt8 → Wire σ → UInt8 × Wire σ
  | 0, d, w => (d, w)
  | i + 1, d, w =>
    let w := w.setScl T true
    recvBits T i (shiftIn d w.line) (w.setScl T false)

/-- The answer to a byte that came in. -/
def answer (T : Target σ) (w : Wire σ) (ack : Bool) : Wire σ :=
  ((if ack then w.setSda T false else w).setScl T true).setScl T false

/-- A byte comes in, and is acknowledged or not. -/
def readByte (T : Target σ) (w : Wire σ) (ack : Bool) : UInt8 × Wire σ :=
  ((recvBits T 8 0 (w.setSda T true)).1, (recvBits T 8 0 (w.setSda T true)).2.answer T ack)

end Wire

-- --------
-- Conversations on the wire
-- --------

section Conversation

variable {σ : Type*} {T : Target σ} {w : Wire σ} {b : Bus σ} {d : UInt8} {s : σ}
  {sda scl v first : Bool} {acc n i : Nat}

open Wire

/-- Between two bytes: the clock is low, and the target is where the conversation is. A target that
sends has the first bit of its byte on the line already. -/
def Aligned (T : Target σ) (w : Wire σ) (b : Bus σ) : Prop :=
  ∃ sda, w = behind T ⟨sda, false, b.state, .off⟩ b.mode

/-- Between two conversations: both lines are high, and the target waits. -/
def Quiet (w : Wire σ) (b : Bus σ) : Prop := w = ⟨true, true, b.state, .off⟩ ∧ b.mode = .off

theorem clockOut_off : clockOut T ⟨sda, scl, s, .off⟩ v = ⟨v, true, s, .off⟩ := by
  cases scl <;> rfl

theorem clockOut_recv (hn : n ≠ 8) : clockOut T ⟨sda, scl, s, .recv first acc n⟩ v =
    ⟨v, true, s, .recv first (2 * acc + v.toNat) (n + 1)⟩ := by
  have hlow : setScl T ⟨sda, scl, s, .recv first acc n⟩ false =
      ⟨sda, false, s, .recv first acc n⟩ := by
    cases scl with
    | false => rfl
    | true => simp [setScl, fall, hn]
  unfold clockOut
  rw [hlow]
  simp [setSda, setScl, rise, line, Phase.out]

theorem sendBits_off : sendBits T d (i + 1) ⟨sda, scl, s, .off⟩ =
    ⟨d.toNat.testBit 0, true, s, .off⟩ := by
  induction i generalizing sda scl with
  | zero => exact clockOut_off
  | succ i ih =>
    rw [sendBits, clockOut_off]
    exact ih

/-- **The bits of a byte** are read one after the other. -/
theorem sendBits_recv (hn : n + (i + 1) = 8) :
    sendBits T d (i + 1) ⟨sda, scl, s, .recv first acc n⟩ = ⟨d.toNat.testBit 0, true, s,
      .recv first (acc * 2 ^ (i + 1) + d.toNat % 2 ^ (i + 1)) 8⟩ := by
  induction i generalizing sda scl acc n with
  | zero =>
    obtain rfl : n = 7 := by omega
    rw [sendBits, sendBits, clockOut_recv (by decide), Nat.toNat_testBit]
    simp [Nat.mul_comm]
  | succ i ih =>
    rw [sendBits, clockOut_recv (by omega), ih (by omega), Nat.toNat_testBit,
      Nat.mod_pow_succ (k := i + 1)]
    have hpow : 2 ^ (i + 1 + 1) = 2 * 2 ^ (i + 1) := Nat.pow_succ'
    have hacc : (2 * acc + d.toNat / 2 ^ (i + 1) % 2) * 2 ^ (i + 1) + d.toNat % 2 ^ (i + 1) =
        acc * 2 ^ (i + 1 + 1) +
          (d.toNat % 2 ^ (i + 1) + 2 ^ (i + 1) * (d.toNat / 2 ^ (i + 1) % 2)) := by
      rw [hpow]
      ring
    rw [hacc]

/-- The clock falls for the last time, and the target goes on. -/
theorem aligned_behind {phase : Phase} (mode : Mode) :
    Aligned T { behind T ⟨sda, scl, s, phase⟩ mode with scl := false } ⟨s, mode⟩ := by
  cases mode <;> exact ⟨sda, rfl⟩

/-- The target answers a byte that went out. -/
theorem clockOut_answer {ack : Bool} {s' : σ} (hwrite : T.write s (.ofNat acc) = (ack, s')) :
    clockOut T ⟨sda, true, s, .recv first acc 8⟩ true =
      ⟨true, true, s', .ackOut first ack (.ofNat acc)⟩ := by
  simp [clockOut, setScl, setSda, fall, rise, hwrite]

/-- **A byte goes out**: nine clocks are a byte of the conversation. -/
theorem Aligned.write (h : Aligned T w b) (hmode : b.mode ≠ .send) (d : UInt8) :
    ∃ w', writeByte T w d = ((b.write T d).1, w') ∧ Aligned T w' (b.write T d).2 := by
  obtain ⟨s, mode⟩ := b
  obtain ⟨sda, rfl⟩ := h
  unfold writeByte
  cases mode with
  | off =>
    have hbits : sendBits T d 8 (behind T ⟨sda, false, s, .off⟩ .off) = _ := sendBits_off
    rw [hbits, clockOut_off]
    exact ⟨_, rfl, true, rfl⟩
  | recv first =>
    have hbits : sendBits T d 8 (behind T ⟨sda, false, s, .off⟩ (.recv first)) = _ :=
      sendBits_recv (by decide)
    rw [hbits, Nat.zero_mul, Nat.zero_add, Nat.mod_eq_of_lt d.toNat_lt]
    obtain ⟨⟨ack, s'⟩, hwrite⟩ : ∃ r, T.write s d = r := ⟨_, rfl⟩
    have hbyte : UInt8.ofNat d.toNat = d := UInt8.ofNat_toNat
    rw [clockOut_answer (by rw [hbyte, hwrite]), hbyte]
    have hbus : Bus.write T ⟨s, .recv first⟩ d = (ack, ⟨s', Bus.next first ack d⟩) := by
      simp [Bus.write, hwrite]
    rw [hbus]
    refine ⟨{ behind T ⟨true, true, s', .ackOut first ack d⟩ (Bus.next first ack d) with
      scl := false }, ?_, aligned_behind _⟩
    simp [acknowledged, line, Phase.out, setScl, fall]
  | send => exact absurd rfl hmode

theorem toNat_shiftIn (d : UInt8) (v : Bool) :
    (shiftIn d v).toNat = (2 * d.toNat + v.toNat) % 256 := by
  have hall : ∀ n < 256, ∀ v : Bool,
      (shiftIn (.ofNat n) v).toNat = (2 * n + v.toNat) % 256 := by
    decide +kernel
  have hd := hall d.toNat d.toNat_lt v
  rwa [UInt8.ofNat_toNat] at hd

/-- One bit of the target comes in. -/
theorem recvBits_succ_send {acc : UInt8} (hn : n < 7) :
    recvBits T (i + 1) acc ⟨true, false, s, .send d n⟩ =
      recvBits T i (shiftIn acc (d.toNat.testBit (7 - n))) ⟨true, false, s, .send d (n + 1)⟩ := by
  have hne : n ≠ 7 := by omega
  simp [recvBits, setScl, rise, fall, line, Phase.out, hne]

/-- **The bits of a byte** of the target come in one after the other. -/
theorem recvBits_send {acc : UInt8} (hn : n + (i + 1) = 8)
    (hacc : acc.toNat = d.toNat / 2 ^ (i + 1)) :
    recvBits T (i + 1) acc ⟨true, false, s, .send d n⟩ = (d, ⟨true, false, s, .masterAck⟩) := by
  have hbit : (shiftIn acc (d.toNat.testBit (7 - n))).toNat = d.toNat / 2 ^ i := by
    obtain rfl : i = 7 - n := by omega
    rw [toNat_shiftIn, hacc, Nat.toNat_testBit, Nat.pow_succ, ← Nat.div_div_eq_div_mul]
    have hlt : d.toNat / 2 ^ (7 - n) < 256 :=
      Nat.lt_of_le_of_lt (Nat.div_le_self _ _) d.toNat_lt
    omega
  induction i generalizing n acc with
  | zero =>
    obtain rfl : n = 7 := by omega
    rw [Nat.pow_zero, Nat.div_one] at hbit
    exact Prod.ext (UInt8.toNat_inj.1 hbit) rfl
  | succ i ih =>
    rw [recvBits_succ_send (by omega)]
    refine ih (by omega) hbit ?_
    obtain rfl : i = 7 - (n + 1) := by omega
    rw [toNat_shiftIn, hbit, Nat.toNat_testBit, Nat.pow_succ, ← Nat.div_div_eq_div_mul]
    have hlt : d.toNat / 2 ^ (7 - (n + 1)) < 256 :=
      Nat.lt_of_le_of_lt (Nat.div_le_self _ _) d.toNat_lt
    omega

/-- Where nobody pulls the line low, ones come in. -/
theorem recvBits_off {acc : UInt8} : recvBits T i acc ⟨true, false, s, .off⟩ =
    ((fun d => shiftIn d true)^[i] acc, ⟨true, false, s, .off⟩) := by
  induction i generalizing acc with
  | zero => rfl
  | succ i ih =>
    rw [Function.iterate_succ_apply, ← ih]
    rfl

/-- The target reads the ones too. -/
theorem recvBits_recv {acc : UInt8} {value : Nat} (hn : n + i ≤ 7) :
    recvBits T i acc ⟨true, false, s, .recv first value n⟩ =
      ((fun d => shiftIn d true)^[i] acc,
        ⟨true, false, s, .recv first ((value + 1) * 2 ^ i - 1) (n + i)⟩) := by
  induction i generalizing acc value n with
  | zero => simp [recvBits]
  | succ i ih =>
    have hne : n + 1 ≠ 8 := by omega
    have hstep : recvBits T (i + 1) acc ⟨true, false, s, .recv first value n⟩ =
        recvBits T i (shiftIn acc true) ⟨true, false, s, .recv first (2 * value + 1) (n + 1)⟩ := by
      simp [recvBits, setScl, rise, fall, line, Phase.out, hne]
    rw [hstep, ih (by omega), Function.iterate_succ_apply, Nat.pow_succ', ← Nat.mul_assoc]
    simp [Nat.add_assoc, Nat.add_comm 1 i, Nat.add_mul, Nat.mul_comm]

theorem recvBits_snoc {acc : UInt8} : recvBits T (i + 1) acc w =
    recvBits T 1 (recvBits T i acc w).1 (recvBits T i acc w).2 := by
  induction i generalizing acc w with
  | zero => rfl
  | succ i ih =>
    rw [recvBits]
    exact ih

/-- The target answers what it has read. -/
theorem recvBits_last {acc : UInt8} {a : Bool} {s' : σ} (hwrite : T.write s 255 = (a, s')) :
    recvBits T 1 acc ⟨true, false, s, .recv first 127 7⟩ =
      (shiftIn acc true, ⟨true, false, s', .ackOut first a 255⟩) := by
  have hbyte : UInt8.ofNat 255 = 255 := rfl
  simp [recvBits, setScl, rise, fall, line, Phase.out, hbyte, hwrite]

theorem ones_eq : (fun d => shiftIn d true)^[8] 0 = 255 := by decide

/-- **A byte comes in.** -/
theorem Aligned.read (h : Aligned T w b) (ack : Bool) :
    ∃ w', readByte T w ack = ((b.read T ack).1, w') ∧ Aligned T w' (b.read T ack).2 := by
  obtain ⟨s, mode⟩ := b
  obtain ⟨sda, rfl⟩ := h
  unfold readByte
  cases mode with
  | off =>
    have hbits : recvBits T 8 0 (setSda T (behind T ⟨sda, false, s, .off⟩ .off) true) = _ :=
      recvBits_off
    rw [hbits, ones_eq]
    cases ack <;> exact ⟨_, rfl, _, rfl⟩
  | recv first =>
    obtain ⟨⟨a, s'⟩, hwrite⟩ : ∃ r, T.write s 255 = r := ⟨_, rfl⟩
    have hbits : recvBits T 7 0 (setSda T (behind T ⟨sda, false, s, .off⟩ (.recv first)) true) =
        ((fun d => shiftIn d true)^[7] 0, ⟨true, false, s, .recv first 127 7⟩) :=
      recvBits_recv (by decide)
    have hbus : Bus.read T ⟨s, .recv first⟩ ack = (255, ⟨s', Bus.next first a 255⟩) := by
      simp [Bus.read, hwrite]
    rw [recvBits_snoc, hbits, recvBits_last hwrite, hbus]
    refine ⟨_, Prod.ext ones_eq rfl, ?_⟩
    cases ack with
    | false => exact aligned_behind (Bus.next first a 255)
    | true => exact aligned_behind (Bus.next first a 255)
  | send =>
    obtain ⟨⟨d, s'⟩, hread⟩ : ∃ r, T.read s = r := ⟨_, rfl⟩
    have hw : setSda T (behind T ⟨sda, false, s, .off⟩ .send) true =
        ⟨true, false, s', .send d 0⟩ := by
      simp [behind, setSda, hread]
    have hbits : recvBits T 8 0 ⟨true, false, s', .send d 0⟩ = (d, _) :=
      recvBits_send (by decide) (Nat.div_eq_of_lt d.toNat_lt).symm
    have hbus : Bus.read T ⟨s, .send⟩ ack =
        (d, ⟨T.answered s' ack, if ack then .send else .off⟩) := by
      simp [Bus.read, hread]
    rw [hw, hbits, hbus]
    cases ack with
    | false => exact ⟨_, rfl, _, rfl⟩
    | true => exact ⟨_, rfl, _, rfl⟩

-- The conditions on the lines

/-- The data line falls while the clock is high. -/
theorem Quiet.start (h : Quiet w b) (T : Target σ) :
    Aligned T ((w.setSda T false).setScl T false) (b.start T) := by
  obtain ⟨rfl, -⟩ := h
  exact ⟨false, rfl⟩

/-- A start where a byte could begin. -/
theorem Aligned.restart (h : Aligned T w b) (hmode : b.mode ≠ .send) :
    Aligned T ((((w.setSda T true).setScl T true).setSda T false).setScl T false) (b.start T) := by
  obtain ⟨s, mode⟩ := b
  obtain ⟨sda, rfl⟩ := h
  cases mode with
  | off => exact ⟨false, rfl⟩
  | recv first => exact ⟨false, rfl⟩
  | send => exact absurd rfl hmode

/-- The data line rises while the clock is high. -/
theorem Aligned.stop (h : Aligned T w b) (hmode : b.mode ≠ .send) :
    Quiet (((w.setSda T false).setScl T true).setSda T true) (b.stop T) := by
  obtain ⟨s, mode⟩ := b
  obtain ⟨sda, rfl⟩ := h
  cases mode with
  | off => exact ⟨rfl, rfl⟩
  | recv first => exact ⟨rfl, rfl⟩
  | send => exact absurd rfl hmode

end Conversation

end TwoWire
