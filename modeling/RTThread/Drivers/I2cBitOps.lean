import RTThread.Lib.TwoWire

/-!
# I²C by two pins (`i2c-bit-ops.c`)

The driver sets and reads the two lines itself. At the other end is a target, which may hold the
clock line: `inTime` tells for each time that the driver releases the clock whether the line rises
before `ops->timeout` is over. A line that did not rise stays low until it is released again. The
delays and the messages of the log are left out.
-/

namespace RTThread

open TwoWire

/-- `struct rt_i2c_msg`; `buf` is what a message sends, and as long as a message receives. -/
structure I2cMsg where
  addr : BitVec 16
  /-- `RT_I2C_RD`, `RT_I2C_ADDR_10BIT`, `RT_I2C_NO_START`, `RT_I2C_IGNORE_NACK`,
  `RT_I2C_NO_READ_ACK` and `RT_I2C_NO_STOP` -/
  rd : Bool
  tenBit : Bool
  noStart : Bool
  ignoreNack : Bool
  noReadAck : Bool
  noStop : Bool
  buf : List UInt8

/-- `struct rt_i2c_bit_ops`, with what is at the lines, and `retries` of the bus. -/
structure I2cBitOps (σ : Type) where
  wire : Wire σ
  inTime : Nat → Bool
  /-- How often the clock has been released. -/
  releases : Nat
  retries : Nat

/-- `-RT_ERROR` -/
abbrev i2cError : Int := -1

/-- `-RT_ETIMEOUT` -/
abbrev i2cTimeout : Int := -2

/-- `-RT_EIO` -/
abbrev i2cIo : Int := -8

namespace I2cBitOps

variable {σ : Type} (T : Target σ)

/-- `SET_SDA(ops, v)` -/
def setSda (o : I2cBitOps σ) (v : Bool) : I2cBitOps σ := { o with wire := o.wire.setSda T v }

/-- `SCL_L(ops)` -/
def sclL (o : I2cBitOps σ) : I2cBitOps σ := { o with wire := o.wire.setScl T false }

/-- `SCL_H(ops)`; is the line high in time? -/
def sclH (o : I2cBitOps σ) : Bool × I2cBitOps σ :=
  let released := { o with releases := o.releases + 1 }
  if o.inTime o.releases then (true, { released with wire := o.wire.setScl T true })
  else (false, released)

/-- `i2c_start` -/
def i2cStart (o : I2cBitOps σ) : I2cBitOps σ := (o.setSda T false).sclL T

/-- `i2c_restart` -/
def i2cRestart (o : I2cBitOps σ) : I2cBitOps σ :=
  (((o.setSda T true).sclH T).2.setSda T false).sclL T

/-- `i2c_stop` -/
def i2cStop (o : I2cBitOps σ) : I2cBitOps σ := ((o.setSda T false).sclH T).2.setSda T true

/-- `i2c_waitack` -/
def i2cWaitack (o : I2cBitOps σ) : Int × I2cBitOps σ :=
  match (o.setSda T true).sclH T with
  | (false, o) => (i2cTimeout, o)
  | (true, o) => (if o.wire.line then 0 else 1, o.sclL T)

/-- The loop of `i2c_writeb`, with `i` bits to go. -/
def writeLoop (data : UInt8) : Nat → I2cBitOps σ → Bool × I2cBitOps σ
  | 0, o => (true, o)
  | i + 1, o =>
    match ((o.sclL T).setSda T (data.toNat.testBit i)).sclH T with
    | (false, o) => (false, o)
    | (true, o) => writeLoop data i o

/-- `i2c_writeb` -/
def i2cWriteb (o : I2cBitOps σ) (data : UInt8) : Int × I2cBitOps σ :=
  match writeLoop T data 8 o with
  | (false, o) => (i2cTimeout, o)
  | (true, o) => (o.sclL T).i2cWaitack T

/-- The loop of `i2c_readb`, with `i` bits to go. -/
def readLoop : Nat → UInt8 → I2cBitOps σ → Option UInt8 × I2cBitOps σ
  | 0, data, o => (some data, o)
  | i + 1, data, o =>
    match o.sclH T with
    | (false, o) => (none, o)
    | (true, o) =>
      let data := data <<< 1
      readLoop i (if o.wire.line then data ||| 1 else data) (o.sclL T)

/-- `i2c_readb`; a byte, or `-RT_ETIMEOUT`. -/
def i2cReadb (o : I2cBitOps σ) : Option UInt8 × I2cBitOps σ :=
  readLoop T 8 0 (o.setSda T true)

/-- The loop of `i2c_send_bytes`, which has sent `bytes`. -/
def i2cSendBytes (ignoreNack : Bool) : List UInt8 → Nat → I2cBitOps σ → Int × I2cBitOps σ
  | [], bytes, o => (bytes, o)
  | d :: ptr, bytes, o =>
    let (ret, o) := o.i2cWriteb T d
    if 0 < ret ∨ (ignoreNack ∧ ret = 0) then i2cSendBytes ignoreNack ptr (bytes + 1) o
    else (ret, o)

/-- `i2c_send_ack_or_nack`; is the clock high in time? -/
def i2cSendAckOrNack (o : I2cBitOps σ) (ack : Bool) : Bool × I2cBitOps σ :=
  match (if ack then o.setSda T false else o).sclH T with
  | (false, o) => (false, o)
  | (true, o) => (true, o.sclL T)

/-- The loop of `i2c_recv_bytes` with `count` bytes to go, which has received `buf`. -/
def i2cRecvBytes (noReadAck : Bool) : Nat → List UInt8 → I2cBitOps σ →
    Int × List UInt8 × I2cBitOps σ
  | 0, buf, o => (buf.length, buf, o)
  | count + 1, buf, o =>
    match o.i2cReadb T with
    | (none, o) => (buf.length, buf, o)
    | (some val, o) =>
      if noReadAck then i2cRecvBytes noReadAck count (buf ++ [val]) o
      else
        match o.i2cSendAckOrNack T (count ≠ 0) with
        | (false, o) => (i2cTimeout, buf ++ [val], o)
        | (true, o) => i2cRecvBytes noReadAck count (buf ++ [val]) o

/-- The loop of `i2c_send_address`, with `retries` to go. -/
def i2cSendAddress (addr : UInt8) : Nat → I2cBitOps σ → Int × I2cBitOps σ
  | 0, o => o.i2cWriteb T addr
  | retries + 1, o =>
    let (ret, o) := o.i2cWriteb T addr
    if ret = 1 then (ret, o)
    else i2cSendAddress addr retries ((o.i2cStop T).i2cStart T)

/-- The first byte of a message with an address of seven bits. -/
def addr7 (m : I2cMsg) : UInt8 :=
  let addr1 := UInt8.ofBitVec (m.addr.setWidth 8) <<< 1
  if m.rd then addr1 ||| 1 else addr1

/-- The first byte of a message with an address of ten bits. -/
def addr10 (m : I2cMsg) : UInt8 :=
  (0xf0 : UInt8) ||| (UInt8.ofBitVec ((m.addr >>> 7).setWidth 8) &&& 0x06)

/-- `i2c_bit_send_address` -/
def i2cBitSendAddress (o : I2cBitOps σ) (m : I2cMsg) : Int × I2cBitOps σ :=
  let retries := if m.ignoreNack then 0 else o.retries
  if m.tenBit then
    let (ret, o) := i2cSendAddress T (addr10 m) retries o
    if ret ≠ 1 ∧ !m.ignoreNack then (i2cIo, o)
    else
      let (ret, o) := o.i2cWriteb T (.ofBitVec (m.addr.setWidth 8))
      if ret ≠ 1 ∧ !m.ignoreNack then (i2cIo, o)
      else if m.rd then
        let (ret, o) := i2cSendAddress T (addr10 m ||| 1) retries (o.i2cRestart T)
        if ret ≠ 1 ∧ !m.ignoreNack then (i2cIo, o) else (0, o)
      else (0, o)
  else
    let (ret, o) := i2cSendAddress T (addr7 m) retries o
    if ret ≠ 1 ∧ !m.ignoreNack then (i2cIo, o) else (0, o)

/-- One pass of the loop of `i2c_bit_xfer`: the error it leaves with, if it does, and what has been
received. -/
def xferMsg (o : I2cBitOps σ) (first : Bool) (m : I2cMsg) :
    Option Int × List UInt8 × I2cBitOps σ :=
  let (ret, o) :=
    if m.noStart then (0, o)
    else (if first then o.i2cStart T else o.i2cRestart T).i2cBitSendAddress T m
  if ret ≠ 0 ∧ !m.ignoreNack then (some ret, [], o)
  else if m.rd then
    let (ret, buf, o) := i2cRecvBytes T m.noReadAck m.buf.length [] o
    if ret < m.buf.length then (some (if 0 ≤ ret then i2cIo else ret), buf, o)
    else (none, buf, o)
  else
    let (ret, o) := i2cSendBytes T m.ignoreNack m.buf 0 o
    if ret < m.buf.length then (some (if 0 ≤ ret then i2cError else ret), [], o)
    else (none, [], o)

/-- The loop of `i2c_bit_xfer`: what it returns, what has been received by the messages, and the
message it ends with. -/
def xferLoop : I2cBitOps σ → Nat → I2cMsg → List I2cMsg →
    (Int × List (List UInt8) × I2cMsg) × I2cBitOps σ
  | o, i, m, msgs =>
    match o.xferMsg T (i = 0) m, msgs with
    | (some ret, buf, o), _ => ((ret, [buf], m), o)
    | (none, buf, o), [] => ((i + 1, [buf], m), o)
    | (none, buf, o), m' :: msgs =>
      let ((ret, bufs, last), o) := xferLoop o (i + 1) m' msgs
      ((ret, buf :: bufs, last), o)

/-- `i2c_bit_xfer` -/
def i2cBitXfer (o : I2cBitOps σ) : List I2cMsg → (Int × List (List UInt8)) × I2cBitOps σ
  | [] => ((0, []), o)
  | m :: msgs =>
    let ((ret, bufs, last), o) := xferLoop T o 0 m msgs
    ((ret, bufs), if last.noStop then o else o.i2cStop T)

end I2cBitOps

end RTThread
