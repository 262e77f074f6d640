import RTThread.Lib.ByteMem
import RTThread.Lib.Interaction

/-!
# YMODEM (`components/utilities/ymodem/ymodem.c`)

`rym_recv_on_device` and `rym_send_on_device` as programs that interact: they put characters,
take characters or find that a wait ran out, read the tick, and call the three callbacks. The
semaphore and the chunks in which `rt_device_read` hands characters over only decide how long a
wait takes, so a wait is answered by the next character or by none.

The loops that the source does not bound have a number of rounds here; a program that used them up
performs `spin`, which has no answer. A null callback does what one does that returns
`RYM_CODE_ACK`.
-/

namespace RTThread

/-- `enum rym_code`. -/
def rymCodeNone : UInt8 := 0x00
def rymCodeSoh : UInt8 := 0x01
def rymCodeStx : UInt8 := 0x02
def rymCodeEot : UInt8 := 0x04
def rymCodeAck : UInt8 := 0x06
def rymCodeNak : UInt8 := 0x15
def rymCodeCan : UInt8 := 0x18
def rymCodeC : UInt8 := 0x43

/-- `enum rym_stage`. -/
inductive RymStage
  | none
  | establishing
  | established
  | transmitting
  | finishing
  | finished
deriving DecidableEq

/-- `RYM_ERR_TMO` and the following. -/
inductive RymErr
  | tmo
  | code
  | seq
  | crc
  | dsz
  | can
  | ack

/-- The places where a character is waited for with a limit. -/
inductive RymWait
  /-- The handshakes, `RYM_CHD_INTV_TICK`. -/
  | hello
  /-- `_rym_do_trans`, `RYM_WAIT_PKG_TICK`. -/
  | packet
  /-- `_rym_do_fin`, for the second EOT and for the last packet. -/
  | eot
  | next
  /-- `_rym_read_data`, `RYM_WAIT_CHR_TICK`. -/
  | chr
deriving DecidableEq

/-- What a callback of the sender returns and leaves behind: its code, the 128 bytes from `buf`, and
whether it set the stage to `RYM_STAGE_FINISHING`. -/
structure RymFill where
  code : UInt8
  data : List UInt8
  length_data : data.length = 128
  finishing : Bool

/-- What the programs do. -/
inductive RymOp
  | putchar (c : UInt8)
  | getchar (w : RymWait)
  /-- A character, however long it takes (`_rym_getchar`). -/
  | waitchar
  | tickGet
  | mdelay
  /-- The callbacks of the receiver. -/
  | onBegin (buf : List UInt8)
  | onData (buf : List UInt8)
  | onEnd (buf : List UInt8)
  /-- The callbacks of the sender. -/
  | fillBegin
  | fillData
  | fillEnd
  | spin

/-- The answers. -/
@[reducible] def RymOp.Ans : RymOp → Type
  | putchar _ => Unit
  | getchar _ => Option UInt8
  | waitchar => UInt8
  | tickGet => Nat
  | mdelay => Unit
  | onBegin _ => UInt8
  | onData _ => UInt8
  | onEnd _ => UInt8
  | fillBegin => RymFill
  | fillData => RymFill
  | fillEnd => RymFill
  | spin => Empty

/-- A piece of the programs. -/
abbrev Rym (α : Type) := Interact RymOp RymOp.Ans α

/-- The fields of `struct rym_ctx` that the programs change. -/
structure RymCtx where
  stage : RymStage
  buf : ByteMem

namespace Ymodem

open Interact

/-- One byte of `CRC16`. -/
def crcByte (crc : UInt16) (c : UInt8) : UInt16 :=
  (List.range 8).foldl
    (fun crc _ => if crc &&& 0x8000 ≠ 0 then crc <<< 1 ^^^ 0x1021 else crc <<< 1)
    (crc ^^^ (c.toUInt16 <<< 8))

/-- `CRC16(q, len)`. -/
def crc16 (q : List UInt8) : UInt16 := q.foldl crcByte 0

/-- The two bytes of a checksum, put together as the receiver does it. -/
def crcOf (hi lo : UInt8) : UInt16 := (hi.toUInt16 <<< 8) ||| lo.toUInt16

/-- `_RYM_SOH_PKG_SZ` and `_RYM_STX_PKG_SZ`. -/
def sohPkgSz : Nat := 1 + 2 + 128 + 2
def stxPkgSz : Nat := 1 + 2 + 1024 + 2

/-- A character of `rt_device_read`, or none when the wait runs out. -/
def awaitChar (w : RymWait) : Rym (Option UInt8) := op (.getchar w) ret

/-- `_rym_putchar(ctx, code)`. -/
def rymPutchar (code : UInt8) : Rym Unit := op (.putchar code) ret

/-- `_rym_getchar(ctx)`. -/
def rymGetchar : Rym UInt8 := op .waitchar ret

def rtTickGet : Rym Nat := op .tickGet ret

def rtThreadMdelay : Rym Unit := op .mdelay ret

/-- `ctx->on_begin`, `ctx->on_data` and `ctx->on_end` of the receiver. -/
def onBegin (buf : List UInt8) : Rym UInt8 := op (.onBegin buf) ret
def onData (buf : List UInt8) : Rym UInt8 := op (.onData buf) ret
def onEnd (buf : List UInt8) : Rym UInt8 := op (.onEnd buf) ret

/-- The same of the sender. -/
def fillBegin : Rym RymFill := op .fillBegin ret
def fillData : Rym RymFill := op .fillData ret
def fillEnd : Rym RymFill := op .fillEnd ret

/-- The rounds are used up. -/
def spin {α : Type} : Rym α := op .spin fun x : Empty => nomatch x

/-- `_rym_read_code(ctx, timeout)`. -/
def rymReadCode (ctx : RymCtx) (w : RymWait) : Rym (UInt8 × RymCtx) := do
  match ← awaitChar w with
  | some c => return (c, { ctx with buf := Function.update ctx.buf 0 c })
  | none => return (rymCodeNone, ctx)

/-- `_rym_read_data(ctx, len)` with `readlen` characters behind the code already. -/
def rymReadData (ctx : RymCtx) : Nat → Nat → Rym (Nat × RymCtx)
  | 0, readlen => return (readlen, ctx)
  | len + 1, readlen => do
    match ← awaitChar .chr with
    | some c =>
      rymReadData { ctx with buf := Function.update ctx.buf (1 + readlen) c } len (readlen + 1)
    | none => return (readlen, ctx)

-- --------
-- The receiver
-- --------

/-- The first loop of `_rym_do_handshake`, with `n` of its rounds left: the size of the packet that
begins, or none. -/
def rymHello (ctx : RymCtx) : Nat → Rym (Option Nat × RymCtx)
  | 0 => return (none, ctx)
  | n + 1 => do
    rymPutchar rymCodeC
    let (code, ctx) ← rymReadCode ctx .hello
    if code = rymCodeSoh then return (some sohPkgSz, ctx)
    else if code = rymCodeStx then return (some stxPkgSz, ctx)
    else rymHello ctx n

/-- The second loop of `_rym_do_handshake`, up to the tick `deadline`. -/
def rymHelloData (deadline dataSz : Nat) : Nat → RymCtx → Nat → Rym (Nat × RymCtx)
  | 0, _, _ => spin
  | fuel + 1, ctx, i => do
    let now ← rtTickGet
    if now ≤ deadline ∧ i < dataSz - 1 then
      let (n, ctx) ← rymReadData ctx (dataSz - 1) 0
      rtThreadMdelay
      rymHelloData deadline dataSz fuel ctx (i + n)
    else return (i, ctx)

/-- `_rym_do_handshake(ctx, tm_sec)`; `ms100` is `rt_tick_from_millisecond(100)`. -/
def rymDoHandshake (ms100 fuel tmSec : Nat) (ctx : RymCtx) : Rym (Except RymErr RymCtx) := do
  match ← rymHello { ctx with stage := .establishing } tmSec with
  | (none, _) => return .error .tmo
  | (some dataSz, ctx) =>
    let tick ← rtTickGet
    let (i, ctx) ← rymHelloData ((tick + ms100) % 2 ^ 32) dataSz fuel ctx 0
    if i ≠ dataSz - 1 then return .error .dsz
    else if ctx.buf 1 ≠ 0 ∨ ctx.buf 2 ≠ 0xFF then return .error .seq
    else if crcOf (ctx.buf (dataSz - 2)) (ctx.buf (dataSz - 1)) ≠
        crc16 (ctx.buf.loadBytes 3 (dataSz - 5)) then
      return .error .crc
    else
      let code ← onBegin (ctx.buf.loadBytes 3 (dataSz - 5))
      if code ≠ rymCodeAck then return .error .can else return .ok ctx

/-- `_rym_trans_data(ctx, data_sz, code)`: the code it stores, and `ctx`. -/
def rymTransData (dataSz : Nat) (ctx : RymCtx) : Rym (Except RymErr (UInt8 × RymCtx)) := do
  let tsz := 2 + dataSz + 2
  let (i, ctx) ← rymReadData ctx tsz 0
  if i ≠ tsz then return .error .dsz
  else if (ctx.buf 1).toNat + (ctx.buf 2).toNat ≠ 0xFF then return .error .seq
  -- the first packet once more
  else if ctx.stage = .established ∧ ctx.buf 1 = 0 then return .ok (rymCodeNone, ctx)
  else
    let ctx := { ctx with stage := .transmitting }
    if crcOf (ctx.buf (tsz - 1)) (ctx.buf tsz) ≠ crc16 (ctx.buf.loadBytes 3 dataSz) then
      return .error .crc
    else
      let code ← onData (ctx.buf.loadBytes 3 dataSz)
      return .ok (code, ctx)

/-- `RYM_END_SESSION_SEND_CAN_NUM` times `RYM_CODE_CAN`. -/
def rymPutCans : Nat → Rym Unit
  | 0 => return ()
  | n + 1 => do
    rymPutchar rymCodeCan
    rymPutCans n

/-- The loop of `_rym_do_trans`. -/
def rymTransLoop : Nat → RymCtx → Rym (Except RymErr RymCtx)
  | 0, _ => spin
  | fuel + 1, ctx => do
    let (code, ctx) ← rymReadCode ctx .packet
    if code = rymCodeEot then return .ok ctx
    else if code ≠ rymCodeSoh ∧ code ≠ rymCodeStx then return .error .code
    else
      match ← rymTransData (if code = rymCodeSoh then 128 else 1024) ctx with
      | .error e => return .error e
      | .ok (code, ctx) =>
        if code = rymCodeCan then
          rymPutCans 7
          return .error .can
        else if code = rymCodeAck then
          rymPutchar rymCodeAck
          rymTransLoop fuel ctx
        else rymTransLoop fuel ctx

/-- `_rym_do_trans(ctx)`. -/
def rymDoTrans (fuel : Nat) (ctx : RymCtx) : Rym (Except RymErr RymCtx) := do
  rymPutchar rymCodeAck
  rymPutchar rymCodeC
  rymTransLoop fuel { ctx with stage := .established }

/-- `_rym_do_fin(ctx)`. -/
def rymDoFin (ctx : RymCtx) : Rym (Except RymErr RymCtx) := do
  let ctx := { ctx with stage := .finishing }
  let _ ← onEnd (ctx.buf.loadBytes 3 128)
  rymPutchar rymCodeNak
  let (code, ctx) ← rymReadCode ctx .eot
  if code ≠ rymCodeEot then return .error .code
  else
    rymPutchar rymCodeAck
    rymPutchar rymCodeC
    let (code, ctx) ← rymReadCode ctx .next
    if code ≠ rymCodeSoh ∧ code ≠ rymCodeStx then return .error .code
    else
      let dataSz := if code = rymCodeSoh then sohPkgSz else stxPkgSz
      -- whatever the size is
      let (i, ctx) ← rymReadData ctx (sohPkgSz - 1) 0
      if i ≠ sohPkgSz - 1 then return .error .dsz
      else if ctx.buf 1 ≠ 0 ∨ ctx.buf 2 ≠ 0xFF then return .error .seq
      else if crcOf (ctx.buf (sohPkgSz - 2)) (ctx.buf (sohPkgSz - 1)) ≠
          crc16 (ctx.buf.loadBytes 3 (sohPkgSz - 5)) then
        return .error .crc
      -- the next file
      else if ctx.buf 3 ≠ 0 then
        let code ← onBegin (ctx.buf.loadBytes 3 (dataSz - 5))
        if code ≠ rymCodeAck then return .error .can else return .ok ctx
      else
        rymPutchar rymCodeAck
        return .ok { ctx with stage := .finished }

/-- The loop of `_rym_do_recv`, one round a file. -/
def rymRecvLoop (fuel : Nat) : Nat → RymCtx → Rym (Except RymErr RymCtx)
  | 0, _ => spin
  | files + 1, ctx => do
    match ← rymDoTrans fuel ctx with
    | .error e => return .error e
    | .ok ctx =>
      match ← rymDoFin ctx with
      | .error e => return .error e
      | .ok ctx =>
        if ctx.stage = .finished then return .ok ctx else rymRecvLoop fuel files ctx

/-- `_rym_do_recv(ctx, handshake_timeout)`, once its buffer is there. -/
def rymDoRecv (ms100 fuel tmSec : Nat) (ctx : RymCtx) : Rym (Except RymErr RymCtx) := do
  match ← rymDoHandshake ms100 fuel tmSec { ctx with stage := .none } with
  | .error e => return .error e
  | .ok ctx => rymRecvLoop fuel fuel ctx

-- --------
-- The sender
-- --------

/-- The characters of a list. -/
def rymWrite : List UInt8 → Rym Unit
  | [] => return ()
  | c :: cs => do
    rymPutchar c
    rymWrite cs

/-- The bytes of a packet. -/
def packetBytes (code index : UInt8) (data : List UInt8) : List UInt8 :=
  code :: index :: ~~~index :: data ++
    [(crc16 data >>> 8).toUInt8, (crc16 data).toUInt8]

/-- `_rym_send_packet(ctx, code, index)`: the checksum is over what the callback left in the
buffer. -/
def rymSendPacket (code index : UInt8) (fill : RymFill) : Rym Unit :=
  rymWrite (packetBytes code index fill.data)

/-- The loop of `_rym_do_send_handshake`. -/
def rymSendHello : Nat → Rym Bool
  | 0 => return false
  | n + 1 => do
    match ← awaitChar .hello with
    | some c => if c = rymCodeC then return true else rymSendHello n
    | none => rymSendHello n

/-- `_rym_do_send_handshake(ctx, tm_sec)`. -/
def rymDoSendHandshake (tmSec : Nat) : Rym (Except RymErr Unit) := do
  if ← rymSendHello tmSec then
    let fill ← fillBegin
    if fill.code ≠ rymCodeSoh then return .error .code
    else
      rymSendPacket rymCodeSoh 0 fill
      let ack ← rymGetchar
      if ack ≠ rymCodeAck then return .error .ack
      else
        let c ← rymGetchar
        if c ≠ rymCodeC then return .error .ack else return .ok ()
  else return .error .tmo

/-- The loop of `_rym_do_send_trans`; the parameter of `_rym_send_packet` is the low byte of
`index`. -/
def rymDoSendTrans : Nat → Nat → Rym (Except RymErr Unit)
  | 0, _ => spin
  | fuel + 1, index => do
    let fill ← fillData
    if fill.code ≠ rymCodeSoh then return .error .code
    else
      rymSendPacket rymCodeSoh (UInt8.ofNat index) fill
      let ack ← rymGetchar
      if ack ≠ rymCodeAck then return .error .ack
      else if fill.finishing then return .ok ()
      else rymDoSendTrans fuel ((index + 1) % 2 ^ 32)

/-- `_rym_do_send_fin(ctx)`. -/
def rymDoSendFin : Rym (Except RymErr Unit) := do
  rymPutchar rymCodeEot
  let nak ← rymGetchar
  if nak ≠ rymCodeNak then return .error .ack
  else
    rymPutchar rymCodeEot
    let ack ← rymGetchar
    if ack ≠ rymCodeAck then return .error .ack
    else
      let c ← rymGetchar
      if c ≠ rymCodeC then return .error .ack
      else
        let fill ← fillEnd
        if fill.code ≠ rymCodeSoh then return .error .code
        else
          rymSendPacket rymCodeSoh 0 fill
          return .ok ()

/-- `_rym_do_send(ctx, handshake_timeout)`, once its buffer is there. -/
def rymDoSend (fuel tmSec : Nat) : Rym (Except RymErr Unit) := do
  match ← rymDoSendHandshake tmSec with
  | .error e => return .error e
  | .ok () =>
    match ← rymDoSendTrans fuel 1 with
    | .error e => return .error e
    | .ok () => rymDoSendFin

end Ymodem

end RTThread
