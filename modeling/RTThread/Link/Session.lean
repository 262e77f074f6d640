import RTThread.Rtdef

/-!
# rt-link sessions (`components/utilities/rt-link/src/rtlink.c`)

Frames, the session control block, and what a session does with a frame that it
has received: the sequence filter of `rt_link_frame_check` and the handlers
behind `rt_link_parse_frame`. Everything that leaves a session (frames sent,
bytes stored in a dataspace, callbacks, results of a service) is a list of
outputs.

Sequence numbers and counters are bytes; a frame names the message it belongs
to in a ghost field that the code does not look at.
-/

namespace RTThread.Link

-- --------
-- Frames
-- --------

/-- `RT_LINK_MAX_DATA_LENGTH`. -/
abbrev maxDataLength : Nat := 1024 - 4 - 4 - 4

/-- `RT_LINK_FRAMES_MAX`. -/
abbrev framesMax : Nat := 3

/-- `RT_LINK_SERVICE_MAX`. -/
abbrev serviceMax : Nat := 5

/-- `RT_LINK_SERVICE_RTLINK`. -/
abbrev serviceRtlink : Nat := 0

/-- `rt_link_frame_attr_e`, without the reserve. -/
inductive FrameAttr
  | resendFrame
  | confirmFrame
  | handshakeFrame
  | detachFrame
  | sessionEnd
  | longDataFrame
  | shortDataFrame
deriving DecidableEq

namespace FrameAttr

def toNat : FrameAttr → Nat
  | resendFrame => 0
  | confirmFrame => 1
  | handshakeFrame => 2
  | detachFrame => 3
  | sessionEnd => 4
  | longDataFrame => 5
  | shortDataFrame => 6

end FrameAttr

/-- `struct rt_link_frame_head`, without the constant magic. -/
structure FrameHead where
  extend : Bool
  crc : Bool
  ack : Bool
  sequence : Nat
  service : Nat
  length : Nat
deriving DecidableEq

/-- `struct rt_link_extend`. -/
structure FrameExtend where
  attr : Nat
  parameter : Nat
deriving DecidableEq

/-- `struct rt_link_frame`, with the bytes behind `real_data`. -/
structure Frame where
  head : FrameHead
  extend : FrameExtend
  attr : FrameAttr
  realData : List UInt8
  issent : Bool
  index : Nat
  total : Nat
  /-- Ghost: the message the frame was cut from. -/
  message : Nat

/-- The number of a frame's bytes. -/
def Frame.dataLen (f : Frame) : Nat := f.realData.length

/-- The frame as `frame_send` puts it on the wire: its length in the 11 bits of the head. -/
def Frame.onWire (f : Frame) : Frame :=
  { f with head := { f.head with length := f.dataLen % 2 ^ 11 } }

/-- What a `rt_uint8_t` keeps of a value. -/
def u8 (n : Nat) : Nat := n % 256

/-- `rt_link_check_seq(new, used)`. -/
def rtLinkCheckSeq (new used : Nat) : Nat :=
  if used ≤ new then new - used else new + 256 - used

/-- The number of set bits, `rt_link_utils_num1(n)`, of a byte. -/
def rtLinkUtilsNum1 (n : Nat) : Nat := ((List.range 8).filter fun i => n.testBit i).length

/-- The frame `rt_link_command_frame_send` builds. -/
def commandFrame (serv sequence : Nat) (attr : FrameAttr) (parameter : Nat) : Frame where
  head := { extend := true, crc := false, ack := false, sequence := u8 sequence, service := serv
            length := 0 }
  extend := { attr := attr.toNat, parameter := parameter }
  attr := attr
  realData := []
  issent := false
  index := 0
  total := 0
  message := 0

-- --------
-- Sessions
-- --------

/-- `rt_link_linkstate_e`. -/
inductive LinkState
  | init
  | disconn
  | connect
deriving DecidableEq

/-- `rt_link_err_e`, as far as a send ends with it. -/
inductive LinkErr
  | eok
  | error
  | etimeout
  | enomem
  | eio
deriving DecidableEq

/-- `struct rt_link_service`: whether a receive callback is set and a send waits. -/
structure Service where
  hasRecvCb : Bool
  blocking : Bool
  state : LinkState
  err : LinkErr

/-- The memory of a long frame: its size, and the bytes stored since it was allocated. -/
structure Dataspace where
  size : Nat
  bytes : Nat → Option UInt8

/-- `struct rt_link_record`. -/
structure RxRecord where
  rxSeq : Nat
  total : Nat
  longCount : Nat
  dataspace : Option Dataspace

/-- `struct rt_link_session`, with the static `ack_mask` of `_long_handle_second` and the number
of time-outs that `sendtimer` and `longframetimer` count. -/
structure Session where
  service : Nat → Option Service
  txSeq : Nat
  txDataSlist : List Frame
  rxRecord : RxRecord
  state : LinkState
  ackMask : Nat
  sendCount : Nat
  longCount : Nat

/-- What a session does to the world. -/
inductive Out
  /-- A frame given to the port. -/
  | sent (frame : Frame)
  /-- `rt_link_hw_copy` into a dataspace of this size. -/
  | stored (size offset : Nat) (bytes : List UInt8)
  /-- A service's receive callback. -/
  | recvCb (serv : Nat) (data : Dataspace) (size : Nat)
  /-- A send of a service ends. -/
  | finished (serv message : Nat) (e : LinkErr)
  /-- `RT_LINK_SEND_READY_EVENT`. -/
  | sendReady

/-- The dataspace after a copy to `offset`. -/
def Dataspace.store (d : Dataspace) (offset : Nat) (bytes : List UInt8) : Dataspace :=
  { d with bytes := fun i => if offset ≤ i then (bytes[i - offset]?).or (d.bytes i) else d.bytes i }

/-- Memory fresh from `rt_malloc`, which may fail. -/
def Dataspace.malloc (mem : Bool) (size : Nat) : Option Dataspace :=
  if mem then some { size := size, bytes := fun _ => none } else none

namespace Session

variable (s : Session) (mem : Bool) (f : Frame)

-- --------
-- Sending
-- --------

/-- `rt_link_frame_remove(service)`: the list without the frames of one message of the service.
The loop leaves when the count of the first one's `total` is used up. -/
def frameRemove (serv : Nat) : Nat → List Frame → List Frame
  | _, [] => []
  | total, f :: fs =>
    if f.head.service = serv then
      let total := u8 ((if total = 0 then f.total else total) + 255)
      if total = 0 then fs else frameRemove serv total fs
    else if total = 0 then f :: fs
    else f :: frameRemove serv total fs

/-- What a service learns at the end of a send. -/
def setErr (serv : Nat) (e : LinkErr) : Session :=
  { s with service := fun i => if i = serv then (s.service i).map ({ · with err := e })
                               else s.service i }

/-- `rt_link_service_send_finish(err)`: the message of the first frame is done. -/
def serviceSendFinish (e : LinkErr) : Session × List Out :=
  match s.txDataSlist with
  | [] => (s, [])
  | frame :: _ =>
    let serv := frame.head.service
    let s := s.setErr serv e
    ({ s with sendCount := 0, txDataSlist := frameRemove serv 0 s.txDataSlist },
      [.finished serv frame.message e])

/-- `RT_LINK_ACK_MAX`. -/
abbrev ackMax : Nat := 7

/-- The number of frames for `size` bytes, as a byte. -/
def frameTotal (size : Nat) : Nat :=
  u8 (if size % maxDataLength = 0 then size / maxDataLength else size / maxDataLength + 1)

-- --------
-- Receiving
-- --------

/-- `rt_link_frame_stop_receive(frame)`. -/
def frameStopReceive : Session :=
  { s with rxRecord := { s.rxRecord with dataspace := none, longCount := 0, total := 0 } }

/-- `rt_link_resend_handle(receive_frame)`. -/
def resendHandle : Session × List Out :=
  match s.txDataSlist.find? fun g => g.head.sequence = f.head.sequence with
  | some g => (s, [.sent g.onWire])
  | none => (s, [.sent (commandFrame f.head.service f.head.sequence .sessionEnd 0)])

/-- A service seen connected, or not. -/
def setState (serv : Nat) (state : LinkState) : Session :=
  { s with service := fun i => if i = serv then (s.service i).map ({ · with state := state })
                               else s.service i }

/-- `rt_link_confirm_handle(receive_frame)`. -/
def confirmHandle : Session × List Out :=
  let s := s.setState f.head.service .connect
  if s.state ≠ .connect then
    ({ s with state := .connect }, if s.txDataSlist = [] then [] else [.sendReady])
  else
    match s.txDataSlist with
    | [] => (s, [])
    | frame :: _ =>
      if rtLinkCheckSeq f.head.sequence frame.head.sequence ≤ frame.total then
        let (s, fin) := s.serviceSendFinish .eok
        (s, fin ++ if s.txDataSlist = [] then [] else [.sendReady])
      else (s, [])

/-- `rt_link_recv_finish(serv, data, size)`. -/
def recvFinish (serv : Nat) (data : Dataspace) (size : Nat) : List Out :=
  match s.service serv with
  | none => [.sent (commandFrame serv 0 .detachFrame 0)]
  | some sv => if sv.hasRecvCb then [.recvCb serv data size] else []

/-- `rt_link_short_handle(receive_frame)`. -/
def shortHandle : Session × List Out :=
  match Dataspace.malloc mem f.dataLen with
  | none => ({ s with rxRecord := { s.rxRecord with dataspace := none } }, [])
  | some d =>
    let confirm := if f.head.ack then
      [.sent (commandFrame f.head.service f.head.sequence .confirmFrame 0)] else []
    ({ s with rxRecord := { s.rxRecord with rxSeq := f.head.sequence, dataspace := none } },
      confirm ++ [.stored f.dataLen 0 f.realData] ++
        s.recvFinish f.head.service (d.store 0 f.realData) f.dataLen)

/-- `_long_handle_first(receive_frame)`. -/
def longHandleFirst : Session :=
  { s with rxRecord := { s.rxRecord with
      total := frameTotal f.extend.parameter
      dataspace := Dataspace.malloc mem f.extend.parameter } }

/-- `receive_frame->index` of a data frame, as a byte. -/
def rxIndex : Nat := u8 (rtLinkCheckSeq f.head.sequence s.rxRecord.rxSeq + 255)

/-- The confirm of `_long_handle_second` for a message that is whole, or that has as many parts
as `ack_mask` waits for. -/
def confirmPart (whole half : Bool) : List Out :=
  if f.head.ack then
    if whole then [.sent (commandFrame f.head.service
      (s.rxRecord.rxSeq + s.rxRecord.total) .confirmFrame 0)]
    else if half then [.sent (commandFrame f.head.service
      (s.rxRecord.rxSeq + rtLinkUtilsNum1 s.ackMask) .confirmFrame 0)]
    else []
  else []

/-- `_long_handle_second(receive_frame)`. -/
def longHandleSecond : Session × List Out :=
  let index := s.rxIndex f
  if framesMax < index ∨ s.rxRecord.longCount.testBit index then (s, [])
  else
    match s.rxRecord.dataspace with
    | none => (s, [])
    | some d =>
      let offset := maxDataLength * index
      let d := d.store offset f.realData
      let longCount := s.rxRecord.longCount ||| 2 ^ index
      let whole := decide (rtLinkUtilsNum1 longCount = s.rxRecord.total)
      let half := decide (longCount &&& s.ackMask = s.ackMask)
      let confirm := s.confirmPart f whole half
      let ackMask := if f.head.ack ∧ ¬ whole ∧ half then
        u8 (s.ackMask ||| s.ackMask <<< rtLinkUtilsNum1 ackMax) else s.ackMask
      let stored := Out.stored d.size offset f.realData
      if whole then
        ({ s with
            rxRecord := {
              rxSeq := u8 (s.rxRecord.rxSeq + s.rxRecord.total)
              total := 0
              longCount := 0
              dataspace := none }
            ackMask := ackMax },
          stored :: confirm ++ s.recvFinish f.head.service d f.extend.parameter)
      else
        ({ s with
            rxRecord := { s.rxRecord with longCount := longCount, dataspace := some d }
            ackMask := ackMask }, stored :: confirm)

/-- `rt_link_long_handle(receive_frame)`. -/
def longHandle : Session × List Out :=
  let s := if s.rxRecord.longCount = 0 then s.longHandleFirst mem f else s
  if 0 < s.rxRecord.total then s.longHandleSecond f else (s, [])

/-- `rt_link_handshake_handle(receive_frame)`. -/
def handshakeHandle : Session × List Out :=
  let s := { s with
    state := .connect
    rxRecord := { s.rxRecord with rxSeq := f.head.sequence }
    txSeq := u8 f.extend.parameter }
  if (s.service f.head.service).isSome then
    (s.setState f.head.service .connect,
      [.sent (commandFrame f.head.service f.head.sequence .confirmFrame 0)])
  else (s, [.sent (commandFrame f.head.service f.head.sequence .detachFrame 0)])

/-- `rt_link_parse_frame(receive_frame)`, with `rt_link_detach_handle` and
`rt_link_session_end_handle`. -/
def parseFrame : Session × List Out :=
  match f.attr with
  | .resendFrame => s.resendHandle f
  | .confirmFrame => s.confirmHandle f
  | .handshakeFrame => s.handshakeHandle f
  | .sessionEnd => (s.frameStopReceive, [])
  | .detachFrame => (s.setState f.head.service .disconn, [])
  | .shortDataFrame => s.shortHandle mem f
  | .longDataFrame => s.longHandle mem f

/-- The sequence check of `PARSE_FRAME_SEQ`. -/
def seqAdmits : Bool :=
  match f.attr with
  | .confirmFrame | .resendFrame =>
    match s.txDataSlist with
    | [] => true
    | frame :: _ => decide (rtLinkCheckSeq f.head.sequence s.txSeq ≤ frame.total)
  | .longDataFrame | .shortDataFrame | .sessionEnd => decide (s.rxIndex f ≤ framesMax)
  | .handshakeFrame | .detachFrame => true

/-- What `rt_link_frame_check` does with a frame whose head it has read: a frame of no service or
out of sequence ends what is being received, any other one is handled. -/
def receiveFrame : Session × List Out :=
  if f.head.service < serviceMax ∧ s.seqAdmits f then s.parseFrame mem f
  else (s.frameStopReceive, [])

/-- `rt_link_long_recv_timeout()`, with the count its timer callback has just raised. -/
def longRecvTimeout : Session × List Out :=
  let s := { s with longCount := s.longCount + 1 }
  if 5 ≤ s.longCount then ({ s.frameStopReceive with longCount := 0 }, [])
  else
    (s, ((List.range s.rxRecord.total).filter fun i => !s.rxRecord.longCount.testBit i).reverse.map
      fun i => .sent (commandFrame serviceRtlink (s.rxRecord.rxSeq + (i + 1)) .resendFrame 0))

/-- `rt_link_init`. -/
def init (service : Nat → Option Service) : Session where
  service := service
  txSeq := 129
  txDataSlist := []
  rxRecord := { rxSeq := 255, total := 0, longCount := 0, dataspace := none }
  state := .init
  ackMask := ackMax
  sendCount := 0
  longCount := 0

end Session

end RTThread.Link
