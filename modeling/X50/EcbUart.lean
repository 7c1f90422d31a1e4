/-
# `X50.EcbUart` — the link to the electrical board

A frame of `uart/ecb_uart.c`:

    e6 e6 | seq (2) | command (1) | length (2) | payload | crc (2) | 6e 6e

with all numbers big-endian.  `ecb_uart_send_msg` writes one,
`ecb_uart_parse_msg` looks for one in the bytes it is given, `uart_parse_msg`
calls it until the bytes are used up, and `ecb_recv_cb` does that after every
`read`.

What the parser does to the rest of the program is a list of events; the
actions of an accepted frame are in `EcbEvent.actions`.
-/
import X50.Lib.Machine

namespace X50

open X50.Lib

/-! ## Sending -/

def invertUint16 (srcBuf : UInt16) : UInt16 :=
  (List.range 16).foldl (fun tmp i =>
    if srcBuf &&& ((1 : UInt16) <<< i.toUInt16) ≠ 0 then tmp ||| ((1 : UInt16) <<< (15 - i).toUInt16) else tmp) 0

/-- One turn of the bit loop of `CRC16_MAXIM`. -/
def crc16Bit (wCPoly wCRCin : UInt16) : UInt16 :=
  if wCRCin &&& 0x01 ≠ 0 then (wCRCin >>> 1) ^^^ wCPoly else wCRCin >>> 1

/-- One turn of the byte loop of `CRC16_MAXIM`. -/
def crc16Byte (wCPoly wCRCin : UInt16) (data : UInt8) : UInt16 :=
  (List.range 8).foldl (fun w _ => crc16Bit wCPoly w) (wCRCin ^^^ data.toUInt16)

def crc16Maxim (data : List UInt8) : UInt16 :=
  data.foldl (crc16Byte (invertUint16 0x8005)) 0 ^^^ 0xFFFF

def hi8 (n : Nat) : UInt8 := UInt8.ofNat (n >>> 8)

/-- `n & 0xff` -/
def lo8 (n : Nat) : UInt8 := UInt8.ofNat (n &&& 0xff)

/-- `hi * 256 + lo` -/
def be16 (hi lo : UInt8) : Nat := hi.toNat * 256 + lo.toNat

/-- What the frames of the link say. -/
structure EcbMsg where
  command : UInt8
  seqId : UInt16
  payload : List UInt8
deriving DecidableEq, Repr

/-- The bytes `ecb_uart_send_msg` writes for a sequence number already chosen. -/
def ecbFrame (command : UInt8) (msg : List UInt8) (seqId : Nat) : List UInt8 :=
  let body := [hi8 seqId, lo8 seqId, command, hi8 msg.length, lo8 msg.length] ++ msg
  let crc16 := (crc16Maxim body).toNat
  [0xe6, 0xe6] ++ body ++ [hi8 crc16, lo8 crc16, 0x6e, 0x6e]

/-- `ecb_uart_send_msg`: the bytes written and the new `ecb_seq_id`. -/
def ecbUartSendMsg (command : UInt8) (msg : List UInt8) (seqId : Int) (ecbSeqId : UInt16) :
    List UInt8 × UInt16 :=
  if seqId < 0 then (ecbFrame command msg ecbSeqId.toNat, ecbSeqId + 1)
  else (ecbFrame command msg seqId.toNat, ecbSeqId)

def EcbMsg.frame (m : EcbMsg) : List UInt8 := ecbFrame m.command m.payload m.seqId.toNat

/-! ## Parsing -/

inductive ReadStatus where
  | valid
  | noHeader
  | lenSmall
  | lenErr
  | checkErr
  | tailerErr
deriving DecidableEq, Repr

/-- What a parser returns: its status, `*end`, and what it did on the way. -/
structure ReadResult (ε : Type) where
  status : ReadStatus
  consumed : Int
  events : List ε

/-- What `ecb_uart_parse_msg` does to the rest of the program. -/
inductive EcbEvent where
  /-- `ecb_uart_send_nak(ECB_NAK_TAILER, seq_id)` -/
  | nakTailer (seqId : UInt16)
  /-- a frame is acted upon; `next` is what the buffer holds behind its payload -/
  | dispatch (msg : EcbMsg) (next : List UInt8)
deriving DecidableEq, Repr

def EcbEvent.msg : EcbEvent → Option EcbMsg
  | .nakTailer _ => none
  | .dispatch m _ => some m

def ecbMsgMinLen : Nat := 11

def byteAt (input : List UInt8) (i : Nat) : UInt8 := input.getD i 0

/-- The header loop: the first `i` with `in[i] == 0xe6 && in[i + 1] == 0xe6`. -/
def findHeader : List UInt8 → Option Nat
  | a :: b :: rest =>
      if a = 0xe6 ∧ b = 0xe6 then some 0 else (findHeader (b :: rest)).map (· + 1)
  | _ => none

/-- `ecb_uart_parse_msg`, from `index = i` on.  A wrong check sum is logged and
nothing else. -/
def ecbParseFrame (input : List UInt8) (index : Nat) : ReadResult EcbEvent :=
  if input.length - index < ecbMsgMinLen then ⟨.lenSmall, index, []⟩
  else
    let seqId := be16 (byteAt input (index + 2)) (byteAt input (index + 3))
    let command := byteAt input (index + 4)
    let dataLen := be16 (byteAt input (index + 5)) (byteAt input (index + 6))
    if 512 < dataLen then ⟨.lenErr, index + 1, []⟩
    else
      let msgIndex := 7 + dataLen
      if input.length < index + msgIndex + 2 + 2 then
        if byteAt input (input.length - 1) = 0x6e ∧ byteAt input (input.length - 2) = 0x6e then
          ⟨.lenErr, index + 1, []⟩
        else ⟨.lenSmall, index, []⟩
      else if byteAt input (index + msgIndex + 2) ≠ 0x6e ∨
          byteAt input (index + msgIndex + 2 + 1) ≠ 0x6e then
        ⟨.tailerErr, index + msgIndex + 2 + 2, [.nakTailer (UInt16.ofNat seqId)]⟩
      else
        let payload := (input.drop (index + 7)).take dataLen
        ⟨.valid, index + msgIndex + 2 + 2,
          [.dispatch { command := command, seqId := UInt16.ofNat seqId, payload := payload }
            (input.drop (index + msgIndex))]⟩

/-- `ecb_uart_parse_msg`; `end₀` is what `*end` holds when it is called. -/
def ecbUartParseMsg (input : List UInt8) (end₀ : Int) : ReadResult EcbEvent :=
  if input.length < 2 then ⟨.lenSmall, 0, []⟩
  else
    match findHeader input with
    | none => ⟨.noHeader, end₀, []⟩
    | some index => ecbParseFrame input index

/-- The loop of `uart_parse_msg`, at most `fuel` turns of it, from `&in[index]`
on: what was done, and what stays in the buffer. -/
def uartParseLoop {ε : Type} (func : List UInt8 → Int → ReadResult ε) :
    Nat → List UInt8 → Int → Option (List ε × List UInt8)
  | 0, _, _ => none
  | fuel + 1, input, end₀ =>
      let r := func input end₀
      let rest := input.drop r.consumed.toNat
      match r.status with
      | .lenSmall => some (r.events, rest)
      | .noHeader => some (r.events, [])
      | _ =>
          if rest.length = 0 then some (r.events, [])
          else (uartParseLoop func fuel rest r.consumed).map fun out => (r.events ++ out.1, out.2)

/-- `uart_parse_msg`; `end₀` is what its uninitialised `end` holds.  A turn that
goes on consumes a byte, so these many turns are enough
(`uartParseMsg_ecb`). -/
def uartParseMsg {ε : Type} (func : List UInt8 → Int → ReadResult ε) (input : List UInt8)
    (end₀ : Int) : Option (List ε × List UInt8) :=
  uartParseLoop func (input.length + 1) input end₀

/-! ## Acting on a frame -/

/-- The actions of `ecb_uart_parse_msg` on an accepted frame. -/
inductive EcbAction where
  | sendAck (seqId : UInt16)
  | sendNak (errorCode : UInt8) (seqId : UInt16)
  /-- `send_data_to_cloud(payload, data_len)`, with what the buffer holds behind it -/
  | sendDataToCloud (payload next : List UInt8)
  | keypressLocalPro (value : UInt8)
  /-- `ecb_heart_count = 0` -/
  | heart
  /-- `msg_get_timeout_count = 0` -/
  | getAck
  | resendListDelById (seqId : UInt16)
deriving DecidableEq, Repr

/-- The key codes of a KEYPRESS payload: each byte after an `0xf1`.  The one
after the last byte is read from behind the payload. -/
def keypressValues : List UInt8 → List UInt8 → List UInt8
  | [], _ => []
  | [b], next => if b = 0xf1 then [byteAt next 0] else []
  | b :: value :: rest, next =>
      if b = 0xf1 then value :: keypressValues rest next else keypressValues (value :: rest) next

def EcbEvent.actions : EcbEvent → List EcbAction
  | .nakTailer seqId => [.sendNak 0x02 seqId]
  | .dispatch m next =>
      if m.command = 0x03 then [.sendAck m.seqId, .sendDataToCloud m.payload next]
      else if m.command = 0x04 then
        .sendAck m.seqId :: (keypressValues m.payload next).map .keypressLocalPro
      else if m.command = 0x0c then [.heart, .sendAck m.seqId]
      else if m.command = 0x0d then [.getAck, .sendDataToCloud m.payload next]
      else if m.command = 0x0e ∨ m.command = 0x0f then [.resendListDelById m.seqId]
      else [.sendNak 0x04 m.seqId]

/-! ## Receiving -/

/-- `sizeof(uart_read_buf)` -/
def uartReadBufSize : Nat := 512

/-- The receiver: the first `uart_read_buf_index` bytes of `uart_read_buf`, and
all that was done. -/
structure EcbReceiver where
  uartReadBuf : List UInt8
  events : List EcbEvent
deriving DecidableEq, Repr

def EcbReceiver.init : EcbReceiver := ⟨[], []⟩

def EcbReceiver.dispatched (s : EcbReceiver) : List EcbMsg := s.events.filterMap EcbEvent.msg

/-- `ecb_recv_cb`, when `read` delivers `chunk`; it delivers no more than fits. -/
def ecbRecvCb (chunk : List UInt8) (s : EcbReceiver) : Option EcbReceiver :=
  if chunk.length ≤ uartReadBufSize - s.uartReadBuf.length then
    if chunk.length = 0 then some s
    else (uartParseMsg ecbUartParseMsg (s.uartReadBuf ++ chunk) 0).map fun out =>
      { uartReadBuf := out.2, events := s.events ++ out.1 }
  else none

def ecbMachine : Machine EcbReceiver (List UInt8) where
  step s chunk := ecbRecvCb chunk s

end X50
