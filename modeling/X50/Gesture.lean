/-
# `X50.Gesture` — the link to the gesture board

A frame of `uart/gesture_uart.c` has ten bytes:

    aa | type | length | command | data1 | data2 | hour | minute | verify (2)

`gesture_uart_parse_msg` looks for one in the bytes it is given.  What it looks
at, and what it makes of it, is one program (`gestureRead`); what an accepted
frame does to the rest is `gestureAct`, on the three static variables of the file.

`char` is unsigned, as on the ARM target.
-/
import X50.EcbUart
import X50.Lib.Probe

namespace X50

open X50.Lib

/-- `msg_verify` -/
def msgVerify (data : List UInt8) : UInt16 :=
  ~~~(data.foldl (fun verify b => verify + b.toUInt16) 0)

/-- The bytes of an accepted frame that are acted upon. -/
structure GestureFrame where
  data1 : UInt8
  data2 : UInt8
deriving DecidableEq, Repr

/-- A status, and `*end` if the parser sets it. -/
structure ReadEnd where
  status : ReadStatus
  stop : Option Nat
deriving DecidableEq, Repr

/-! ## Parsing -/

/-- The header loop, for the `n` bytes from `in[i]` on: the first that is `0xaa`. -/
def gestureHeader : Nat → Nat → Probe UInt8 (Option Nat)
  | 0, _ => .done none
  | n + 1, i => .look i fun b => if b = 0xaa then .done (some i) else gestureHeader n (i + 1)

/-- `gesture_uart_parse_msg`, from `index = i` on. -/
def gestureFrameRead (inLen index : Nat) : Probe UInt8 (ReadEnd × List GestureFrame) :=
  if inLen - index < 10 then .done (⟨.lenSmall, some index⟩, [])
  else
    .look (index + 2) fun msgLen =>
    .look (index + 8) fun hi =>
    .look (index + 9) fun lo =>
    (Probe.lookAll index 8).bind fun data =>
      if msgVerify data ≠ UInt16.ofNat (be16 hi lo) then
        .done (⟨.checkErr, some (index + 10)⟩, [])
      else if 0 < msgLen then
        .look (index + 4) fun data1 =>
        .look (index + 5) fun data2 =>
        .done (⟨.valid, some (index + 10)⟩, [⟨data1, data2⟩])
      else .done (⟨.valid, some (index + 10)⟩, [])

/-- `gesture_uart_parse_msg`, for `in_len` bytes. -/
def gestureRead (inLen : Nat) : Probe UInt8 (ReadEnd × List GestureFrame) :=
  if inLen < 1 then .done (⟨.lenSmall, some 0⟩, [])
  else
    (gestureHeader inLen 0).bind fun header =>
      match header with
      | none => .done (⟨.noHeader, none⟩, [])
      | some index => gestureFrameRead inLen index

/-- The same as a function; `end₀` is what `*end` holds when it is called. -/
def gestureUartParseMsg (input : List UInt8) (end₀ : Int) : ReadResult GestureFrame :=
  let out := (gestureRead input.length).run (byteAt input)
  { status := out.1.status
    consumed := match out.1.stop with
      | some stop => stop
      | none => end₀
    events := out.2 }

/-! ## Acting on a frame -/

/-- The static variables of the file. -/
structure GestureState where
  recvError : Nat
  errorStatus : Bool
  alarmStatus : Bool
deriving DecidableEq, Repr

def GestureState.init : GestureState := ⟨0, false, false⟩

inductive GestureAction where
  /-- `gesture_auto_sync_time_alarm(0)` -/
  | autoSyncTime
  /-- `{"Alarm": n}` to the UI -/
  | alarm (n : Int)
  /-- `gesture_send_error_cloud(GESTURE_ERROR, clear)` -/
  | sendErrorCloud (clear : Bool)
  /-- `ecb_uart_send_msg(ECB_UART_COMMAND_SET, msg, …)` -/
  | set (msg : List UInt8)
deriving DecidableEq, Repr

/-- A wave to the right makes the hood faster, one to the left slower; `speed` is
what `get_HoodSpeed` returns. -/
def waveMsg (data1 speed : UInt8) : List UInt8 :=
  if data1 &&& 0x20 ≠ 0 then if speed < 3 then [0x31, speed + 1] else []
  else if data1 &&& 0x10 ≠ 0 then if 0 < speed then [0x31, speed - 1] else []
  else []

def holdMsg (data2 : UInt8) : List UInt8 :=
  if data2 = 0x13 then [0xf7, 0x01] else if data2 = 0x14 then [0xf7, 0x03] else []

/-- `msg` of `gesture_uart_parse_msg`, an array of eight bytes. -/
def gestureMsg (f : GestureFrame) (speed : UInt8) : List UInt8 :=
  waveMsg f.data1 speed ++ holdMsg f.data2

/-- What `gesture_uart_parse_msg` does on an accepted frame with data. -/
def gestureAct (f : GestureFrame) (speed : UInt8) (s : GestureState) :
    GestureState × List GestureAction :=
  let badFrame := f.data1 &&& 0x02 ≠ 0
  let sync := badFrame ∧ 4 < s.recvError + 1
  let alarm := f.data1 &&& 0x40 ≠ 0
  let broken := f.data2 = 0x15
  let msg := gestureMsg f speed
  ({ recvError := if badFrame ∧ ¬ sync then s.recvError + 1 else 0
     errorStatus := broken
     alarmStatus := alarm },
    (if sync then [.autoSyncTime] else []) ++
    (if alarm ∧ ¬ s.alarmStatus then [.alarm 1] else []) ++
    (if ¬ alarm ∧ s.alarmStatus then [.alarm 0] else []) ++
    (if broken then [.sendErrorCloud false] else []) ++
    (if ¬ broken ∧ s.errorStatus then [.sendErrorCloud true] else []) ++
    (if 0 < msg.length then [.set msg] else []))

end X50
