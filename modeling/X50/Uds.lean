/-
# `X50.Uds` — the socket of the user interface

A frame of `uds/uds_protocol.c`:

    aa aa | encryption | sequence (2) | length (2) | JSON | sum | bb bb

with all numbers big-endian, and the sum over what stands between the header and
itself.  `send_event_uds` writes one; `uds_recv` looks for them in what one `recv`
has read.

`uds_recv` does not look at the length of what it is given while it is inside a
frame: it reads on into the memory behind.  So the model gives it memory, as a
function, and not a list.  `char` is unsigned, as on the ARM target.  `cJSON_Parse`
is a parameter, a function of the memory behind its argument.
-/
import X50.EcbUart
import X50.CJson
import X50.Memory

namespace X50

open X50.Lib

def checkSum (buf : List UInt8) : UInt8 := buf.foldl (· + ·) 0

/-! ## Sending -/

/-- The `root` of `send_event_uds`. -/
def udsRoot (send : CJson) (type : Option CStr) : CJson :=
  .object [(cstr "Type", .string (type.getD (cstr "EVENT"))), (cstr "Data", send)]

/-- `send_buf`, where `json` is to be sent; the static buffer and the one from
`malloc` are filled alike. -/
def sendBuf (json : List UInt8) (gSeqid : Nat) : List UInt8 :=
  let len := json.length
  let checked := [0, UInt8.ofNat (gSeqid / 256), UInt8.ofNat (gSeqid % 256),
    UInt8.ofNat (len >>> 8), UInt8.ofNat len] ++ json
  [0xaa, 0xaa] ++ checked ++ [checkSum checked, 0xbb, 0xbb]

/-- `send_event_uds`: the bytes written, if any.  `g_seqid` is never changed. -/
def sendEventUds (send : CJson) (type : Option CStr) : Option (List UInt8) :=
  if send.isNull then none else some (sendBuf (udsRoot send type).printUnformatted 0)

/-! ## Receiving -/

inductive UdsRequest where
  | get (data : CJson)
  | set (data : CJson)
  | getall (data : CJson)
  | heart

/-- `uds_json_parse`: what it returns, and the request it has carried out.
`strcmp` with a `Type` that is no string has no result. -/
def udsJsonParse (cjsonParse : (Nat → UInt8) → Option CJson) (value : Nat → UInt8) :
    Option (Int × Option UdsRequest) :=
  match cjsonParse value with
  | none => some (-1, none)
  | some root =>
      match root.getObjectItem (cstr "Type") with
      | none => some (-1, none)
      | some type =>
          match root.getObjectItem (cstr "Data") with
          | none => some (-1, none)
          | some data => do
              let type ← type.valuestring
              if type = cstr "GET" then pure (0, some (.get data))
              else if type = cstr "SET" then pure (0, some (.set data))
              else if type = cstr "GETALL" then pure (0, some (.getall data))
              else pure (0, some .heart)

/-- What the frames of the socket say. -/
structure UdsMsg where
  encry : UInt8
  seqid : UInt16
  json : List UInt8
deriving DecidableEq, Repr

/-- A frame of which `uds_recv` hands the JSON to `uds_json_parse`: its check byte,
the sum of its bytes, and the request carried out. -/
structure UdsHanded where
  msg : UdsMsg
  verify : UInt8
  verifyCheck : UInt8
  request : Option UdsRequest

/-- `msg_len` of a frame at the front of the memory. -/
def udsMsgLen (data : Nat → UInt8) : Nat := be16 (data 5) (data 6)

/-- The frame at the front of the memory, as `uds_recv` reads it. -/
def udsMsgAt (data : Nat → UInt8) : UdsMsg where
  encry := data 2
  seqid := UInt16.ofNat (be16 (data 3) (data 4))
  json := memBytes data 7 (udsMsgLen data)

/-- The frame at the front of the memory is handed over: it has its header and its
tail, and its text is not empty. -/
def UdsCandidate (data : Nat → UInt8) : Prop :=
  (data 0 = 0xaa ∧ data 1 = 0xaa) ∧
    (data (6 + udsMsgLen data + 2) = 0xbb ∧ data (6 + udsMsgLen data + 3) = 0xbb) ∧
    0 < udsMsgLen data

instance (data : Nat → UInt8) : Decidable (UdsCandidate data) :=
  inferInstanceAs (Decidable (_ ∧ _ ∧ _))

/-- `verify` of the frame at the front of the memory. -/
def udsVerify (data : Nat → UInt8) : UInt8 := data (6 + udsMsgLen data + 1)

/-- `verify_check` of the frame at the front of the memory. -/
def udsVerifyCheck (data : Nat → UInt8) : UInt8 := checkSum (memBytes data 2 (udsMsgLen data + 5))

/-- One turn of the loop of `uds_recv`, at `data`: what is handed over, and how far
the index moves; the latter has no result where `uds_json_parse` has none.  A wrong
sum is logged and nothing else. -/
def udsLook (cjsonParse : (Nat → UInt8) → Option CJson) (data : Nat → UInt8) :
    List UdsHanded × Option Nat :=
  if UdsCandidate data then
    let ret := udsJsonParse cjsonParse (memFrom data 7)
    ([{ msg := udsMsgAt data
        verify := udsVerify data
        verifyCheck := udsVerifyCheck data
        request := ret.bind (·.2) }],
      ret.map fun ret => if ret.1 = 0 then 6 + udsMsgLen data + 3 + 1 else 1)
  else ([], some 1)

/-- What a call of `uds_recv` hands over, and whether it returns. -/
@[ext]
structure UdsOutcome where
  handed : List UdsHanded
  returns : Bool

def UdsOutcome.bodies (out : UdsOutcome) : List (List UInt8) := out.handed.map fun h => h.msg.json

/-- The loop of `uds_recv`, at most `fuel` turns of it, from `i` on. -/
def udsRecvLoop (cjsonParse : (Nat → UInt8) → Option CJson) (data : Nat → UInt8) (len : Nat) :
    Nat → Nat → UdsOutcome
  | 0, _ => ⟨[], false⟩
  | fuel + 1, i =>
      if i < len then
        let look := udsLook cjsonParse (memFrom data i)
        match look.2 with
        | none => ⟨look.1, false⟩
        | some n =>
            let rest := udsRecvLoop cjsonParse data len fuel (i + n)
            ⟨look.1 ++ rest.handed, rest.returns⟩
      else ⟨[], true⟩

def udsRecv (cjsonParse : (Nat → UInt8) → Option CJson) (data : Nat → UInt8) (len : Nat) :
    UdsOutcome :=
  udsRecvLoop cjsonParse data len (len + 1) 0

/-! ## Reads -/

/-- `sizeof(recv_buf)` -/
def recvBufSize : Nat := 4097

/-- A connection: `recv_buf` with the memory behind it, and all that was handed
over. -/
structure UdsClient where
  recvBuf : Nat → UInt8
  handed : List UdsHanded

def UdsClient.init (recvBuf : Nat → UInt8) : UdsClient := ⟨recvBuf, []⟩

def UdsClient.bodies (s : UdsClient) : List (List UInt8) := s.handed.map fun h => h.msg.json

/-- `recv_buf` with a piece read into it, and the `'\0'` behind. -/
def recvInto (recvBuf : Nat → UInt8) (chunk : List UInt8) : Nat → UInt8 := fun k =>
  if k < chunk.length then chunk.getD k 0 else if k = chunk.length then 0 else recvBuf k

/-- `app_select_tcp_server_recv_cb`, when `recv` delivers `chunk`. -/
def appSelectTcpServerRecvCb (cjsonParse : (Nat → UInt8) → Option CJson) (chunk : List UInt8)
    (s : UdsClient) : Option UdsClient :=
  if 0 < chunk.length ∧ chunk.length ≤ recvBufSize then
    let recvBuf := recvInto s.recvBuf chunk
    let out := udsRecv cjsonParse recvBuf chunk.length
    if out.returns then some { recvBuf := recvBuf, handed := s.handed ++ out.handed } else none
  else none

def udsMachine (cjsonParse : (Nat → UInt8) → Option CJson) : Machine UdsClient (List UInt8) where
  step s chunk := appSelectTcpServerRecvCb cjsonParse chunk s

end X50
