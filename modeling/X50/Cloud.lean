/-
# `X50.Cloud` — the attribute table and the reports made from it

`cloud_platform_task.c` keeps one table of attributes.  A frame of the
electrical board writes raw bytes into it (`send_data_to_cloud`), a report
decodes them again (`get_attr_report_value`), and four functions report: on a
frame, on a connection to the cloud, on GET and on GETALL.

Reporting is not free of effects.  A report of a string terminates its buffer;
a report of `CookbookID` may look up the recipe and fill `CookbookName`, with a
lookup that belongs to the history (`histroy_select_seqid_func`).

`Board` is the state these functions share.  A function has no result where the
C program has none that is defined: a NULL dereference, an access outside an
array.  `char` is unsigned, as on the ARM target.
-/
import X50.History

namespace X50

/-! ## The table -/

inductive LinkValueType where
  | num
  | stringNum
  | string
  | struct
  | other (n : Int)
deriving DecidableEq, Repr

def LinkValueType.ofInt (n : Int) : LinkValueType :=
  if n = 0 then .num
  else if n = 1 then .stringNum
  else if n = 2 then .string
  else if n = 3 then .struct
  else .other n

inductive LinkFunType where
  | attrReportCtrl
  | attrReport
  | attrCtrl
  | event
  | service
deriving DecidableEq, Repr

/-- `cloud_attr_t`.  `value` is the bytes allocated, none of them for NULL. -/
structure CloudAttr where
  cloudKey : CStr
  cloudValueType : LinkValueType
  cloudFunType : LinkFunType
  uartCmd : UInt8
  uartByteLen : UInt8
  value : List UInt8
deriving DecidableEq, Repr

/-- `UART_CMD_MULTISTAGE_SET` and `UART_CMD_MULTISTAGE_STATE` -/
def uartCmdMultistageSet : UInt8 := 76
def uartCmdMultistageState : UInt8 := 77

structure CloudDev where
  softwareVer : CStr
  remind : List CStr
  attr : List CloudAttr
deriving DecidableEq, Repr

/-- The state the reports and the requests share. -/
structure Board where
  dev : CloudDev
  db : HistoryState
  /-- `uart_buf` of `cloud_resp_set` -/
  uartBuf : List UInt8
  /-- the address `getNetworkMac` finds -/
  mac : CStr
  /-- what the heap holds behind a string that is not terminated -/
  heap : CStr
  /-- the payloads `ecb_uart_send_cloud_msg` has been handed -/
  handed : List (List UInt8)
  /-- for the record only, the program has no such lists: the attributes put
  into reports and into SET frames so far, by their places in the table -/
  reported : List Nat
  recorded : List Nat

/-- The members of a cJSON object under construction. -/
abbrev Members := List (CStr × CJson)

/-- `get_attr_ptr`, as a place in the table. -/
def getAttrPtr (name : CStr) (attr : List CloudAttr) : Option Nat :=
  attr.findIdx? fun a => a.cloudKey == name

/-- The guard of both report functions: the attribute is reported, and has a
key to be reported under. -/
def CloudAttr.isReported (a : CloudAttr) : Bool :=
  (a.cloudFunType == .attrReportCtrl || a.cloudFunType == .attrReport) &&
    a.cloudKey.length != 0

/-- The bytes an attribute is decoded from. -/
def CloudAttr.bytes (a : CloudAttr) : List UInt8 := a.value.take a.uartByteLen.toNat

/-- `cloud_val`, an `int`, after the decoding loop. -/
def cloudVal (bytes : List UInt8) : Int :=
  ((bytes.foldl (fun v b => v * 256 + b.toNat) 0 : Nat) : Int).bmod (2 ^ 32)

def strncpy (name : List UInt8) (src : CStr) (nameLen : Nat) : Option (List UInt8) :=
  if name.length < nameLen then none
  else some ((src ++ List.replicate nameLen 0).take nameLen ++ name.drop nameLen)

namespace Board

def setValue (b : Board) (j : Nat) (value : List UInt8) : Board :=
  { b with dev := { b.dev with attr := b.dev.attr.modify j fun a => { a with value := value } } }

/-- Hand something to the cloud SDK or the UI. -/
def addOut (b : Board) (out : List Report) : Board :=
  { b with db := { b.db with out := b.db.out ++ out } }

/-- `report_msg_all_platform` -/
def reportMsg (b : Board) (root : Members) : Board :=
  { b with db := { b.db with out := reportMsgAllPlatform (.object root) b.db.out } }

/-- Attribute `j` has been put into a report. -/
def noteReported (b : Board) (j : Nat) : Board := { b with reported := b.reported ++ [j] }

end Board

/-! ## Events -/

/-- The two push events of an oven: `*value == 4 && (*ptr->value != *value ||
event_all > 0)`. -/
def cookPush (event : CStr) (ptr : CloudAttr) (value : Option UInt8) (eventAll : Bool) :
    Option (List Report) := do
  if (← value) = 4 then
    if (← ptr.value.head?) ≠ (← value) ∨ eventAll then pure [.event event none] else pure []
  else pure []

/-- `get_attr_report_event`; `value` is the byte its argument points to. -/
def getAttrReportEvent (ptr : CloudAttr) (value : Option UInt8) (eventAll : Bool) :
    Option (List Report) :=
  if !ptr.isReported then some []
  else if ptr.cloudValueType ≠ .num then some []
  else if ptr.cloudKey = cstr "LStOvState" then cookPush (cstr "LCookPush") ptr value eventAll
  else if ptr.cloudKey = cstr "RStOvState" then cookPush (cstr "RCookPush") ptr value eventAll
  else if ptr.cloudKey = cstr "ErrorCodeShow" then do
    let old ← ptr.value.head?
    let new ← value
    if old ≠ new ∨ eventAll then
      pure [.event (cstr "ErrorPush")
        (some (.object [(cstr "FaultCode", .number new.toNat)]))]
    else pure []
  else some []

/-! ## Values -/

/-- `select_for_cookbookID`: the database after it, and the buffer `name` if
the function returns 0. -/
def selectForCookbookID (cookbookID : Int) (name : List UInt8) (nameLen : Nat)
    (db : HistoryState) : Option (HistoryState × Option (List UInt8)) :=
  let found := selectSeqidRows (selectSeqidFromTable cookbookID db.recipe.toTable) db []
  if (CJson.object found.2).isNull then some (found.1, none)
  else
    match (CJson.object found.2).getObjectItem (cstr "dishName") with
    | none => some (found.1, none)
    | some dishName => do
        let name ← strncpy name (← dishName.valuestring) nameLen
        pure (found.1, some name)

/-- The `CookbookID` branch of `get_attr_report_value`. -/
def reportCookbookID (cloudVal : Int) (b : Board) : Option Board :=
  if 0 < cloudVal then
    match getAttrPtr (cstr "CookbookName") b.dev.attr with
    | none => some b
    | some q => do
        let attr ← b.dev.attr[q]?
        if attr.value ≠ [] ∧ (cstrOf (attr.value ++ b.heap)).length = 0 then
          let found ← selectForCookbookID cloudVal attr.value attr.uartByteLen.toNat b.db
          let b := { b with db := found.1 }
          match found.2 with
          | none => pure b
          | some name =>
              pure (((b.setValue q name).reportMsg
                [(cstr "CookbookName", .string (cstrOf (name ++ b.heap)))]).noteReported q)
        else pure b
  else some b

/-- The STRUCT branch of `get_attr_report_value`: its item. -/
def structItem (ptr : CloudAttr) (dev : CloudDev) : Option (Option CJson) :=
  if ptr.uartCmd = uartCmdMultistageState then do
    let cnt ← ptr.value[0]?
    let current ← ptr.value[1]?
    let remind ← ptr.value[2]?
    let remindText ← if remind ≠ 0 then dev.remind[current.toNat]? else some []
    pure (some (.object [(cstr "cnt", .number cnt.toNat), (cstr "current", .number current.toNat),
      (cstr "remind", .number remind.toNat), (cstr "RemindText", .string remindText)]))
  else some none

/-- The STRING branch of `get_attr_report_value`: a string that fills its
buffer is reported from a copy that is one byte too short to be terminated, and
loses its last byte in the buffer. -/
def stringItem (j : Nat) (ptr : CloudAttr) (b : Board) : Option (Board × Option CJson) :=
  let len := ptr.uartByteLen.toNat
  if 1 < len ∧ ptr.value.getD (len - 1) 0 ≠ 0 then
    some (b.setValue j (ptr.value.set (len - 1) 0),
      some (.string (cstrOf (ptr.bytes ++ b.heap))))
  else if ptr.cloudKey = cstr "ComSWVersion" then some (b, some (.string b.dev.softwareVer))
  else if ptr.cloudKey = cstr "ElcSWVersion" ∨ ptr.cloudKey = cstr "ElcHWVersion" then do
    let v ← ptr.value.head?
    pure (b, some (.string (decimal (v >>> 4).toNat ++ cstr "." ++ decimal (v &&& 0x0f).toNat)))
  else if ptr.cloudKey = cstr "WifiMac" then some (b, some (.string b.mac))
  else if ptr.value = [] then some (b, none)
  else some (b, some (.string (cstrOf (ptr.value ++ b.heap))))

/-- What `get_attr_report_value` makes of a reported attribute: the state after
it, and the item. -/
def attrItem (j : Nat) (ptr : CloudAttr) (b : Board) : Option (Board × Option CJson) :=
  if ptr.cloudValueType = .struct then (structItem ptr b.dev).map fun item => (b, item)
  else if ptr.value.length < ptr.uartByteLen.toNat then none
  else
    match ptr.cloudValueType with
    | .stringNum => some (b, some (.string (decimal (cloudVal ptr.bytes))))
    | .num =>
        if ptr.cloudKey = cstr "CookbookID" then
          (reportCookbookID (cloudVal ptr.bytes) b).map fun b =>
            (b, some (.number (cloudVal ptr.bytes)))
        else some (b, some (.number (cloudVal ptr.bytes)))
    | .string => stringItem j ptr b
    | _ => some (b, none)

def getAttrReportValue (j : Nat) (b : Board) (resp : Members) : Option (Board × Members) := do
  let ptr ← b.dev.attr[j]?
  if !ptr.isReported then pure (b, resp)
  else
    let out ← attrItem j ptr b
    match out.2 with
    | none => pure (out.1, resp)
    | some item => pure (out.1.noteReported j, resp ++ [(ptr.cloudKey, item)])

/-! ## Frames of the board -/

/-- The body of the inner loop of `send_data_to_cloud`: the record at `i` is
for attribute `j`. -/
def sendDataRecord (value : Nat → UInt8) (i j : Nat) (b : Board) (root : Members) :
    Option (Board × Members) := do
  let attr ← b.dev.attr[j]?
  let events ← getAttrReportEvent attr (some (value (i + 1))) false
  let len := attr.uartByteLen.toNat
  if attr.value.length < len then none
  else
    let bytes := (List.range len).map fun k => value (i + 1 + k)
    let b := (b.addOut events).setValue j (bytes ++ attr.value.drop len)
    let out ← getAttrReportValue j b root
    if attr.cloudKey = cstr "MultiMode" then
      let attr ← out.1.dev.attr[j]?
      if (← attr.value.head?) = 1 then
        match getAttrPtr (cstr "CookbookName") out.1.dev.attr with
        | none => pure out
        | some ptr => getAttrReportValue ptr out.1 out.2
      else pure out
    else pure out

def attrOfCmd (attr : List CloudAttr) (cmd : UInt8) : Option Nat :=
  attr.findIdx? fun a => cmd == a.uartCmd

/-- The loop of `send_data_to_cloud`, at most `fuel` turns of it, from `i` on. -/
def sendDataLoop (value : Nat → UInt8) (valueLen : Nat) :
    Nat → Nat → Board → Members → Option (Board × Members)
  | 0, _, _, _ => none
  | fuel + 1, i, b, root =>
      if i < valueLen then
        match attrOfCmd b.dev.attr (value i) with
        | none => sendDataLoop value valueLen fuel (i + 1) b root
        | some j => do
            let out ← sendDataRecord value i j b root
            let attr ← out.1.dev.attr[j]?
            sendDataLoop value valueLen fuel (i + attr.uartByteLen.toNat + 1) out.1 out.2
      else some (b, root)

/-- `send_data_to_cloud(value, value_len)`; `value` is the memory behind the
pointer, also where it is no part of the payload any more. -/
def sendDataToCloud (value : Nat → UInt8) (valueLen : Nat) (b : Board) : Option Board := do
  let out ← sendDataLoop value valueLen (valueLen + 1) 0 b []
  pure (out.1.reportMsg out.2)

/-! ## Reports on request -/

def cloudRespGet (root : CJson) (b : Board) (resp : Members) : Option (Board × Members) :=
  (List.range b.dev.attr.length).foldlM (fun out i => do
    let attr ← out.1.dev.attr[i]?
    if root.hasObjectItem attr.cloudKey then getAttrReportValue i out.1 out.2 else pure out)
    (b, resp)

def cloudRespGetall (b : Board) (resp : Members) : Option (Board × Members) :=
  (List.range b.dev.attr.length).foldlM (fun out i => getAttrReportValue i out.1 out.2) (b, resp)

def sendAllLoop (b : Board) : Option (Board × Members) :=
  (List.range b.dev.attr.length).foldlM (fun out i => do
    let attr ← out.1.dev.attr[i]?
    let events ← getAttrReportEvent attr attr.value.head? true
    getAttrReportValue i (out.1.addOut events) out.2) (b, [])

def sendAllToCloud (b : Board) : Option Board := do
  let out ← sendAllLoop b
  let b := out.1.addOut [.property (.object out.2)]
  let respDb := databaseRespGet (.object [(cstr "CookHistorySimple", .null)]) b.db
  pure (b.addOut [.property (.object respDb)])

end X50
