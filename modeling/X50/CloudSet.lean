/-
# `X50.CloudSet` — SET requests, and the profile

A SET request of the cloud or the UI names attributes and gives values for them.
`cloud_resp_set` encodes each (`get_attr_set_value`) at the end of a static
buffer of 256 bytes and hands the whole to the board as the payload of one
frame.  How an attribute is encoded is the business of the table, and the table
is what `cloud_parse_json` makes of the profile file.

As in `X50.Cloud`, a function has no result where the C program has none that is
defined.  `long` is the 32-bit `long` of the ARM target.
-/
import X50.Cloud

namespace X50

/-! ## `stol` -/

/-- `isspace` in the C locale. -/
def isspace (c : UInt8) : Bool := c == 32 || (9 ≤ c && c ≤ 13)

/-- The digits at the front of a string, as a number. -/
def leadingDigits (s : CStr) : Nat :=
  (s.takeWhile fun c => 48 ≤ c && c ≤ 57).foldl (fun n c => n * 10 + (c.toNat - 48)) 0

/-- `strtol(str, NULL, 10)`, before it is cut to the range of `long`. -/
def strtol (str : CStr) : Int :=
  match str.dropWhile isspace with
  | [] => 0
  | c :: rest =>
      if c = 45 then -(leadingDigits rest : Int)
      else if c = 43 then leadingDigits rest
      else leadingDigits (c :: rest)

/-- `stol(str, 10, &num)`; no result for NULL, that is for `ERANGE`. -/
def stol (str : CStr) : Option Int :=
  if -(2 ^ 31) ≤ strtol str ∧ strtol str < 2 ^ 31 then some (strtol str) else none

/-! ## Records -/

/-- What `get_attr_set_value` does: the attribute after it, `remind` after it, and
the bytes it writes from `out[1]` on, if it does not return 0. -/
structure SetValue where
  ptr : CloudAttr
  remind : List CStr
  body : Option (List UInt8)

/-- `out[1 + i] = num >> (8 * (len - 1 - i))`, for all `i`.  A shift by the width
of `long` or more is not defined. -/
def numBytes (num : Int) (len : Nat) : Option (List UInt8) :=
  if len ≤ 4 then
    some ((List.range len).map fun i => UInt8.ofInt (num >>> (8 * (len - 1 - i))))
  else none

/-- `valueint >> 8`, `valueint`: two bytes of the array. -/
def twoBytes (n : Int) : List UInt8 := [UInt8.ofInt (n >>> (8 : Nat)), UInt8.ofInt n]

/-- A member that may be missing. -/
def twoBytesOr (arraySub : CJson) (name : CStr) : List UInt8 :=
  match arraySub.getObjectItem name with
  | some item => twoBytes item.valueint
  | none => [0, 0]

/-- The `RemindText` of stage `i`: `strcpy(remind[i], text)`, and the flag. -/
def stageRemind (i : Nat) (arraySub : CJson) (remind : List CStr) :
    Option (List CStr × UInt8) :=
  match arraySub.getObjectItem (cstr "RemindText") with
  | none => some (remind, 0)
  | some text => do
      let text ← text.valuestring
      if 0 < text.length then
        if i < remind.length ∧ text.length < 48 then pure (remind.set i text, 1) else none
      else pure (remind, 0)

/-- The stage loop of `get_attr_set_value`, from stage `i` on: `remind` and the
bytes, twelve for each stage. -/
def setStages (i : Nat) (remind : List CStr) (body : List UInt8) :
    List CJson → Option (List CStr × List UInt8)
  | [] => some (remind, body)
  | arraySub :: rest => do
      let (remind, flag) ← stageRemind i arraySub remind
      let mode ← arraySub.getObjectItem (cstr "Mode")
      let temp ← arraySub.getObjectItem (cstr "Temp")
      let timer ← arraySub.getObjectItem (cstr "Timer")
      let waterTime := match arraySub.getObjectItem (cstr "WaterTime") with
        | some item => UInt8.ofInt item.valueint
        | none => 0
      setStages (i + 1) remind
        (body ++ [UInt8.ofNat (i + 1), flag, UInt8.ofInt mode.valueint] ++
          twoBytes temp.valueint ++ twoBytes timer.valueint ++
          twoBytesOr arraySub (cstr "SteamTime") ++ twoBytesOr arraySub (cstr "FanTime") ++
          [waterTime]) rest

/-- The STRUCT branch of `get_attr_set_value`. -/
def setStruct (ptr : CloudAttr) (item : CJson) (remind : List CStr) : Option SetValue :=
  if ptr.uartCmd = uartCmdMultistageSet then
    if item.getArraySize = 0 then some ⟨ptr, remind, none⟩
    else do
      let (remind, stages) ← setStages 0 remind [] item.children
      let remind := if ptr.cloudKey = cstr "MultiStageContent" then remind.map fun _ => []
        else remind
      pure ⟨{ ptr with uartByteLen := UInt8.ofNat (item.getArraySize * 12 + 1) }, remind,
        some (UInt8.ofNat item.getArraySize :: stages)⟩
  else some ⟨ptr, remind, some []⟩

/-- The STRING branch: `CookbookName` goes into the table, any other string
into the frame. -/
def setString (ptr : CloudAttr) (item : CJson) (remind : List CStr) : Option SetValue := do
  let s ← item.valuestring
  if ptr.cloudKey = cstr "CookbookName" then
    let s ← strcpy ptr.value.length (some s)
    pure ⟨{ ptr with value := s ++ [0] ++ ptr.value.drop (s.length + 1) }, remind, none⟩
  else pure ⟨ptr, remind, some s⟩

/-- `get_attr_set_value(ptr, item, out)` -/
def getAttrSetValue (ptr : CloudAttr) (item : CJson) (remind : List CStr) : Option SetValue :=
  match ptr.cloudValueType with
  | .struct => setStruct ptr item remind
  | .string => setString ptr item remind
  | .stringNum => do
      match stol (← item.valuestring) with
      | none => pure ⟨ptr, remind, none⟩
      | some num => pure ⟨ptr, remind, some (← numBytes num ptr.uartByteLen.toNat)⟩
  | .num => do pure ⟨ptr, remind, some (← numBytes item.valueint ptr.uartByteLen.toNat)⟩
  | .other _ => do pure ⟨ptr, remind, some (← numBytes 0 ptr.uartByteLen.toNat)⟩

/-- Write at `off`; past the end of the array that is not defined. -/
def writeAt (buf : List UInt8) (off : Nat) (bytes : List UInt8) : Option (List UInt8) :=
  if off + bytes.length ≤ buf.length then
    some (buf.take off ++ bytes ++ buf.drop (off + bytes.length))
  else none

/-- The guard of `cloud_resp_set`. -/
def CloudAttr.isSettable (a : CloudAttr) : Bool :=
  a.cloudFunType == .attrReportCtrl || a.cloudFunType == .attrCtrl

/-- The body of the loop of `cloud_resp_set`, for attribute `i`; `len` is
`uart_buf_len`. -/
def respSetAttr (root : CJson) (i : Nat) (b : Board) (len : Nat) : Option (Board × Nat) := do
  let attr ← b.dev.attr[i]?
  match root.getObjectItem attr.cloudKey with
  | none => pure (b, len)
  | some item =>
      if attr.isSettable then
        let set ← getAttrSetValue attr item b.dev.remind
        let b := { b with dev := { b.dev with
          attr := b.dev.attr.set i set.ptr
          remind := set.remind } }
        match set.body with
        | none => pure (b, len)
        | some body =>
            let uartBuf ← writeAt b.uartBuf len (attr.uartCmd :: body)
            pure ({ b with uartBuf := uartBuf, recorded := b.recorded ++ [i] },
              len + (set.ptr.uartByteLen.toNat + 1))
      else pure (b, len)

/-- The first half of `cloud_resp_set`: the payload is built and handed over. -/
def respSetFrame (root : CJson) (b : Board) : Option Board := do
  let (b, len) ← (List.range b.dev.attr.length).foldlM
    (fun out i => respSetAttr root i out.1 out.2) (b, 0)
  if 0 < len then
    if len ≤ b.uartBuf.length then pure { b with handed := b.handed ++ [b.uartBuf.take len] }
    else none
  else pure b

/-- `cloud_resp_set`; `now` is the time and `rowid` the id SQLite picks, for the
history behind it. -/
def cloudRespSet (root : CJson) (now rowid : Int) (b : Board) : Option Board := do
  let b ← respSetFrame root b
  let (db, respDb) ← databaseRespSet root now rowid b.db
  pure ({ b with db := db }.reportMsg respDb)

/-! ## What a request leaves -/

/-- The branches of `get_attr_set_value` that have a result. -/
inductive AttrSet (a : CloudAttr) (item : CJson) (remind : List CStr) : SetValue → Prop
  | noStage (ht : a.cloudValueType = .struct) (hcmd : a.uartCmd = uartCmdMultistageSet)
      (hz : item.getArraySize = 0) : AttrSet a item remind ⟨a, remind, none⟩
  | dish {texts : List CStr} {stages : List UInt8} (ht : a.cloudValueType = .struct)
      (hcmd : a.uartCmd = uartCmdMultistageSet) (hz : item.getArraySize ≠ 0)
      (hstages : setStages 0 remind [] item.children = some (texts, stages)) :
      AttrSet a item remind
        ⟨{ a with uartByteLen := UInt8.ofNat (item.getArraySize * 12 + 1) },
          if a.cloudKey = cstr "MultiStageContent" then texts.map fun _ => [] else texts,
          some (UInt8.ofNat item.getArraySize :: stages)⟩
  | struct (ht : a.cloudValueType = .struct) (hcmd : a.uartCmd ≠ uartCmdMultistageSet) :
      AttrSet a item remind ⟨a, remind, some []⟩
  | name {s : CStr} (ht : a.cloudValueType = .string) (hs : item.valuestring = some s)
      (hkey : a.cloudKey = cstr "CookbookName") (hfits : s.length < a.value.length) :
      AttrSet a item remind
        ⟨{ a with value := s ++ [0] ++ a.value.drop (s.length + 1) }, remind, none⟩
  | string {s : CStr} (ht : a.cloudValueType = .string) (hs : item.valuestring = some s)
      (hkey : a.cloudKey ≠ cstr "CookbookName") : AttrSet a item remind ⟨a, remind, some s⟩
  | noNumber {s : CStr} (ht : a.cloudValueType = .stringNum) (hs : item.valuestring = some s)
      (hnum : stol s = none) : AttrSet a item remind ⟨a, remind, none⟩
  | stringNum {s : CStr} {num : Int} {bytes : List UInt8} (ht : a.cloudValueType = .stringNum)
      (hs : item.valuestring = some s) (hnum : stol s = some num)
      (hbytes : numBytes num a.uartByteLen.toNat = some bytes) :
      AttrSet a item remind ⟨a, remind, some bytes⟩
  | num {num : Int} {bytes : List UInt8}
      (ht : a.cloudValueType = .num ∨ ∃ n, a.cloudValueType = .other n)
      (hbytes : numBytes num a.uartByteLen.toNat = some bytes) :
      AttrSet a item remind ⟨a, remind, some bytes⟩

theorem getAttrSetValue_cases {a : CloudAttr} {item : CJson} {remind : List CStr}
    {set : SetValue} (h : getAttrSetValue a item remind = some set) :
    AttrSet a item remind set := by
  unfold getAttrSetValue at h
  cases ht : a.cloudValueType with
  | struct =>
      simp only [ht] at h
      unfold setStruct at h
      split at h
      · rename_i hcmd
        split at h
        · rename_i hz
          obtain rfl := Option.some.inj h
          exact .noStage ht hcmd hz
        · rename_i hz
          obtain ⟨⟨texts, stages⟩, hstages, h⟩ := Option.bind_eq_some_iff.mp h
          obtain rfl := Option.some.inj h
          exact .dish ht hcmd hz hstages
      · rename_i hcmd
        obtain rfl := Option.some.inj h
        exact .struct ht hcmd
  | string =>
      simp only [ht] at h
      obtain ⟨s, hs, h⟩ := Option.bind_eq_some_iff.mp h
      split at h
      · rename_i hkey
        obtain ⟨s', hs', h⟩ := Option.bind_eq_some_iff.mp h
        obtain rfl := Option.some.inj h
        obtain ⟨hsame, hfits⟩ := strcpy_eq_some.mp hs'
        exact .name ht (hs.trans hsame) hkey hfits
      · rename_i hkey
        obtain rfl := Option.some.inj h
        exact .string ht hs hkey
  | stringNum =>
      simp only [ht] at h
      obtain ⟨s, hs, h⟩ := Option.bind_eq_some_iff.mp h
      cases hnum : stol s with
      | none =>
          simp only [hnum] at h
          obtain rfl := Option.some.inj h
          exact .noNumber ht hs hnum
      | some num =>
          simp only [hnum] at h
          obtain ⟨bytes, hbytes, h⟩ := Option.bind_eq_some_iff.mp h
          obtain rfl := Option.some.inj h
          exact .stringNum ht hs hnum hbytes
  | num =>
      simp only [ht] at h
      obtain ⟨bytes, hbytes, h⟩ := Option.bind_eq_some_iff.mp h
      obtain rfl := Option.some.inj h
      exact .num (.inl ht) hbytes
  | other n =>
      simp only [ht] at h
      obtain ⟨bytes, hbytes, h⟩ := Option.bind_eq_some_iff.mp h
      obtain rfl := Option.some.inj h
      exact .num (.inr ⟨n, ht⟩) hbytes

/-- What the reminder of a stage does. -/
inductive StageRemind (i : Nat) (arraySub : CJson) (remind : List CStr) :
    List CStr × UInt8 → Prop
  | absent (hitem : arraySub.getObjectItem (cstr "RemindText") = none) :
      StageRemind i arraySub remind (remind, 0)
  | empty {item : CJson} (hitem : arraySub.getObjectItem (cstr "RemindText") = some item)
      (hs : item.valuestring = some []) : StageRemind i arraySub remind (remind, 0)
  | text {item : CJson} {text : CStr}
      (hitem : arraySub.getObjectItem (cstr "RemindText") = some item)
      (hs : item.valuestring = some text) (hpos : 0 < text.length) (hi : i < remind.length)
      (hfits : text.length < 48) : StageRemind i arraySub remind (remind.set i text, 1)

theorem stageRemind_cases {i : Nat} {arraySub : CJson} {remind : List CStr}
    {out : List CStr × UInt8} (h : stageRemind i arraySub remind = some out) :
    StageRemind i arraySub remind out := by
  unfold stageRemind at h
  cases hitem : arraySub.getObjectItem (cstr "RemindText") with
  | none =>
      simp only [hitem] at h
      obtain rfl := Option.some.inj h
      exact .absent hitem
  | some item =>
      simp only [hitem] at h
      obtain ⟨text, hs, h⟩ := Option.bind_eq_some_iff.mp h
      split at h
      · rename_i hpos
        split at h
        · rename_i hfits
          obtain rfl := Option.some.inj h
          exact .text hitem hs hpos hfits.1 hfits.2
        · cases h
      · rename_i hzero
        obtain rfl := Option.some.inj h
        obtain rfl := List.eq_nil_of_length_eq_zero (Nat.eq_zero_of_not_pos hzero)
        exact .empty hitem hs

/-- What `get_attr_set_value` may leave of an attribute: the length of a
multi-stage dish follows the request, and `CookbookName` has its text. -/
inductive SetLeaves (a : CloudAttr) : CloudAttr → Prop
  | same : SetLeaves a a
  | multistage (n : UInt8) : a.cloudValueType = .struct → a.uartCmd = uartCmdMultistageSet →
      SetLeaves a { a with uartByteLen := n }
  | name (v : List UInt8) : a.cloudValueType = .string → v.length = a.value.length →
      SetLeaves a { a with value := v }

theorem SetLeaves.cloudKey {a a' : CloudAttr} (h : SetLeaves a a') : a'.cloudKey = a.cloudKey := by
  cases h with
  | same => rfl
  | multistage n => rfl
  | name v => rfl

theorem getAttrSetValue_ptr {a : CloudAttr} {item : CJson} {remind : List CStr} {set : SetValue}
    (h : getAttrSetValue a item remind = some set) : SetLeaves a set.ptr := by
  cases getAttrSetValue_cases h with
  | dish ht hcmd hz hstages => exact .multistage _ ht hcmd
  | name ht hs hkey hfits =>
      refine .name _ ht ?_
      simp only [List.length_append, List.length_singleton, List.length_drop]
      omega
  | noStage ht hcmd hz => exact .same
  | struct ht hcmd => exact .same
  | string ht hs hkey => exact .same
  | noNumber ht hs hnum => exact .same
  | stringNum ht hs hnum hbytes => exact .same
  | num ht hbytes => exact .same

/-- The board with what `get_attr_set_value` leaves. -/
def Board.putSet (b : Board) (i : Nat) (set : SetValue) : Board :=
  { b with dev := { b.dev with attr := b.dev.attr.set i set.ptr, remind := set.remind } }

/-- A turn of the loop of `cloud_resp_set`. -/
inductive SetTurn (root : CJson) (i : Nat) (b : Board) (len : Nat) : Board × Nat → Prop
  | skipped {a : CloudAttr} (ha : b.dev.attr[i]? = some a)
      (hno : a.isSettable = true → root.getObjectItem a.cloudKey = none) :
      SetTurn root i b len (b, len)
  | unrecorded {a : CloudAttr} {item : CJson} {set : SetValue} (ha : b.dev.attr[i]? = some a)
      (hitem : root.getObjectItem a.cloudKey = some item) (hset : a.isSettable = true)
      (hval : getAttrSetValue a item b.dev.remind = some set) (hbody : set.body = none) :
      SetTurn root i b len (b.putSet i set, len)
  | recorded {a : CloudAttr} {item : CJson} {set : SetValue} {body uartBuf : List UInt8}
      (ha : b.dev.attr[i]? = some a) (hitem : root.getObjectItem a.cloudKey = some item)
      (hset : a.isSettable = true) (hval : getAttrSetValue a item b.dev.remind = some set)
      (hbody : set.body = some body)
      (hbuf : writeAt b.uartBuf len (a.uartCmd :: body) = some uartBuf) :
      SetTurn root i b len
        ({ b.putSet i set with uartBuf := uartBuf, recorded := b.recorded ++ [i] },
          len + (set.ptr.uartByteLen.toNat + 1))

theorem respSetAttr_turn {root : CJson} {i len : Nat} {b : Board} {out : Board × Nat}
    (h : respSetAttr root i b len = some out) : SetTurn root i b len out := by
  obtain ⟨a, ha, h⟩ := Option.bind_eq_some_iff.mp h
  split at h
  · rename_i hitem
    obtain rfl := Option.some.inj h
    exact .skipped ha fun _ => hitem
  · rename_i item hitem
    split at h
    · rename_i hset
      obtain ⟨set, hval, h⟩ := Option.bind_eq_some_iff.mp h
      dsimp only at h
      split at h
      · rename_i hbody
        obtain rfl := Option.some.inj h
        exact .unrecorded ha hitem hset hval hbody
      · rename_i body hbody
        obtain ⟨uartBuf, hbuf, h⟩ := Option.bind_eq_some_iff.mp h
        obtain rfl := Option.some.inj h
        exact .recorded ha hitem hset hval hbody hbuf
    · rename_i hset
      obtain rfl := Option.some.inj h
      exact .skipped ha fun hyes => absurd hyes hset

/-- After the loop, the payload is handed over or there is none. -/
theorem respSetFrame_cases {root : CJson} {b b' : Board} (h : respSetFrame root b = some b') :
    ∃ done len, (List.range b.dev.attr.length).foldlM
        (fun out i => respSetAttr root i out.1 out.2) (b, 0) = some (done, len) ∧
      (len = 0 ∧ b' = done ∨ (0 < len ∧ len ≤ done.uartBuf.length) ∧
        b' = { done with handed := done.handed ++ [done.uartBuf.take len] }) := by
  obtain ⟨⟨done, len⟩, hloop, h⟩ := Option.bind_eq_some_iff.mp h
  refine ⟨done, len, hloop, ?_⟩
  dsimp only at h
  split at h
  · rename_i hpos
    split at h
    · rename_i hle
      exact Or.inr ⟨⟨hpos, hle⟩, (Option.some.inj h).symm⟩
    · cases h
  · rename_i hzero
    exact Or.inl ⟨Nat.eq_zero_of_not_pos hzero, (Option.some.inj h).symm⟩

/-- A SET request: the frame, and then the history. -/
theorem cloudRespSet_cases {root : CJson} {now rowid : Int} {b b' : Board}
    (h : cloudRespSet root now rowid b = some b') :
    ∃ b₁ db respDb, respSetFrame root b = some b₁ ∧
      databaseRespSet root now rowid b₁.db = some (db, respDb) ∧
      b' = { b₁ with db := db }.reportMsg respDb := by
  obtain ⟨b₁, hframe, h⟩ := Option.bind_eq_some_iff.mp h
  obtain ⟨⟨db, respDb⟩, hdb, h⟩ := Option.bind_eq_some_iff.mp h
  exact ⟨b₁, db, respDb, hframe, hdb, (Option.some.inj h).symm⟩

/-! ## The profile -/

/-- The `cloudKey` of an element of `attr`, if it has one. -/
def parseCloudKey (arraySub : CJson) : Option CStr :=
  match arraySub.getObjectItem (cstr "cloudKey") with
  | some cloudKey => strcpy 33 cloudKey.valuestring
  | none => some []

/-- One element of `attr`, as `cloud_parse_json` reads it.  Where a member is
read that is missing there is no result; `funType` is not read. -/
def parseAttr (arraySub : CJson) : Option CloudAttr := do
  let cloudKey ← parseCloudKey arraySub
  let valueType ← arraySub.getObjectItem (cstr "valueType")
  let uartCmd ← arraySub.getObjectItem (cstr "uartCmd")
  let uartByteLen := match arraySub.getObjectItem (cstr "uartByteLen") with
    | some uartByteLen => UInt8.ofInt uartByteLen.valueint
    | none => 0
  pure
    { cloudKey := cloudKey
      cloudValueType := .ofInt valueType.valueint
      -- `memset(cloud_dev->attr, 0, ...)`
      cloudFunType := .attrReportCtrl
      uartCmd := UInt8.ofInt uartCmd.valueint
      uartByteLen := uartByteLen
      value := List.replicate uartByteLen.toNat 0 }

/-- The texts of the profile, and the arrays they are copied to. -/
def profileTexts : List (CStr × Nat) :=
  [(cstr "DeviceCategory", 33), (cstr "DeviceModel", 16), (cstr "AfterSalesPhone", 16),
    (cstr "HardwareVer", 6), (cstr "UpdateLog", 1024)]

/-- `cloud_parse_json`, and the version `cloud_init` puts in; the inner `none` is
its `goto fail`. -/
def cloudParseJson (root : CJson) : Option (Option CloudDev) :=
  if profileTexts.all fun text => root.hasObjectItem text.1 then
    match root.getObjectItem (cstr "attr") with
    | none => some none
    | some attr =>
        if attr.getArraySize = 0 then some none
        else do
          let _ ← profileTexts.mapM fun text => do
            strcpy text.2 (← root.getObjectItem text.1).valuestring
          let attr ← attr.children.mapM parseAttr
          pure (some { softwareVer := cstr "1.0.7", remind := List.replicate 3 [], attr := attr })
  else some none

end X50
