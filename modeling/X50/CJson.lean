/-
# `X50.CJson` — C strings and cJSON values

The values that requests, profiles and reports are made of, as the cJSON
library under `liblinktool/cJSON` represents them.  Only what the X50 program
reads is kept: the children, `valueint` and `valuestring`.

Two facts of the library matter later and are easy to miss: object members are
found by a CASE-INSENSITIVE comparison (`case_insensitive_strcmp`), the first
match wins, and the members of an object are also its array items.
-/
import Mathlib.Data.List.Basic
import Mathlib.Algebra.Ring.Int.Defs
import Mathlib.Algebra.Ring.Nat

namespace X50

/-- A C string, without its terminating NUL. -/
abbrev CStr := List UInt8

/-- The bytes of a string literal of the source (UTF-8, as the source files
are stored). -/
def cstr (s : String) : CStr := s.toByteArray.data.toList

/-- A C string stored in a `char` array: what precedes the first NUL. -/
def cstrOf (bytes : List UInt8) : CStr := bytes.takeWhile (· ≠ 0)

/-- `tolower` in the C locale. -/
def tolower (c : UInt8) : UInt8 := if 65 ≤ c ∧ c ≤ 90 then c + 32 else c

/-- `case_insensitive_strcmp(a, b) == 0`. -/
def caseInsensitiveEq (a b : CStr) : Bool := a.map tolower == b.map tolower

theorem caseInsensitiveEq_refl (a : CStr) : caseInsensitiveEq a a = true := by
  simp [caseInsensitiveEq]

/-- `%d` of an int. -/
def decimal (n : Int) : CStr := cstr (toString n)

/-- A cJSON node.  `number` carries `valueint`. -/
inductive CJson where
  | null
  | false
  | true
  | number (valueint : Int)
  | string (valuestring : CStr)
  | array (items : List CJson)
  | object (members : List (CStr × CJson))

namespace CJson

/-- `item->valueint`; 0 where the parser does not set it. -/
def valueint : CJson → Int
  | .number n => n
  | .true => 1
  | _ => 0

/-- `item->valuestring`; NULL unless the item is a string. -/
def valuestring : CJson → Option CStr
  | .string s => some s
  | _ => none

/-- The chain of children behind `item->child`. -/
def children : CJson → List CJson
  | .array items => items
  | .object members => members.map (·.2)
  | _ => []

/-- `cJSON_GetObjectItem`: the children of an array have no `string`, so only
an object has named members. -/
def getObjectItem (name : CStr) : CJson → Option CJson
  | .object members => (members.find? fun m => caseInsensitiveEq name m.1).map (·.2)
  | _ => none

/-- `cJSON_HasObjectItem`. -/
def hasObjectItem (name : CStr) (item : CJson) : Bool := (item.getObjectItem name).isSome

/-- `cJSON_GetArraySize`. -/
def getArraySize (item : CJson) : Nat := item.children.length

/-- `cJSON_GetArrayItem`. -/
def getArrayItem (item : CJson) (index : Nat) : Option CJson := item.children[index]?

/-! ### Printing -/

/-- One byte of a string, as `print_string_ptr` writes it. -/
def escape (c : UInt8) : CStr :=
  match c.toNat with
  | 34 => cstr "\\\""
  | 92 => cstr "\\\\"
  | 8 => cstr "\\b"
  | 12 => cstr "\\f"
  | 10 => cstr "\\n"
  | 13 => cstr "\\r"
  | 9 => cstr "\\t"
  | n =>
      if n < 32 then
        cstr "\\u00" ++ cstr (if n < 16 then "0" else "1") ++
          cstr (String.singleton (Nat.digitChar (n % 16)))
      else [c]

/-- `print_string_ptr`. -/
def printString (s : CStr) : CStr := cstr "\"" ++ s.flatMap escape ++ cstr "\""

mutual
/-- `cJSON_PrintUnformatted`. -/
def printUnformatted : CJson → CStr
  | .null => cstr "null"
  | .false => cstr "false"
  | .true => cstr "true"
  | .number n => decimal n
  | .string s => printString s
  | .array items => cstr "[" ++ printItems items ++ cstr "]"
  | .object members => cstr "\x7b" ++ printMembers members ++ cstr "\x7d"
def printItems : List CJson → CStr
  | [] => []
  | [item] => printUnformatted item
  | item :: items => printUnformatted item ++ cstr "," ++ printItems items
def printMembers : List (CStr × CJson) → CStr
  | [] => []
  | [(name, item)] => printString name ++ cstr ":" ++ printUnformatted item
  | (name, item) :: members =>
      printString name ++ cstr ":" ++ printUnformatted item ++ cstr "," ++ printMembers members
end

/-- `cJSON_Object_isNull`: the item prints as an empty pair of braces. -/
def isNull : CJson → Bool
  | .object [] => Bool.true
  | _ => Bool.false

theorem hasObjectItem_iff {name : CStr} {item : CJson} :
    item.hasObjectItem name = Bool.true ↔ ∃ sub, item.getObjectItem name = some sub :=
  Option.isSome_iff_exists

end CJson

/-- What the program hands to the cloud SDK and to the UI socket. -/
inductive Report where
  /-- `report_msg_all_platform`: a property post and a UI event. -/
  | platform (root : CJson)
  /-- `linkkit_user_post_property` alone. -/
  | property (root : CJson)
  /-- `linkkit_user_post_event`; no payload stands for NULL. -/
  | event (eventId : CStr) (payload : Option CJson)

/-- `report_msg_all_platform`: an empty object is dropped. -/
def reportMsgAllPlatform (root : CJson) (out : List Report) : List Report :=
  if root.isNull then out else out ++ [.platform root]

end X50
