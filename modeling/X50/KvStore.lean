/-
# `X50.KvStore` — the key-value file of the SDK

`linkkit_kv.bin` is a table of 384 rows of two items; `HAL_Kv_Set`, `HAL_Kv_Get` and
`HAL_Kv_Del` read the row of a key, search it and write it back.  An item with no
`value_len` is free, and since removing clears it, it is `none` here.

The file is created once.  If the power fails then, it stays short: `written` is how many
rows it has, and the keys of the others can never be stored.

`kv_map_iff` says when the store is the map it is meant to be: exactly as long as nothing
is removed that has another key behind it in its row.
-/
import X50.CJson
import X50.Lib.Bucket
import X50.Lib.Machine

namespace X50

open X50.Lib

/-! ## The functions -/

/-- `TABLE_COL_SIZE`, `TABLE_ROW_SIZE`, `ITEM_MAX_KEY_LEN` and `ITEM_MAX_VAL_LEN`. -/
def tableColSize : Nat := 384
def tableRowSize : Nat := 2
def itemMaxKeyLen : Nat := 128
def itemMaxValLen : Nat := 512

/-- The rows of the file. -/
abbrev KvRows := List (List (Option (CStr × List UInt8)))

/-- `hash_gen`; a `char` of the board has no sign. -/
def hashGen (key : CStr) : Nat :=
  (key.foldl (fun (hash : UInt32) c => (hash <<< 5) + hash + c.toUInt32) 0).toNat % tableColSize

/-- `create_hash_file`, as far as it came. -/
def createHashFile (written : Nat) : KvRows :=
  List.replicate written (List.replicate tableRowSize none)

/-- The search of `hash_table_put` in a row.  `strncpy` cuts a long key where it is stored,
and `strcmp` does not. -/
def hashTablePutRow (key : CStr) (value : List UInt8) :
    List (Option (CStr × List UInt8)) → Option (List (Option (CStr × List UInt8)))
  | [] => none
  | none :: row => some (some (key.take (itemMaxKeyLen - 1), value) :: row)
  | some p :: row =>
      if p.1 = key then some (some (p.1, value) :: row)
      else (hashTablePutRow key value row).map (some p :: ·)

/-- `hash_table_put`. -/
def hashTablePut (key : CStr) (value : List UInt8) (rows : KvRows) : Option KvRows :=
  rows[hashGen key]?.bind fun row =>
    (hashTablePutRow key (value.take itemMaxValLen) row).map (rows.set (hashGen key) ·)

/-- `HAL_Kv_Set`: what it returns, and the file. -/
def halKvSet (key : CStr) (value : List UInt8) (rows : KvRows) : Int × KvRows :=
  if value = [] then (-1, rows)
  else
    match hashTablePut key value rows with
    | none => (-1, rows)
    | some rows' => (0, rows')

/-- `HAL_Kv_Get`, into a buffer of `len` bytes; nothing where it returns an error. -/
def halKvGet (key : CStr) (len : Nat) (rows : KvRows) : Option (List UInt8) :=
  if len = 0 then none else (tableGet hashGen rows key).map (·.take len)

/-- `HAL_Kv_Del`. -/
def halKvDel (key : CStr) (rows : KvRows) : Int × KvRows :=
  match tableRemove hashGen rows key with
  | none => (-1, rows)
  | some rows' => (0, rows')

/-! ## The map it is meant to be -/

/-- The file, and the map that the same calls make of an empty one. -/
structure KvRun where
  rows : KvRows
  map : CStr → Option (List UInt8)

inductive KvAct where
  | set (key : CStr) (value : List UInt8)
  | del (key : CStr)
deriving DecidableEq

def KvAct.key : KvAct → CStr
  | .set key _ => key
  | .del key => key

open Classical in
/-- A call, on a map that has room for two keys of a row. -/
noncomputable def kvMapStep (written : Nat) (map : CStr → Option (List UInt8)) :
    KvAct → CStr → Option (List UInt8)
  | .set key value =>
      if value ≠ [] ∧ Fits hashGen written tableRowSize map key then
        Function.update map key (some (value.take itemMaxValLen))
      else map
  | .del key => if hashGen key < written then Function.update map key none else map

def kvStep (rows : KvRows) : KvAct → KvRows
  | .set key value => (halKvSet key value rows).2
  | .del key => (halKvDel key rows).2

noncomputable def kvMachine : Machine KvRun KvAct where
  step s a := some ⟨kvStep s.rows a, kvMapStep s.rows.length s.map a⟩

/-- The file just created. -/
def KvRun.created (written : Nat) : KvRun := ⟨createHashFile written, fun _ => none⟩

/-- The store answers as the map does: what is read, and what can be stored. -/
structure KvRun.Answers (s : KvRun) : Prop where
  get : ∀ key len, 0 < len → halKvGet key len s.rows = (s.map key).map (·.take len)
  set : ∀ key value, key.length < itemMaxKeyLen → ((halKvSet key value s.rows).1 = 0 ↔
    value ≠ [] ∧ Fits hashGen s.rows.length tableRowSize s.map key)

/-- The removed key has no other behind it in its row. -/
def KvRun.Safe (s : KvRun) (a : KvAct) : Prop :=
  ∀ key, a = .del key → ∀ row, s.rows[hashGen key]? = some row → Youngest key row

instance (s : KvRun) : ∀ a, Decidable (s.Safe a)
  | .set _ _ => isTrue fun _ h => by cases h
  | .del key =>
      decidable_of_iff (∀ row ∈ s.rows[hashGen key]?, Youngest key row)
        ⟨fun h key' hdel row hrow => KvAct.del.inj hdel ▸ h row (KvAct.del.inj hdel ▸ hrow),
          fun h row hrow => h key rfl row hrow⟩

/-! ## What a call does -/

section

variable {key : CStr} {value : List UInt8} {rows rows' : KvRows} {map : CStr → Option (List UInt8)}

theorem hashTablePutRow_eq (hkey : key.length < itemMaxKeyLen)
    (row : List (Option (CStr × List UInt8))) :
    hashTablePutRow key value row = rowPut key value row := by
  have htake : key.take (itemMaxKeyLen - 1) = key := List.take_of_length_le (by omega)
  induction row with
  | nil => rfl
  | cons s row ih =>
      cases s with
      | none => rw [hashTablePutRow, rowPut, htake]
      | some p =>
          rw [hashTablePutRow, rowPut, ih]
          by_cases hp : p.1 = key
          · rw [if_pos hp, if_pos hp.symm, hp]
          · rw [if_neg hp, if_neg (Ne.symm hp)]

theorem hashTablePut_eq (hkey : key.length < itemMaxKeyLen) :
    hashTablePut key value rows = tablePut hashGen rows key (value.take itemMaxValLen) := by
  simp only [hashTablePut, tablePut, hashTablePutRow_eq hkey]

/-- An invariant of the store: it holds the map. -/
def KvRun.Holds (s : KvRun) : Prop := Rep hashGen tableRowSize s.rows s.map

theorem rowKeys_createHashFile {row : List (Option (CStr × List UInt8))} {written : Nat}
    (h : row ∈ createHashFile written) : rowKeys row = [] := by
  obtain rfl := List.eq_of_mem_replicate h
  rfl

theorem holds_created (written : Nat) : (KvRun.created written).Holds := by
  refine ⟨fun row hrow => ?_, fun row hrow => ?_, fun row hrow => ?_, ?_, fun key => ?_⟩
  · obtain rfl := List.eq_of_mem_replicate hrow
    rfl
  · obtain rfl := List.eq_of_mem_replicate hrow
    exact packed_of_free fun s hs => List.eq_of_mem_replicate hs
  · rw [rowKeys_createHashFile hrow]
    exact List.nodup_nil
  · intro i row hrow k hk
    rw [rowKeys_createHashFile (List.mem_of_getElem? hrow)] at hk
    cases hk
  · show none = tableGet hashGen (createHashFile written) key
    cases hrow : (createHashFile written)[hashGen key]? with
    | none => rw [tableGet, hrow, Option.bind_none]
    | some row =>
        rw [tableGet, hrow, Option.bind_some,
          rowGet_of_not_mem (by simp [rowKeys_createHashFile (List.mem_of_getElem? hrow)])]

theorem halKvSet_zero (value : List UInt8) (h : Rep hashGen tableRowSize rows map)
    (hkey : key.length < itemMaxKeyLen) :
    (halKvSet key value rows).1 = 0 ↔
      value ≠ [] ∧ Fits hashGen rows.length tableRowSize map key := by
  rw [← h.put_isSome (v := value.take itemMaxValLen), ← hashTablePut_eq hkey, halKvSet]
  split
  · simp [*]
  · cases hashTablePut key value rows <;> simp [*]

/-- Storing does to the file what it does to the map. -/
theorem holds_set {s : KvRun} (value : List UInt8) (h : s.Holds)
    (hkey : key.length < itemMaxKeyLen) :
    KvRun.Holds ⟨kvStep s.rows (.set key value), kvMapStep s.rows.length s.map (.set key value)⟩ ∧
      (kvStep s.rows (.set key value)).length = s.rows.length := by
  have hzero := halKvSet_zero value h hkey
  by_cases hfits : value ≠ [] ∧ Fits hashGen s.rows.length tableRowSize s.map key
  · have hsome := (h.put_isSome (v := value.take itemMaxValLen)).mpr hfits.2
    obtain ⟨rows', hrows'⟩ := Option.isSome_iff_exists.mp hsome
    have hstep : kvStep s.rows (.set key value) = rows' := by
      rw [kvStep, halKvSet, if_neg hfits.1, hashTablePut_eq hkey, hrows']
    rw [hstep, kvMapStep, if_pos hfits]
    exact h.put hrows'
  · have hstep : kvStep s.rows (.set key value) = s.rows := by
      rw [kvStep, halKvSet]
      split
      · rfl
      · rename_i hvalue
        have hnone : hashTablePut key value s.rows = none := by
          rw [hashTablePut_eq hkey, ← Option.not_isSome_iff_eq_none, h.put_isSome]
          exact fun h' => hfits ⟨hvalue, h'⟩
        rw [hnone]
    rw [hstep, kvMapStep, if_neg hfits]
    exact ⟨h, rfl⟩

/-- A call on a row that the file does not have. -/
theorem kvStep_del_none {s : KvRun} (hrow : s.rows[hashGen key]? = none) :
    kvStep s.rows (.del key) = s.rows ∧ kvMapStep s.rows.length s.map (.del key) = s.map := by
  have hlt : ¬ hashGen key < s.rows.length := by
    rw [Nat.not_lt]
    exact List.getElem?_eq_none_iff.mp hrow
  constructor
  · rw [kvStep, halKvDel, tableRemove, hrow]
    rfl
  · rw [kvMapStep, if_neg hlt]

theorem kvStep_del_some {s : KvRun} {row : List (Option (CStr × List UInt8))}
    (hrow : s.rows[hashGen key]? = some row) :
    kvStep s.rows (.del key) = s.rows.set (hashGen key) (rowRemove key row) ∧
      kvMapStep s.rows.length s.map (.del key) = Function.update s.map key none := by
  have hlt : hashGen key < s.rows.length := (List.getElem?_eq_some_iff.mp hrow).1
  constructor
  · rw [kvStep, halKvDel, tableRemove, hrow]
    rfl
  · rw [kvMapStep, if_pos hlt]

theorem KvRun.Holds.answers {s : KvRun} (h : s.Holds) : s.Answers := by
  refine ⟨fun key len hlen => ?_, fun key value hkey => halKvSet_zero value h hkey⟩
  rw [halKvGet, if_neg (by omega), h.get]

/-- A buffer that is long enough shows the whole value. -/
theorem KvRun.Answers.map_eq {s : KvRun} (h : s.Answers) (key : CStr) :
    s.map key = tableGet hashGen s.rows key := by
  have hget := fun len (hlen : 0 < len) => h.get key len hlen
  simp only [halKvGet] at hget
  cases hfile : tableGet hashGen s.rows key with
  | none =>
      have h1 := hget 1 (by omega)
      rw [if_neg (by omega), hfile] at h1
      exact Option.map_eq_none_iff.mp h1.symm
  | some v =>
      have hv := hget (v.length + 1) (by omega)
      rw [if_neg (by omega), hfile, Option.map_some] at hv
      obtain ⟨w, hw, -⟩ := Option.map_eq_some_iff.mp hv.symm
      have hlong := hget (v.length + w.length + 1) (by omega)
      rw [if_neg (by omega), hfile, hw, Option.map_some, Option.map_some, Option.some.injEq,
        List.take_of_length_le (by omega), List.take_of_length_le (by omega)] at hlong
      rw [hw, hlong]

end

/-- **When the store is a map.**  In any run of calls from the file just created, whole or
cut, with keys that have room in an item: everything that is read is what was last stored,
and every `HAL_Kv_Set` goes through that a map with two keys to a row has room for, if and
only if no call removes a key that has another one behind it in its row. -/
theorem kv_map_iff {written : Nat} {acts : List KvAct}
    (hkeys : ∀ a ∈ acts, a.key.length < itemMaxKeyLen) :
    kvMachine.Along KvRun.Answers (.created written) acts ↔
      kvMachine.Meets KvRun.Safe (.created written) acts := by
  refine Machine.along_iff_meets_of (I := KvRun.Holds) (fun s hs => hs.answers) ?_ hkeys
    (holds_created written)
  intro s a s' hkey hs hstep
  obtain rfl := Option.some.inj hstep
  cases a with
  | set key value => exact ⟨fun _ => (holds_set value hs hkey).1, fun _ key hdel => by cases hdel⟩
  | del key =>
      cases hrow : s.rows[hashGen key]? with
      | none =>
          obtain ⟨hfile, hmap⟩ := kvStep_del_none hrow
          rw [hfile, hmap]
          refine ⟨fun _ => hs, fun _ key' hdel row hrow' => ?_⟩
          obtain rfl := KvAct.del.inj hdel
          rw [hrow] at hrow'
          cases hrow'
      | some row =>
          obtain ⟨hfile, hmap⟩ := kvStep_del_some hrow
          rw [hfile, hmap]
          refine ⟨fun hsafe => hs.remove hrow (hsafe key rfl row hrow), ?_⟩
          intro hanswers key' hdel row' hrow'
          obtain rfl := KvAct.del.inj hdel
          obtain rfl := Option.some.inj (hrow.symm.trans hrow')
          exact (hs.remove_iff hrow).mp hanswers.map_eq

/-- Two keys of one row; the younger is removed and comes back. -/
def kvActs : List KvAct :=
  [.set (cstr "ab") [1], .set (cstr "bA") [2], .del (cstr "bA"), .set (cstr "bA") [3, 4]]

theorem kv_map_iff_younger : kvMachine.Along KvRun.Answers (.created 384) kvActs :=
  (kv_map_iff (by decide)).mpr (by decide +kernel)

/-- Without the older key the younger one is out of reach. -/
example : ¬ kvMachine.Meets KvRun.Safe (.created 384)
    [.set (cstr "ab") [1], .set (cstr "bA") [2], .del (cstr "ab")] := by decide +kernel

end X50
