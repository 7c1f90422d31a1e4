/-
# `X50.Database` — the SQLite tables behind the history

`databse/database.c` keeps two tables of one shape, `history` and `recipe`:

    ID INTEGER PRIMARY KEY AUTOINCREMENT, SEQID INTEGER UNIQUE NOT NULL, …

`Table` is such a table; its constraints are fields, so that no statement can
break them.  The statements are the ones the C file prepares.  SQLite itself is
not part of the repository: of it the model takes the documented meaning of
these statements, and that an `INSERT` with a NULL id picks an id no row has.
Which one it picks is an argument (`rowid`).
-/
import X50.CJson
import X50.Lib.Records

namespace X50

open X50.Lib

/-- `history_t` of the history library and `recipes_t` of the database: one
struct, declared twice with the same fields and cast into each other. -/
structure History where
  id : Int
  seqid : Int
  dishName : CStr
  imgUrl : CStr
  details : CStr
  cookSteps : CStr
  timestamp : Int
  collect : Int
  cookType : Int
  recipeType : Int
  cookPos : Int
deriving DecidableEq, Repr

/-- `recipes_t recipe = {0};` -/
def History.zero : History :=
  { id := 0, seqid := 0, dishName := [], imgUrl := [], details := [], cookSteps := [],
    timestamp := 0, collect := 0, cookType := 0, recipeType := 0, cookPos := 0 }

instance : Inhabited History := ⟨History.zero⟩

/-- `sizeof(recipe.dishName)` and its siblings. -/
def dishNameSize : Nat := 48
def imgUrlSize : Nat := 80
def detailsSize : Nat := 960
def cookStepsSize : Nat := 180

/-- `strcpy` into a `char` array of `size` bytes.  Writing past its end, and
copying from NULL, has no defined result. -/
def strcpy (size : Nat) (src : Option CStr) : Option CStr :=
  src.bind fun s => if s.length < size then some s else none

theorem strcpy_eq_some {size : Nat} {src : Option CStr} {s : CStr} :
    strcpy size src = some s ↔ src = some s ∧ s.length < size := by
  cases src with
  | none => simp [strcpy]
  | some t =>
      simp only [strcpy, Option.bind_some, Option.some.injEq]
      constructor
      · intro h
        split at h
        · obtain rfl := Option.some.inj h
          exact ⟨rfl, ‹_›⟩
        · cases h
      · rintro ⟨rfl, h⟩
        simp [h]

/-- A table of `database.c`, with the constraints of its `CREATE TABLE`. -/
structure Table where
  rows : List History
  idPos : ∀ r ∈ rows, 0 < r.id
  idNodup : (rows.map (·.id)).Nodup
  seqidNodup : (rows.map (·.seqid)).Nodup

namespace Table

/-- The table a `CREATE TABLE` leaves. -/
def empty : Table :=
  ⟨[], fun _ h => absurd h List.not_mem_nil, List.nodup_nil, List.nodup_nil⟩

/-- A row update by id that keeps the ids. -/
def update (t : Table) (id : Int) (u : History → History) (hid : ∀ r, (u r).id = r.id)
    (hseq : ((updateAt (·.id) id u t.rows).map (·.seqid)).Nodup) : Table where
  rows := updateAt (·.id) id u t.rows
  idPos := by
    intro r hr
    obtain ⟨s, hs, rfl⟩ := mem_updateAt.mp hr
    split
    · rw [hid]; exact t.idPos s hs
    · exact t.idPos s hs
  idNodup := by rw [map_updateAt_of_eq hid]; exact t.idNodup
  seqidNodup := hseq

/-- `databse_clear_table`.  Its second statement, on `sqlite_sequence`, names
the table without quotes and is rejected by SQLite, so no id is reused. -/
def databseClearTable (_ : Table) : Table := empty

/-- `delete_row_from_table`: `DELETE FROM %s WHERE ID = ?`. -/
def deleteRowFromTable (t : Table) (id : Int) : Table where
  rows := deleteAt (·.id) id t.rows
  idPos := fun r hr => t.idPos r (mem_deleteAt.mp hr).1
  idNodup := nodup_map_deleteAt t.idNodup
  seqidNodup := nodup_map_deleteAt t.seqidNodup

end Table

/-- The integer columns the program updates. -/
inductive IntColumn where
  | collect | timestamp | seqid
deriving DecidableEq, Repr

/-- The column's value in a row, replaced. -/
def IntColumn.set (key : IntColumn) (val : Int) (r : History) : History :=
  match key with
  | .collect => { r with collect := val }
  | .timestamp => { r with timestamp := val }
  | .seqid => { r with seqid := val }

@[simp] theorem IntColumn.set_id (key : IntColumn) (val : Int) (r : History) :
    (key.set val r).id = r.id := by
  cases key <;> rfl

theorem IntColumn.set_seqid {key : IntColumn} (h : key ≠ .seqid) (val : Int) (r : History) :
    (key.set val r).seqid = r.seqid := by
  cases key with
  | collect => rfl
  | timestamp => rfl
  | seqid => exact absurd rfl h

/-- Another row already has the value an update wants to give the unique
column of row `id`: the statement fails and changes nothing. -/
def Table.seqidTaken (t : Table) (key : IntColumn) (val id : Int) : Prop :=
  key = .seqid ∧ ∃ r ∈ t.rows, r.id ≠ id ∧ r.seqid = val

instance (t : Table) (key : IntColumn) (val id : Int) : Decidable (t.seqidTaken key val id) :=
  inferInstanceAs (Decidable (_ ∧ _))

theorem Table.set_seqidNodup {t : Table} {key : IntColumn} {val id : Int}
    (h : ¬ t.seqidTaken key val id) :
    ((updateAt (·.id) id (key.set val) t.rows).map (·.seqid)).Nodup := by
  by_cases hkey : key = .seqid
  · subst hkey
    refine nodup_map_updateAt (v := val) t.idNodup t.seqidNodup (fun _ => rfl) ?_
    intro r hr hid hval
    exact h ⟨rfl, r, hr, hid, hval⟩
  · rw [map_updateAt_of_eq (fun r => IntColumn.set_seqid hkey val r)]
    exact t.seqidNodup

/-- `update_key_to_table`: `UPDATE %s SET %s = ? WHERE ID = ?`. -/
def updateKeyToTable (key : IntColumn) (val id : Int) (t : Table) : Table :=
  if h : t.seqidTaken key val id then t
  else t.update id (key.set val) (key.set_id val) (Table.set_seqidNodup h)

/-- The only text column updated, `dishName`, replaced in a row. -/
def History.setDishName (val : CStr) (r : History) : History := { r with dishName := val }

/-- `update_key_string_table`. -/
def updateKeyStringTable (val : CStr) (id : Int) (t : Table) : Table :=
  t.update id (History.setDishName val) (fun _ => rfl) (by
    rw [map_updateAt_of_eq (u := History.setDishName val) (fun _ => rfl)]
    exact t.seqidNodup)

/-- `insert_replace_row_to_table`: `INSERT OR REPLACE INTO %s VALUES (NULL, …)`.
Rows with the same `SEQID` are deleted, then the record is stored under
`rowid`.  No result when `rowid` is not one SQLite could have picked. -/
def insertReplaceRowToTable (recipes : History) (rowid : Int) (t : Table) : Option Table :=
  if h : 0 < rowid ∧ ∀ r ∈ t.rows, r.id ≠ rowid then
    some
      { rows := deleteAt (·.seqid) recipes.seqid t.rows ++ [{ recipes with id := rowid }]
        idPos := by
          intro r hr
          rcases List.mem_append.mp hr with hr | hr
          · exact t.idPos r (mem_deleteAt.mp hr).1
          · obtain rfl := List.mem_singleton.mp hr
            exact h.1
        idNodup := by
          rw [List.map_append, List.nodup_append]
          refine ⟨nodup_map_deleteAt t.idNodup, List.nodup_singleton _, ?_⟩
          intro a ha b hb hab
          obtain ⟨r, hr, rfl⟩ := List.mem_map.mp ha
          obtain rfl := List.mem_singleton.mp hb
          exact h.2 r (mem_deleteAt.mp hr).1 hab
        seqidNodup := by
          rw [List.map_append, List.nodup_append]
          refine ⟨nodup_map_deleteAt t.seqidNodup, List.nodup_singleton _, ?_⟩
          intro a ha b hb hab
          obtain ⟨r, hr, rfl⟩ := List.mem_map.mp ha
          obtain rfl := List.mem_singleton.mp hb
          exact (mem_deleteAt.mp hr).2 hab }
  else none

/-- The rows `select_seqid_from_table` hands to its callback. -/
def selectSeqidFromTable (seqid : Int) (t : Table) : List History :=
  t.rows.filter fun r => r.seqid = seqid

/-- `select_dishname_from_table`: the first row found, if any. -/
def selectDishnameFromTable (dishname : CStr) (t : Table) : Option History :=
  t.rows.find? fun r => r.dishName = dishname

/-! ## What the statements leave in the rows -/

@[simp] theorem rows_deleteRowFromTable (t : Table) (id : Int) :
    (t.deleteRowFromTable id).rows = deleteAt (·.id) id t.rows := rfl

@[simp] theorem rows_databseClearTable (t : Table) : t.databseClearTable.rows = [] := rfl

theorem rows_updateKeyToTable {key : IntColumn} {val id : Int} {t : Table}
    (h : ¬ t.seqidTaken key val id) :
    (updateKeyToTable key val id t).rows = updateAt (·.id) id (key.set val) t.rows := by
  simp [updateKeyToTable, h, Table.update]

theorem not_seqidTaken_of_ne {key : IntColumn} (hkey : key ≠ .seqid) (t : Table) (val id : Int) :
    ¬ t.seqidTaken key val id := fun h => hkey h.1

@[simp] theorem rows_updateKeyStringTable (val : CStr) (id : Int) (t : Table) :
    (updateKeyStringTable val id t).rows =
      updateAt (·.id) id (History.setDishName val) t.rows := rfl

theorem insertReplaceRowToTable_eq_some {recipes : History} {rowid : Int} {t t' : Table}
    (h : insertReplaceRowToTable recipes rowid t = some t') :
    (0 < rowid ∧ ∀ r ∈ t.rows, r.id ≠ rowid) ∧
      t'.rows = deleteAt (·.seqid) recipes.seqid t.rows ++ [{ recipes with id := rowid }] := by
  simp only [insertReplaceRowToTable] at h
  split at h
  · next hid =>
    obtain rfl := Option.some.inj h
    exact ⟨hid, rfl⟩
  · cases h

/-! ## The recipe table

Recipes are written once, by `recipes_parse_json`, into a table just created.
The `recipes` struct of the loop is zeroed before it and keeps its fields from
one item to the next; its `collect` is never written. -/

/-- One turn of the loop of `recipes_parse_json`: the struct, the table and the
number of rows inserted so far. -/
def recipesParseItem (st : History × Table × Nat) (arraySub : CJson) :
    Option (History × Table × Nat) := do
  let (recipes, t, n) := st
  let seqid :=
    match arraySub.getObjectItem (cstr "seqid") with
    | some seqid => seqid.valueint
    | none => recipes.seqid
  let dishName ← strcpy dishNameSize (← arraySub.getObjectItem (cstr "dishName")).valuestring
  let imgUrl ← strcpy imgUrlSize (← arraySub.getObjectItem (cstr "imgUrl")).valuestring
  let cookSteps ← strcpy cookStepsSize (← arraySub.getObjectItem (cstr "cookSteps")).valuestring
  let details ← strcpy detailsSize (← arraySub.getObjectItem (cstr "details")).valuestring
  let cookType ← arraySub.getObjectItem (cstr "cookType")
  let recipeType ← arraySub.getObjectItem (cstr "recipeType")
  let cookPos ← arraySub.getObjectItem (cstr "cookPos")
  let recipes := { recipes with
    seqid := seqid, dishName := dishName, imgUrl := imgUrl, cookSteps := cookSteps,
    details := details, cookType := cookType.valueint, recipeType := recipeType.valueint,
    cookPos := cookPos.valueint }
  let t ← insertReplaceRowToTable recipes (n + 1) t
  pure (recipes, t, n + 1)

/-- `recipes_parse_json`, on a table just created. -/
def recipesParseJson (root : CJson) : Option Table := do
  let _ ← root.getObjectItem (cstr "RecipesVersion")
  let attr ← root.getObjectItem (cstr "recipes")
  if attr.getArraySize = 0 then none
  else
    let st ← attr.children.foldlM recipesParseItem (History.zero, Table.empty, 0)
    pure st.2.1

/-- A recipe table: no recipe carries a collect flag. -/
structure RecipeTable extends Table where
  collectZero : ∀ r ∈ rows, r.collect = 0

def noRecipes : RecipeTable := ⟨Table.empty, fun _ h => absurd h List.not_mem_nil⟩

end X50
