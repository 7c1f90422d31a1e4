/-
# `X50.History` — the cooking history: two stores and the code that writes them

The history lives twice: as the rows of the `history` table and as
`CookHistory::historyList`, the sorted list the clients are served from.  The
C++ methods of `libhistory/src/history.cpp` decide what is to be done; the
callbacks of `databse/database_task.c` write the table, send the report and
call back into the C++ class to change the list.

`HistoryState` is all of it, `historyMachine` the system a client sees: cook
commands, `UpdateHistory`, `DeleteHistory`, Reset and restarts of the program.
A step has no result where the C program has none that is defined (a NULL
dereference, a write outside an array), and where the environment breaks a
promise of SQLite (an id that is not fresh).
-/
import X50.Database
import X50.Lib.Machine
import Mathlib.Data.List.Sort

namespace X50

open X50.Lib

structure HistoryState where
  /-- `CookHistory::historyList` -/
  historyList : List History
  /-- `g_history_seqid` -/
  gHistorySeqid : Int
  /-- the `history` table -/
  history : Table
  /-- the `recipe` table -/
  recipe : RecipeTable
  /-- everything reported so far -/
  out : List Report

/-! ## `CookHistory`, on the list alone -/

def maxHistory : Nat := 40
def maxCollect : Nat := 40

/-- `recipes_t::operator<` -/
def recipeLt (a b : History) : Bool :=
  if a.collect = b.collect then decide (b.seqid < a.seqid) else decide (0 < a.collect)

/-- `a` may stand before `b`. -/
def recipeLe (a b : History) : Prop := recipeLt b a = false

instance : DecidableRel recipeLe := fun a b => inferInstanceAs (Decidable (recipeLt b a = false))

/-- `CookHistory::sortHistory`: `std::list::sort` is stable.  It asks for a strict weak
order; over flags for which `operator<` is none (two positive ones that differ), C++
leaves the order of the list open and this is only one of those possible.
`sortedMachine` of `X50.HistorySort` leaves such steps out. -/
def sortHistory (l : List History) : List History := l.insertionSort recipeLe

def reportDeleteHistory (id : Int) (l : List History) : List History := deleteAt (·.id) id l

/-- The four `strcmp` of `compareHistoryCollect`. -/
def sameDish (a b : History) : Bool :=
  a.dishName == b.dishName && a.imgUrl == b.imgUrl && a.details == b.details &&
    a.cookSteps == b.cookSteps

/-- `CookHistory::compareHistoryCollect`: the id of the first collected record
of the same dish, or -1.  The record found gets the new timestamp IN THE LIST. -/
def compareHistoryCollect (single : History) : List History → List History × Int
  | [] => ([], -1)
  | r :: rs =>
      if r.collect = 0 then
        let rest := compareHistoryCollect single rs
        (r :: rest.1, rest.2)
      else if sameDish r single then
        ({ r with timestamp := single.timestamp } :: rs, r.id)
      else
        let rest := compareHistoryCollect single rs
        (r :: rest.1, rest.2)

/-- `CookHistory::getHistoryCount`: the records that are not collected. -/
def getHistoryCount (l : List History) : Nat := l.countP fun r => r.collect == 0

def lastHistoryId (collect : Int) (l : List History) : Int :=
  match l.reverse.find? fun r => r.collect == collect with
  | some r => r.id
  | none => -1

/-- `CookHistory::reportInsertHistory`; `none` for NULL. -/
def reportInsertHistory (single : Option History) (sort : Bool) (l : List History) :
    List History :=
  let l := match single with
    | some recipe => recipe :: l
    | none => l
  if sort then sortHistory l else l

/-- What `reportUpdateHistory` does to the record it finds. -/
def overwrite (single r : History) : History :=
  { r with
    seqid := single.seqid
    collect := if 0 ≤ single.collect then single.collect else r.collect
    timestamp := if 0 < single.timestamp then single.timestamp else r.timestamp
    dishName := if 0 < single.dishName.length then single.dishName else r.dishName }

def reportUpdateHistory (single : History) (l : List History) : List History :=
  sortHistory (updateFirst (·.id) single.id (overwrite single) l)

/-! ## The callbacks of `database_task.c` -/

/-- The columns `wrapper_history_update_cb` writes before the seqid. -/
def updateColumns (history : History) (t : Table) : Table :=
  let t := if 0 ≤ history.collect then
      updateKeyToTable .collect history.collect history.id t else t
  let t := if 0 < history.timestamp then
      updateKeyToTable .timestamp history.timestamp history.id t else t
  if 0 < history.dishName.length then
    updateKeyStringTable history.dishName history.id t else t

def updateMembers (history : History) (seqid : Int) : List (CStr × CJson) :=
  [(cstr "id", .number history.id)] ++
    (if 0 ≤ history.collect then [(cstr "collect", .number history.collect)] else []) ++
    (if 0 < history.timestamp then [(cstr "timestamp", .number history.timestamp)] else []) ++
    (if 0 < history.dishName.length then [(cstr "dishName", .string history.dishName)] else []) ++
    [(cstr "seqid", .number seqid)]

def wrapperHistoryUpdateCb (history : History) (s : HistoryState) : HistoryState :=
  let seqid := s.gHistorySeqid + 1
  { s with
    historyList := reportUpdateHistory { history with seqid := seqid } s.historyList
    gHistorySeqid := seqid
    history := updateKeyToTable .seqid seqid history.id (updateColumns history s.history)
    out := reportMsgAllPlatform
      (.object [(cstr "UpdateHistory", .object (updateMembers history seqid))]) s.out }

def wrapperHistoryDeleteCb (id : Int) (s : HistoryState) : HistoryState :=
  { s with
    historyList := reportDeleteHistory id s.historyList
    history := s.history.deleteRowFromTable id
    out := reportMsgAllPlatform (.array [.number id]) s.out }

/-- The members `histroy_select_seqid_func` adds to its item. -/
def selectSeqidMembers (recipe : History) : List (CStr × CJson) :=
  [(cstr "id", .number recipe.id), (cstr "seqid", .number recipe.seqid),
    (cstr "dishName", .string recipe.dishName), (cstr "imgUrl", .string recipe.imgUrl),
    (cstr "cookSteps", .string recipe.cookSteps), (cstr "details", .string recipe.details),
    (cstr "collect", .number recipe.collect), (cstr "timestamp", .number recipe.timestamp),
    (cstr "cookType", .number recipe.cookType), (cstr "recipeType", .number recipe.recipeType),
    (cstr "cookPos", .number recipe.cookPos)]

/-- `histroy_select_seqid_func`: besides filling the item it puts the row into
the history list and raises `g_history_seqid`. -/
def histroySelectSeqidFunc (recipe : History) (s : HistoryState)
    (item : List (CStr × CJson)) : HistoryState × List (CStr × CJson) :=
  ({ s with
      historyList := reportInsertHistory (some recipe) true s.historyList
      gHistorySeqid := if s.gHistorySeqid < recipe.seqid then recipe.seqid else s.gHistorySeqid },
    item ++ selectSeqidMembers recipe)

/-- A `select_seqid_from_table` with that callback, over the rows it finds. -/
def selectSeqidRows (rows : List History) (s : HistoryState) (item : List (CStr × CJson)) :
    HistoryState × List (CStr × CJson) :=
  rows.foldl (fun acc r => histroySelectSeqidFunc r acc.1 acc.2) (s, item)

/-- `wrapper_history_insert_cb`; `rowid` is the id SQLite picks. -/
def wrapperHistoryInsertCb (history : History) (rowid : Int) (s : HistoryState) :
    Option HistoryState := do
  let seqid := s.gHistorySeqid + 1
  let t ← insertReplaceRowToTable { history with seqid := seqid } rowid s.history
  let (s, item) := selectSeqidRows (selectSeqidFromTable seqid t) { s with history := t } []
  if (CJson.object item).isNull then
    pure s
  else
    pure { s with
      out := reportMsgAllPlatform (.object [(cstr "InsertHistory", .object item)]) s.out }

/-! ## `CookHistory`, with its callbacks -/

/-- `CookHistory::insertHistory`; `now` is `std::time(NULL)`. -/
def insertHistory (single : History) (now rowid : Int) (s : HistoryState) :
    Option HistoryState :=
  let single := { single with timestamp := now }
  let found := compareHistoryCollect single s.historyList
  let s := { s with historyList := found.1 }
  if 0 ≤ found.2 then
    -- the record found is not named: `history` is zero but for its timestamp
    some (wrapperHistoryUpdateCb { History.zero with timestamp := single.timestamp } s)
  else
    let s :=
      if maxHistory ≤ getHistoryCount s.historyList then
        let id := lastHistoryId 0 s.historyList
        if 0 ≤ id then wrapperHistoryDeleteCb id s else s
      else s
    wrapperHistoryInsertCb single rowid s

/-- The id of the record `CookHistory::updateHistory` takes for surplus, or -1;
`iter` is the record the request names. -/
def surplusId (single iter : History) (l : List History) : Int :=
  if single.collect ≠ iter.collect then
    if maxCollect ≤ l.length - getHistoryCount l then lastHistoryId 1 l else -1
  else if maxHistory ≤ getHistoryCount l then lastHistoryId 0 l else -1

def CookHistory.updateHistory (single : History) (s : HistoryState) : HistoryState :=
  match s.historyList.find? fun r => r.id == single.id with
  | none => s
  | some iter =>
      let s :=
        if 0 ≤ single.collect then
          let lastId := surplusId single iter s.historyList
          -- what is deleted is the record the request names
          if 0 ≤ lastId ∧ lastId ≠ single.id then wrapperHistoryDeleteCb single.id s else s
        else s
      wrapperHistoryUpdateCb single s

/-! ## The commands -/

/-- The record `UpdateHistory_cb` builds from its request. -/
def updateHistoryRecord (item id : CJson) : Option History := do
  let dishName ← match item.getObjectItem (cstr "dishName") with
    | some dishName => strcpy dishNameSize dishName.valuestring
    | none => some []
  let collect := match item.getObjectItem (cstr "collect") with
    | some collect => collect.valueint
    | none => -1
  pure { History.zero with id := id.valueint, dishName := dishName, collect := collect }

def updateHistoryCb (item : CJson) (s : HistoryState) : Option HistoryState :=
  match item.getObjectItem (cstr "id") with
  | none => some s
  | some id => (updateHistoryRecord item id).map fun recipe => CookHistory.updateHistory recipe s

/-- `DeleteHistory_cb`: the new state, and the array it answers with. -/
def deleteHistoryCb (item : CJson) (s : HistoryState) : HistoryState × Option CJson :=
  if item.getArraySize = 0 then (s, none)
  else
    let ids := item.children.map CJson.valueint
    (ids.foldl (fun s id =>
        { s with
          historyList := reportDeleteHistory id s.historyList
          history := s.history.deleteRowFromTable id }) s,
      some (.array (ids.map .number)))

def leftWorkModeFun (n : Int) : CStr :=
  if n = 1 then cstr "经典蒸"
  else if n = 2 then cstr "高温蒸"
  else if n = 35 then cstr "热风烧烤"
  else if n = 36 then cstr "上下加热"
  else if n = 38 then cstr "立体热风"
  else if n = 40 then cstr "蒸汽烤"
  else if n = 42 then cstr "空气炸"
  else if n = 72 then cstr "保温烘干"
  else cstr "未设定"

def cookStep (mode time temp number : Int) : CJson :=
  .object [(cstr "mode", .number mode), (cstr "time", .number time),
    (cstr "temp", .number temp), (cstr "number", .number number)]

/-- The stage loop of `cook_history`, from stage `i` on: the dish name so far
and the steps so far. -/
def cookStages (i : Nat) (dishName : CStr) (cookSteps : List CJson) :
    List CJson → Option (CStr × List CJson)
  | [] => some (dishName, cookSteps)
  | arraySub :: rest => do
      let mode ← arraySub.getObjectItem (cstr "Mode")
      let temp ← arraySub.getObjectItem (cstr "Temp")
      let timer ← arraySub.getObjectItem (cstr "Timer")
      let step := cookStep mode.valueint timer.valueint temp.valueint (i + 1)
      let dishName ← strcpy dishNameSize
        (some (dishName ++ leftWorkModeFun mode.valueint ++ cstr "-"))
      cookStages (i + 1) dishName (cookSteps ++ [step]) rest

/-- A multi-stage dish.  `dishName[strlen(dishName) - 1] = 0` drops the last
`-`; with no stage at all it writes before the array. -/
def cookMultiStage (stages : CJson) : Option (CStr × List CJson) := do
  let (dishName, cookSteps) ← cookStages 0 [] [] stages.children
  if dishName = [] then none else pure (dishName.dropLast, cookSteps)

/-- A dish of one cavity, from its mode name and the `%s-%d℃-%d分钟` of `sprintf`. -/
def cookSingle (name : CStr) (mode timer temp : CJson) : Option (CStr × List CJson) := do
  let dishName ← strcpy dishNameSize (some (name ++ cstr "-" ++ decimal temp.valueint ++
    cstr "℃-" ++ decimal timer.valueint ++ cstr "分钟"))
  pure (dishName, [cookStep mode.valueint timer.valueint temp.valueint 0])

/-- The dish a `SET` request cooks, as far as `cook_history` builds it from the
request: dish name, steps, cavity.  The inner `none` is its `goto fail`. -/
def cookDish (root : CJson) : Option (Option (CStr × List CJson × Int)) :=
  if root.hasObjectItem (cstr "MultiStageContent") then do
    let dish ← cookMultiStage (← root.getObjectItem (cstr "MultiStageContent"))
    pure (some (dish.1, dish.2, 0))
  else if root.hasObjectItem (cstr "LStOvMode") ∧ root.hasObjectItem (cstr "LStOvSetTimer") ∧
      root.hasObjectItem (cstr "LStOvSetTemp") then do
    let mode ← root.getObjectItem (cstr "LStOvMode")
    let dish ← cookSingle (leftWorkModeFun mode.valueint) mode
      (← root.getObjectItem (cstr "LStOvSetTimer")) (← root.getObjectItem (cstr "LStOvSetTemp"))
    pure (some (dish.1, dish.2, 0))
  else if root.hasObjectItem (cstr "RStOvMode") ∧ root.hasObjectItem (cstr "RStOvSetTimer") ∧
      root.hasObjectItem (cstr "RStOvSetTemp") then do
    let dish ← cookSingle (cstr "便捷蒸") (← root.getObjectItem (cstr "RStOvMode"))
      (← root.getObjectItem (cstr "RStOvSetTimer")) (← root.getObjectItem (cstr "RStOvSetTemp"))
    pure (some (dish.1, dish.2, 1))
  else pure none

def dishRecord (dish : CStr × List CJson × Int) : Option History := do
  let cookSteps ← strcpy cookStepsSize (some (CJson.array dish.2.1).printUnformatted)
  pure { History.zero with dishName := dish.1, cookSteps := cookSteps, cookPos := dish.2.2 }

/-- The record `cook_history` hands to `insertHistory`, if it hands one over. -/
def cookHistoryRecord (recipe : RecipeTable) (root : CJson) : Option (Option History) :=
  if root.hasObjectItem (cstr "CookbookName") ∧ root.hasObjectItem (cstr "CookbookParam") then do
    let name ← (← root.getObjectItem (cstr "CookbookName")).valuestring
    match selectDishnameFromTable name recipe.toTable with
    | some row => pure (some row)
    | none =>
        let dish ← cookMultiStage (← root.getObjectItem (cstr "CookbookParam"))
        return some (← dishRecord (dish.1, dish.2, 0))
  else do
    match ← cookDish root with
    | none => pure none
    | some dish => return some (← dishRecord dish)

def cookHistory (root : CJson) (now rowid : Int) (s : HistoryState) : Option HistoryState := do
  match ← cookHistoryRecord s.recipe root with
  | none => pure s
  | some recipe => insertHistory { recipe with timestamp := now } now rowid s

def databaseHistroySelectCb (s : HistoryState) (recipe : History) : HistoryState :=
  { s with
    historyList := reportInsertHistory (some recipe) false s.historyList
    gHistorySeqid := if s.gHistorySeqid < recipe.seqid then recipe.seqid else s.gHistorySeqid }

/-- `database_task_init`, in a process just started. -/
def databaseTaskInit (history : Table) (recipe : RecipeTable) (out : List Report) :
    HistoryState :=
  let s := history.rows.foldl databaseHistroySelectCb
    { historyList := [], gHistorySeqid := 0, history := history, recipe := recipe, out := out }
  { s with historyList := reportInsertHistory none true s.historyList }

def databaseTaskReinit (s : HistoryState) : HistoryState :=
  { s with historyList := [], history := s.history.databseClearTable }

/-- The program is restarted: the tables stay, the rest is loaded again. -/
def restart (s : HistoryState) : HistoryState :=
  databaseTaskInit s.history s.recipe s.out

/-! ## Requests and reports -/

/-- `database_resp_set`: what one `SET` request does to the history, and the
members of its answer.  Of the table `g_database_set_attr` only
`UpdateHistory` and `DeleteHistory` are controls with an effect. -/
def databaseRespSet (root : CJson) (now rowid : Int) (s : HistoryState) :
    Option (HistoryState × List (CStr × CJson)) := do
  let s ← cookHistory root now rowid s
  let s ← match root.getObjectItem (cstr "UpdateHistory") with
    | some item => updateHistoryCb item s
    | none => pure s
  match root.getObjectItem (cstr "DeleteHistory") with
  | none => pure (s, [])
  | some item =>
      let answer := deleteHistoryCb item s
      pure (answer.1, (answer.2.map fun ids => (cstr "DeleteHistory", ids)).toList)

def wrapperHistroySelectCb (simple : Bool) (recipe : History) : CJson :=
  .object ([(cstr "id", .number recipe.id), (cstr "seqid", .number recipe.seqid),
    (cstr "dishName", .string recipe.dishName), (cstr "cookSteps", .string recipe.cookSteps),
    (cstr "collect", .number recipe.collect), (cstr "timestamp", .number recipe.timestamp),
    (cstr "cookType", .number recipe.cookType), (cstr "recipeType", .number recipe.recipeType),
    (cstr "cookPos", .number recipe.cookPos)] ++
    if simple then []
    else [(cstr "imgUrl", .string recipe.imgUrl), (cstr "details", .string recipe.details)])

/-- `wrapper_selectHistory`, into a new array. -/
def selectHistory (simple : Bool) (l : List History) : CJson :=
  .array (l.map (wrapperHistroySelectCb simple))

/-- The reportable attributes of `g_database_set_attr` and their callbacks. -/
def databaseReports (s : HistoryState) : List (CStr × CJson) :=
  [(cstr "CookRecipe", .array (s.recipe.rows.map fun r => .object (selectSeqidMembers r))),
    (cstr "CookHistory", selectHistory false s.historyList),
    (cstr "CookHistorySimple", .string (selectHistory true s.historyList).printUnformatted)]

def databaseRespGet (root : CJson) (s : HistoryState) : List (CStr × CJson) :=
  (databaseReports s).filter fun m => root.hasObjectItem m.1

/-! ## The machine -/

inductive HistoryCmd where
  /-- a cook command: the request, the time, the id SQLite picks if a row is inserted -/
  | cook (root : CJson) (now rowid : Int)
  | update (item : CJson)
  | delete (item : CJson)
  | reset
  | restart

/-- SQLite's promise for `AUTOINCREMENT`: no row has the id yet. -/
def freshRowid (s : HistoryState) (rowid : Int) : Prop :=
  0 < rowid ∧ ∀ r ∈ s.history.rows, r.id ≠ rowid

instance (s : HistoryState) (rowid : Int) : Decidable (freshRowid s rowid) :=
  inferInstanceAs (Decidable (_ ∧ _))

/-- `DeleteHistory` of a `SET` request: the callback, and the report of what
it answers. -/
def deleteAndReport (item : CJson) (s : HistoryState) : HistoryState :=
  let answer := deleteHistoryCb item s
  match answer.2 with
  | none => answer.1
  | some ids =>
      { answer.1 with
        out := reportMsgAllPlatform (.object [(cstr "DeleteHistory", ids)]) answer.1.out }

def historyMachine : Machine HistoryState HistoryCmd where
  step s
    | .cook root now rowid => if freshRowid s rowid then cookHistory root now rowid s else none
    | .update item => updateHistoryCb item s
    | .delete item => some (deleteAndReport item s)
    | .reset => some (databaseTaskReinit s)
    | .restart => some (restart s)

end X50
