/-
# `X50.HistoryFields` — what is written into a `recipes_t`

A dish is put together in a `recipes_t` on the stack: its name piece by piece, with
`sprintf` at the end of what is there, its steps as one `strcpy` of their JSON.  No
write asks for the size of its field, and the last `-` of a name is removed at
`strlen - 1`, also where the name is empty.

The model of `X50.History` stops where a write leaves its field.  Here the writes of
`cook_history` and `UpdateHistory_cb` are listed, up to a NULL that is dereferenced
(`CookDish.writes`), and `fields_fit_iff` says, in numbers of the request, when they
all stay inside.
-/
import X50.History

namespace X50

/-! ## Writes -/

/-- The texts of `recipes_t`. -/
inductive TextField where
  | dishName
  | imgUrl
  | details
  | cookSteps
deriving DecidableEq, Repr

def TextField.size : TextField → Nat
  | .dishName => dishNameSize
  | .imgUrl => imgUrlSize
  | .details => detailsSize
  | .cookSteps => cookStepsSize

/-- A write meant for `field`: `length` bytes, from `start` on. -/
structure FieldWrite where
  field : TextField
  start : Int
  length : Nat
deriving DecidableEq, Repr

def FieldWrite.Inside (w : FieldWrite) : Prop :=
  0 ≤ w.start ∧ w.start + w.length ≤ w.field.size

instance : DecidablePred FieldWrite.Inside := fun _ => inferInstanceAs (Decidable (_ ∧ _))

/-- `strcpy(recipe.field, s)`, and `sprintf` to its start: the terminator as well. -/
def strcpyWrite (field : TextField) (s : CStr) : FieldWrite := ⟨field, 0, s.length + 1⟩

/-- The three numbers of a stage. -/
structure StageNumbers where
  mode : Int
  time : Int
  temp : Int
deriving DecidableEq, Repr

/-- What `cook_history` reads of a stage, if nothing is missing. -/
def stageNumbers (arraySub : CJson) : Option StageNumbers := do
  let mode ← arraySub.getObjectItem (cstr "Mode")
  let temp ← arraySub.getObjectItem (cstr "Temp")
  let timer ← arraySub.getObjectItem (cstr "Timer")
  pure ⟨mode.valueint, timer.valueint, temp.valueint⟩

/-- The stages that are read: those in front of the first with something missing. -/
def readStages : List CJson → List StageNumbers
  | [] => []
  | arraySub :: rest =>
      match stageNumbers arraySub with
      | none => []
      | some numbers => numbers :: readStages rest

/-- `sprintf(&recipe.dishName[strlen(recipe.dishName)], "%s-", ...)` for each stage; the
name is `off` bytes long so far. -/
def nameWrites (off : Nat) : List StageNumbers → List FieldWrite
  | [] => []
  | numbers :: rest =>
      ⟨.dishName, off, (leftWorkModeFun numbers.mode).length + 2⟩ ::
        nameWrites (off + (leftWorkModeFun numbers.mode).length + 1) rest

/-- The length of the name behind these stages. -/
def nameLength (stages : List StageNumbers) : Nat :=
  (stages.map fun numbers => (leftWorkModeFun numbers.mode).length + 1).sum

/-- The steps of these stages, the first of which has index `i`. -/
def stageSteps (i : Nat) : List StageNumbers → List CJson
  | [] => []
  | numbers :: rest =>
      cookStep numbers.mode numbers.time numbers.temp (i + 1) :: stageSteps (i + 1) rest

/-- The dish a SET request cooks. -/
inductive CookDish where
  /-- a row of the `recipe` table -/
  | recipe (row : History)
  /-- stage by stage -/
  | stages (arrayItem : List CJson)
  /-- in one cavity, under this mode name -/
  | single (name : CStr) (numbers : StageNumbers)
  /-- none, or NULL is dereferenced before anything is written -/
  | nothing

/-- What the source asks a request for, and in which order. -/
def cookDishOf (recipe : RecipeTable) (root : CJson) : CookDish :=
  let children (name : String) := ((root.getObjectItem (cstr name)).map CJson.children).getD []
  let number (name : String) := ((root.getObjectItem (cstr name)).map CJson.valueint).getD 0
  if root.hasObjectItem (cstr "CookbookName") ∧ root.hasObjectItem (cstr "CookbookParam") then
    match (root.getObjectItem (cstr "CookbookName")).bind CJson.valuestring with
    | none => .nothing
    | some name =>
        match selectDishnameFromTable name recipe.toTable with
        | some row => .recipe row
        | none => .stages (children "CookbookParam")
  else if root.hasObjectItem (cstr "MultiStageContent") then .stages (children "MultiStageContent")
  else if root.hasObjectItem (cstr "LStOvMode") ∧ root.hasObjectItem (cstr "LStOvSetTimer") ∧
      root.hasObjectItem (cstr "LStOvSetTemp") then
    .single (leftWorkModeFun (number "LStOvMode"))
      ⟨number "LStOvMode", number "LStOvSetTimer", number "LStOvSetTemp"⟩
  else if root.hasObjectItem (cstr "RStOvMode") ∧ root.hasObjectItem (cstr "RStOvSetTimer") ∧
      root.hasObjectItem (cstr "RStOvSetTemp") then
    .single (cstr "便捷蒸") ⟨number "RStOvMode", number "RStOvSetTimer", number "RStOvSetTemp"⟩
  else .nothing

/-- The writes of `cook_history` into its record. -/
def CookDish.writes : CookDish → List FieldWrite
  | .recipe row =>
      [strcpyWrite .dishName row.dishName, strcpyWrite .imgUrl row.imgUrl,
        strcpyWrite .details row.details, strcpyWrite .cookSteps row.cookSteps]
  | .stages arrayItem =>
      let read := readStages arrayItem
      nameWrites 0 read ++
        if read.length = arrayItem.length then
          -- `recipe.dishName[strlen(recipe.dishName) - 1] = 0`
          [⟨.dishName, (nameLength read : Int) - 1, 1⟩,
            strcpyWrite .cookSteps (CJson.array (stageSteps 0 read)).printUnformatted]
        else []
  | .single name numbers =>
      [strcpyWrite .dishName (name ++ cstr "-" ++ decimal numbers.temp ++ cstr "℃-" ++
          decimal numbers.time ++ cstr "分钟"),
        strcpyWrite .cookSteps
          (CJson.array [cookStep numbers.mode numbers.time numbers.temp 0]).printUnformatted]
  | .nothing => []

/-- The writes of `UpdateHistory_cb` into its record. -/
def updateHistoryWrites (item : CJson) : List FieldWrite :=
  if item.hasObjectItem (cstr "id") then
    match (item.getObjectItem (cstr "dishName")).bind CJson.valuestring with
    | none => []
    | some dishName => [strcpyWrite .dishName dishName]
  else []

/-! ## Conditions -/

/-- The characters of a number. -/
def digits (n : Int) : Nat := (decimal n).length

/-- The characters of a step, and of the comma or bracket behind it. -/
def stepLength (numbers : StageNumbers) (number : Int) : Nat :=
  36 + digits numbers.mode + digits numbers.time + digits numbers.temp + digits number

/-- The characters of these steps, the first of which has index `i`. -/
def stepsLength (i : Nat) : List StageNumbers → Nat
  | [] => 0
  | numbers :: rest => stepLength numbers (i + 1) + stepsLength (i + 1) rest

/-- The dish fits the record. -/
def CookDish.Fits : CookDish → Prop
  | .recipe row =>
      row.dishName.length < 48 ∧ row.imgUrl.length < 80 ∧ row.details.length < 960 ∧
        row.cookSteps.length < 180
  | .stages arrayItem =>
      nameLength (readStages arrayItem) < 48 ∧
        ((readStages arrayItem).length = arrayItem.length →
          arrayItem ≠ [] ∧ 1 + stepsLength 0 (readStages arrayItem) < 180)
  | .single name numbers =>
      name.length + digits numbers.temp + digits numbers.time + 11 < 48 ∧
        1 + stepLength numbers 0 < 180
  | .nothing => True

/-- The request has a name that fits, if it has one. -/
def UpdateFits (item : CJson) : Prop :=
  item.hasObjectItem (cstr "id") = true →
    ∀ dishName ∈ (item.getObjectItem (cstr "dishName")).bind CJson.valuestring,
      dishName.length < 48

/-! ## The length of the steps -/

theorem length_cookStep (mode time temp number : Int) :
    (cookStep mode time temp number).printUnformatted.length =
      35 + digits mode + digits time + digits temp + digits number := by
  have hmode : (CJson.printString (cstr "mode")).length = 6 := by decide
  have htime : (CJson.printString (cstr "time")).length = 6 := by decide
  have htemp : (CJson.printString (cstr "temp")).length = 6 := by decide
  have hnumber : (CJson.printString (cstr "number")).length = 8 := by decide
  have hone : (cstr "\x7b").length = 1 ∧ (cstr "\x7d").length = 1 ∧ (cstr ":").length = 1 ∧
      (cstr ",").length = 1 := by decide
  simp only [cookStep, CJson.printUnformatted, CJson.printMembers, List.length_append, hmode, htime,
    htemp, hnumber, hone, digits]
  omega

/-- Each item has one character behind it, the last one the bracket. -/
theorem length_printItems {item : CJson} {items : List CJson} :
    (CJson.printItems (item :: items)).length + 1 =
      ((item :: items).map fun item => item.printUnformatted.length + 1).sum := by
  have hcomma : (cstr ",").length = 1 := by decide
  induction items generalizing item with
  | nil => simp [CJson.printItems]
  | cons next items ih =>
      rw [CJson.printItems, List.length_append, List.length_append, hcomma, Nat.add_assoc, ih,
        List.map_cons, List.sum_cons]
      · simp
      · exact List.cons_ne_nil _ _

theorem sum_stageSteps {i : Nat} {stages : List StageNumbers} :
    ((stageSteps i stages).map fun item => item.printUnformatted.length + 1).sum =
      stepsLength i stages := by
  induction stages generalizing i with
  | nil => rfl
  | cons numbers rest ih =>
      simp only [stageSteps, stepsLength, List.map_cons, List.sum_cons, ih, length_cookStep,
        stepLength]
      omega

/-- The JSON of the steps of a dish. -/
theorem length_stageSteps {stages : List StageNumbers} (h : stages ≠ []) :
    (CJson.array (stageSteps 0 stages)).printUnformatted.length = 1 + stepsLength 0 stages := by
  obtain ⟨numbers, rest, rfl⟩ := List.exists_cons_of_ne_nil h
  have hopen : (cstr "[").length = 1 ∧ (cstr "]").length = 1 := by decide
  rw [← sum_stageSteps, stageSteps, ← length_printItems, CJson.printUnformatted, List.length_append,
    List.length_append, hopen.1, hopen.2]
  omega

/-! ## The writes stay inside -/

theorem strcpyWrite_inside {field : TextField} {s : CStr} :
    (strcpyWrite field s).Inside ↔ s.length < field.size := by
  unfold strcpyWrite FieldWrite.Inside
  constructor
  · rintro ⟨-, h⟩
    push_cast at h
    omega
  · intro h
    refine ⟨Int.le_refl 0, ?_⟩
    push_cast
    omega

/-- The pieces of a name stay inside exactly when the whole does. -/
theorem nameWrites_inside {off : Nat} {stages : List StageNumbers} (hoff : off < 48) :
    (∀ w ∈ nameWrites off stages, w.Inside) ↔ off + nameLength stages < 48 := by
  induction stages generalizing off with
  | nil => simp [nameWrites, nameLength, hoff]
  | cons numbers rest ih =>
      have hpiece : (FieldWrite.mk .dishName off
          ((leftWorkModeFun numbers.mode).length + 2)).Inside ↔
          off + (leftWorkModeFun numbers.mode).length + 1 < 48 := by
        unfold FieldWrite.Inside TextField.size dishNameSize
        push_cast
        omega
      have hlen : nameLength (numbers :: rest) =
          (leftWorkModeFun numbers.mode).length + 1 + nameLength rest := by
        simp [nameLength]
      rw [nameWrites, List.forall_mem_cons, hpiece, hlen]
      by_cases hin : off + (leftWorkModeFun numbers.mode).length + 1 < 48
      · rw [ih hin, and_iff_right hin]
        omega
      · exact iff_of_false (fun h => hin h.1) (by omega)

theorem readStages_nil_iff {arrayItem : List CJson}
    (h : (readStages arrayItem).length = arrayItem.length) :
    readStages arrayItem = [] ↔ arrayItem = [] := by
  rw [← List.length_eq_zero_iff, h, List.length_eq_zero_iff]

theorem stages_inside_iff {arrayItem : List CJson} :
    (∀ w ∈ (CookDish.stages arrayItem).writes, w.Inside) ↔ (CookDish.stages arrayItem).Fits := by
  unfold CookDish.writes CookDish.Fits
  dsimp only
  rw [List.forall_mem_append, nameWrites_inside (by decide), Nat.zero_add]
  refine and_congr_right fun hname => ?_
  by_cases hread : (readStages arrayItem).length = arrayItem.length
  · rw [if_pos hread]
    simp only [hread, forall_const, List.forall_mem_cons, List.not_mem_nil, false_implies,
      implies_true, and_true, strcpyWrite_inside]
    by_cases hnil : arrayItem = []
    · -- nothing is in front of the name
      have hread' := (readStages_nil_iff hread).mpr hnil
      refine iff_of_false (fun h => ?_) (fun h => h.1 hnil)
      have := h.1.1
      rw [hread'] at this
      exact absurd this (by decide)
    · have hne : readStages arrayItem ≠ [] := fun h => hnil ((readStages_nil_iff hread).mp h)
      have hpos : 0 < nameLength (readStages arrayItem) := by
        obtain ⟨numbers, rest, hcons⟩ := List.exists_cons_of_ne_nil hne
        simp only [hcons, nameLength, List.map_cons, List.sum_cons]
        omega
      rw [length_stageSteps hne]
      have htrim : (FieldWrite.mk .dishName ((nameLength (readStages arrayItem) : Int) - 1)
          1).Inside := by
        unfold FieldWrite.Inside TextField.size dishNameSize
        push_cast
        omega
      rw [and_iff_right htrim, and_iff_right hnil]
      rfl
  · rw [if_neg hread]
    simp [hread]

theorem single_inside_iff {name : CStr} {numbers : StageNumbers} :
    (∀ w ∈ (CookDish.single name numbers).writes, w.Inside) ↔
      (CookDish.single name numbers).Fits := by
  have hpieces : (cstr "-").length = 1 ∧ (cstr "℃-").length = 4 ∧ (cstr "分钟").length = 6 := by
    decide
  have hsteps : (CJson.array [cookStep numbers.mode numbers.time numbers.temp
      0]).printUnformatted.length = 1 + stepLength numbers 0 := by
    have hopen : (cstr "[").length = 1 ∧ (cstr "]").length = 1 := by decide
    simp only [CJson.printUnformatted, CJson.printItems, List.length_append, hopen]
    rw [length_cookStep, stepLength]
    omega
  unfold CookDish.writes CookDish.Fits
  simp only [List.forall_mem_cons, List.not_mem_nil, false_implies, implies_true, and_true,
    strcpyWrite_inside, hsteps, List.length_append, hpieces, TextField.size, dishNameSize,
    cookStepsSize, digits]
  refine and_congr_left fun _ => ?_
  omega

/-- The writes of `cook_history` stay inside exactly when the dish fits. -/
theorem CookDish.inside_iff (dish : CookDish) : (∀ w ∈ dish.writes, w.Inside) ↔ dish.Fits := by
  cases dish with
  | recipe row =>
      unfold CookDish.writes CookDish.Fits
      simp only [List.forall_mem_cons, List.not_mem_nil, false_implies, implies_true, and_true,
        strcpyWrite_inside]
      rfl
  | stages arrayItem => exact stages_inside_iff
  | single name numbers => exact single_inside_iff
  | nothing => exact iff_of_true (fun w hw => absurd hw List.not_mem_nil) trivial

theorem update_inside_iff {item : CJson} :
    (∀ w ∈ updateHistoryWrites item, w.Inside) ↔ UpdateFits item := by
  unfold updateHistoryWrites UpdateFits
  by_cases hid : item.hasObjectItem (cstr "id") = true
  · rw [if_pos hid]
    cases (item.getObjectItem (cstr "dishName")).bind CJson.valuestring with
    | none => simp
    | some dishName =>
        simp only [List.mem_singleton, forall_eq, strcpyWrite_inside, hid, forall_const,
          Option.mem_some_iff, forall_eq']
        rfl
  · simp [hid]

/-! ## The writes of the model -/

/-- Where the stage loop of the model has a result, it has read all stages and put their
names and steps behind those it had. -/
theorem cookStages_read {i : Nat} {dishName : CStr} {cookSteps : List CJson}
    {arrayItem : List CJson} {out : CStr × List CJson}
    (h : cookStages i dishName cookSteps arrayItem = some out) :
    (readStages arrayItem).length = arrayItem.length ∧
      out.1.length = dishName.length + nameLength (readStages arrayItem) ∧
      (arrayItem ≠ [] → out.1.length < 48) ∧
      out.2 = cookSteps ++ stageSteps i (readStages arrayItem) := by
  induction arrayItem generalizing i dishName cookSteps with
  | nil =>
      obtain rfl := Option.some.inj h
      simp [readStages, nameLength, stageSteps]
  | cons arraySub rest ih =>
      obtain ⟨mode, hmode, h⟩ := Option.bind_eq_some_iff.mp h
      obtain ⟨temp, htemp, h⟩ := Option.bind_eq_some_iff.mp h
      obtain ⟨timer, htimer, h⟩ := Option.bind_eq_some_iff.mp h
      obtain ⟨longer, hlonger, h⟩ := Option.bind_eq_some_iff.mp h
      obtain ⟨hname, hfits⟩ := strcpy_eq_some.mp hlonger
      obtain rfl := Option.some.inj hname
      obtain ⟨hread, hlen, hshort, hsteps⟩ := ih h
      have hone : (cstr "-").length = 1 := by decide
      have hnumbers : stageNumbers arraySub =
          some ⟨mode.valueint, timer.valueint, temp.valueint⟩ := by
        simp [stageNumbers, hmode, htemp, htimer]
      simp only [readStages, hnumbers, List.length_cons, hread, nameLength, List.map_cons,
        List.sum_cons, stageSteps, true_and]
      refine ⟨?_, fun _ => ?_, ?_⟩
      · rw [hlen]
        simp only [List.length_append, hone, nameLength]
        omega
      · cases rest with
        | nil =>
            obtain rfl := Option.some.inj h
            exact hfits
        | cons next rest => exact hshort (List.cons_ne_nil _ _)
      · rw [hsteps, List.append_assoc]
        rfl

theorem dishRecord_fits {dishName : CStr} {cookSteps : List CJson} {cookPos : Int} {r : History}
    (h : dishRecord (dishName, cookSteps, cookPos) = some r) :
    (CJson.array cookSteps).printUnformatted.length < 180 := by
  obtain ⟨steps, hsteps, -⟩ := Option.bind_eq_some_iff.mp h
  obtain ⟨hsame, hlt⟩ := strcpy_eq_some.mp hsteps
  rwa [Option.some.inj hsame]

theorem multiStage_fits {item : CJson} {dish : CStr × List CJson} {cookPos : Int} {r : History}
    (h : cookMultiStage item = some dish) (hr : dishRecord (dish.1, dish.2, cookPos) = some r) :
    (CookDish.stages item.children).Fits := by
  obtain ⟨⟨name, steps⟩, hstages, h⟩ := Option.bind_eq_some_iff.mp h
  obtain ⟨hread, hlen, hshort, hsteps⟩ := cookStages_read hstages
  dsimp only at h
  split at h
  · cases h
  · rename_i hne
    obtain rfl := Option.some.inj h
    simp only [List.length_nil, Nat.zero_add, List.nil_append] at hlen hsteps
    have hsome : item.children ≠ [] := by
      intro hnil
      have hread' := (readStages_nil_iff hread).mpr hnil
      rw [hread'] at hlen
      exact hne (List.eq_nil_of_length_eq_zero hlen)
    have hlt := dishRecord_fits hr
    subst hsteps
    rw [length_stageSteps fun h => hsome ((readStages_nil_iff hread).mp h)] at hlt
    exact ⟨hlen ▸ hshort hsome, fun _ => ⟨hsome, hlt⟩⟩

theorem single_fits {name : CStr} {mode timer temp : CJson} {dish : CStr × List CJson}
    {cookPos : Int} {r : History} (h : cookSingle name mode timer temp = some dish)
    (hr : dishRecord (dish.1, dish.2, cookPos) = some r) :
    (CookDish.single name ⟨mode.valueint, timer.valueint, temp.valueint⟩).Fits := by
  obtain ⟨text, htext, h⟩ := Option.bind_eq_some_iff.mp h
  obtain rfl := Option.some.inj h
  obtain ⟨hsame, hlt⟩ := strcpy_eq_some.mp htext
  refine single_inside_iff.mp ?_
  simp only [CookDish.writes, List.forall_mem_cons, List.not_mem_nil, false_implies, implies_true,
    and_true, strcpyWrite_inside]
  exact ⟨Option.some.inj hsame ▸ hlt, dishRecord_fits hr⟩

/-- One cavity, with the items of the request. -/
theorem singleItems_fits {root : CJson} {name : Int → CStr} {mode timer temp : CStr}
    {cookPos : Int} {out : Option (CStr × List CJson × Int)}
    (hrecord : ∀ dish, out = some dish → ∃ r, dishRecord dish = some r)
    (h : ((root.getObjectItem mode).bind fun m => (root.getObjectItem timer).bind fun t =>
      (root.getObjectItem temp).bind fun c => (cookSingle (name m.valueint) m t c).bind fun dish =>
        some (some (dish.1, dish.2, cookPos))) = some out) :
    (CookDish.single (name (((root.getObjectItem mode).map CJson.valueint).getD 0))
      ⟨((root.getObjectItem mode).map CJson.valueint).getD 0,
        ((root.getObjectItem timer).map CJson.valueint).getD 0,
        ((root.getObjectItem temp).map CJson.valueint).getD 0⟩).Fits := by
  obtain ⟨m, hm, h⟩ := Option.bind_eq_some_iff.mp h
  obtain ⟨t, ht, h⟩ := Option.bind_eq_some_iff.mp h
  obtain ⟨c, hc, h⟩ := Option.bind_eq_some_iff.mp h
  obtain ⟨made, hmade, h⟩ := Option.bind_eq_some_iff.mp h
  obtain rfl := Option.some.inj h
  obtain ⟨r, hr⟩ := hrecord _ rfl
  simp only [hm, ht, hc, Option.map_some, Option.getD_some]
  exact single_fits hmade hr

/-- **Where the model of `cook_history` has a record, nothing was written outside of it**;
only a row of the `recipe` table is taken as it is. -/
theorem cookHistoryRecord_fits {recipe : RecipeTable} {root : CJson} {out : Option History}
    (h : cookHistoryRecord recipe root = some out) :
    (∃ row, cookDishOf recipe root = .recipe row) ∨ (cookDishOf recipe root).Fits := by
  unfold cookHistoryRecord at h
  unfold cookDishOf
  split at h
  · rename_i hname
    rw [if_pos hname]
    obtain ⟨item, hitem, h⟩ := Option.bind_eq_some_iff.mp h
    obtain ⟨name, hstr, h⟩ := Option.bind_eq_some_iff.mp h
    simp only [hitem, Option.bind_some, hstr]
    cases hrow : selectDishnameFromTable name recipe.toTable with
    | some row => exact Or.inl ⟨row, rfl⟩
    | none =>
        rw [hrow] at h
        obtain ⟨stages, hstages, h⟩ := Option.bind_eq_some_iff.mp h
        obtain ⟨dish, hdish, h⟩ := Option.bind_eq_some_iff.mp h
        obtain ⟨r, hr, h⟩ := Option.bind_eq_some_iff.mp h
        simp only [hstages, Option.map_some, Option.getD_some]
        exact Or.inr (multiStage_fits hdish hr)
  · rename_i hname
    rw [if_neg hname]
    refine Or.inr ?_
    obtain ⟨dish, hdish, h⟩ := Option.bind_eq_some_iff.mp h
    have hrecord : ∀ d, dish = some d → ∃ r, dishRecord d = some r := by
      rintro d rfl
      obtain ⟨r, hr, -⟩ := Option.bind_eq_some_iff.mp h
      exact ⟨r, hr⟩
    unfold cookDish at hdish
    split at hdish
    · rename_i hmulti
      rw [if_pos hmulti]
      obtain ⟨item, hitem, hdish⟩ := Option.bind_eq_some_iff.mp hdish
      obtain ⟨made, hmade, hdish⟩ := Option.bind_eq_some_iff.mp hdish
      obtain rfl := Option.some.inj hdish
      obtain ⟨r, hr⟩ := hrecord _ rfl
      simp only [hitem, Option.map_some, Option.getD_some]
      exact multiStage_fits hmade hr
    · rename_i hmulti
      rw [if_neg hmulti]
      split at hdish
      · rename_i hleft
        rw [if_pos hleft]
        exact singleItems_fits hrecord hdish
      · rename_i hleft
        rw [if_neg hleft]
        split at hdish
        · rename_i hright
          rw [if_pos hright]
          exact @singleItems_fits root (fun _ => cstr "便捷蒸") _ _ _ _ _ hrecord hdish
        · rename_i hright
          rw [if_neg hright]
          trivial

/-- Every write into the record of `cook_history` stays inside its field exactly when the
dish fits: its name is below 48 bytes, its steps below 180, and it has a stage.  And
every write of `UpdateHistory_cb` does exactly when the name it is given is below 48
bytes. -/
theorem fields_fit_iff (recipe : RecipeTable) (root item : CJson) :
    ((∀ w ∈ (cookDishOf recipe root).writes, w.Inside) ↔ (cookDishOf recipe root).Fits) ∧
      ((∀ w ∈ updateHistoryWrites item, w.Inside) ↔ UpdateFits item) :=
  ⟨CookDish.inside_iff _, update_inside_iff⟩

/-! ## Dishes that do not fit -/

/-- A dish of `n` stages of hot air. -/
def hotAirRequest (n : Nat) : CJson :=
  .object [(cstr "MultiStageContent", .array (List.replicate n
    (.object [(cstr "Mode", .number 35), (cstr "Temp", .number 100), (cstr "Timer", .number 20)])))]

/-- A dish without a stage is written in front of its name, the fourth stage of hot air
behind it, and a name of 64 bytes is copied into 48. -/
theorem fields_do_not_fit :
    (cookDishOf noRecipes (hotAirRequest 0)).writes =
        [⟨.dishName, -1, 1⟩, ⟨.cookSteps, 0, 3⟩] ∧
      ¬ (∀ w ∈ (cookDishOf noRecipes (hotAirRequest 0)).writes, w.Inside) ∧
      ¬ (∀ w ∈ (cookDishOf noRecipes (hotAirRequest 4)).writes, w.Inside) ∧
      ¬ (∀ w ∈ updateHistoryWrites (.object [(cstr "id", .number 1),
          (cstr "dishName", .string (List.replicate 64 65))]), w.Inside) := by
  refine ⟨by decide +kernel, ?_, ?_, ?_⟩ <;> decide +kernel

end X50
