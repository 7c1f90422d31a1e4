/-
# `X50.Recipes` — the recipes, across restarts and updates

`database_init` creates the table `recipe` and, where there was none, writes the recipes
of `Recipes.json` into it, one `INSERT OR REPLACE` after the other.  An update installs
its files, drops the table and reboots.

    boot      `database_init`; `cut` is after how many rows the power failed, if it did
    ota       the files of an update, `databse_ota_complete_cb_cb`, and what follows a reboot
    otaCut    the files only: the power fails before the table is dropped

A start that finds the table does not look at it, so what is in it is for ever what the
first start behind the last drop wrote, cut or not, and from whatever file was there then
(`recipes_loaded`).  The loop keeps its struct from item to item; `recipeRecord` says what
each row is without it.
-/
import X50.Quad

namespace X50

open X50.Lib

/-! ## The functions -/

/-- The items `recipes_parse_json` goes through; none where it gives up before its loop. -/
def recipesItems (strtod : Strtod) (str : CStr) : List CJson :=
  match CJson.parse strtod str with
  | none => []
  | some root =>
      match root.getObjectItem (cstr "RecipesVersion"), root.getObjectItem (cstr "recipes") with
      | some _, some attr => attr.children
      | _, _ => []

/-- Its loop, on a table just created. -/
def recipesLoop (items : List CJson) : Option Table :=
  (items.foldlM recipesParseItem (History.zero, Table.empty, 0)).map (·.2.1)

/-- `Recipes.json` and the table `recipe`, if there is one. -/
structure RecipeDisk where
  file : Option (List UInt8)
  table : Option Table

inductive RecipeAct where
  | boot (heap : List UInt8) (cut : Option Nat)
  | ota (file : Option (List UInt8))
  | otaCut (file : Option (List UInt8))

/-- The items whose rows a start writes where it has to. -/
def RecipeDisk.loads (strtod : Strtod) (s : RecipeDisk) (heap : List UInt8) (cut : Option Nat) :
    List CJson :=
  let items := ((getDevProfile s.file heap).map (recipesItems strtod)).getD []
  match cut with
  | none => items
  | some inserted => items.take inserted

def RecipeDisk.step (strtod : Strtod) (s : RecipeDisk) : RecipeAct → Option RecipeDisk
  | .boot heap cut =>
      match s.table with
      | some _ => some s
      | none => (recipesLoop (s.loads strtod heap cut)).map fun t => { s with table := some t }
  | .ota file => some { file := file, table := none }
  | .otaCut file => some { s with file := file }

def recipeMachine (strtod : Strtod) : Machine RecipeDisk RecipeAct := ⟨RecipeDisk.step strtod⟩

/-! ## The rows -/

/-- The `seqid` an item is stored under: its own, or that of the last item before it that
has one. -/
def recipeSeqid (items : List CJson) : Int :=
  ((items.filterMap (·.getObjectItem (cstr "seqid"))).getLast?.map CJson.valueint).getD 0

/-- A text of an item. -/
def CJson.textOf (name : CStr) (item : CJson) : CStr :=
  ((item.getObjectItem name).bind valuestring).getD []

/-- A number of an item. -/
def CJson.intOf (name : CStr) (item : CJson) : Int :=
  ((item.getObjectItem name).map valueint).getD 0

/-- The row of an item, behind the items before it. -/
def recipeRecord (before : List CJson) (item : CJson) : History where
  id := before.length + 1
  seqid := recipeSeqid (before ++ [item])
  dishName := item.textOf (cstr "dishName")
  imgUrl := item.textOf (cstr "imgUrl")
  details := item.textOf (cstr "details")
  cookSteps := item.textOf (cstr "cookSteps")
  timestamp := 0
  collect := 0
  cookType := item.intOf (cstr "cookType")
  recipeType := item.intOf (cstr "recipeType")
  cookPos := item.intOf (cstr "cookPos")

def recipeRecords (items : List CJson) : List History :=
  items.mapIdx fun i item => recipeRecord (items.take i) item

/-- What is left of them: of the rows with one `seqid`, the last. -/
def keptRecipes (items : List CJson) : List History :=
  (recipeRecords items).pwFilter fun r r' => r.seqid ≠ r'.seqid

/-- A text that is there and fits into its array. -/
def CJson.HasText (name : CStr) (size : Nat) (item : CJson) : Prop :=
  ∃ s, (item.getObjectItem name).bind valuestring = some s ∧ s.length < size

/-- The loop can copy the item. -/
structure CJson.Copies (item : CJson) : Prop where
  dishName : item.HasText (cstr "dishName") dishNameSize
  imgUrl : item.HasText (cstr "imgUrl") imgUrlSize
  cookSteps : item.HasText (cstr "cookSteps") cookStepsSize
  details : item.HasText (cstr "details") detailsSize
  cookType : item.hasObjectItem (cstr "cookType")
  recipeType : item.hasObjectItem (cstr "recipeType")
  cookPos : item.hasObjectItem (cstr "cookPos")

/-! ## The loop -/

section

variable {items before : List CJson} {item : CJson}

theorem recipeRecords_concat :
    recipeRecords (before ++ [item]) = recipeRecords before ++ [recipeRecord before item] := by
  simp only [recipeRecords, List.mapIdx_concat, List.take_left]
  congr 1
  refine List.ext_getElem (by simp) fun i hi _ => ?_
  have hlt : i < before.length := by simpa using hi
  rw [List.getElem_mapIdx, List.getElem_mapIdx, List.take_append_of_le_length hlt.le]

theorem keptRecipes_concat :
    keptRecipes (before ++ [item]) =
      upsert (·.seqid) (keptRecipes before) (recipeRecord before item) := by
  rw [keptRecipes, recipeRecords_concat, pwFilter_concat]
  rfl

theorem id_of_mem_recipeRecords {r : History} (hr : r ∈ recipeRecords items) :
    0 < r.id ∧ r.id ≤ items.length := by
  obtain ⟨i, hi, rfl⟩ := List.mem_mapIdx.mp hr
  simp only [recipeRecord, List.length_take]
  omega

theorem recipeSeqid_concat :
    recipeSeqid (before ++ [item]) =
      match item.getObjectItem (cstr "seqid") with
      | some seqid => seqid.valueint
      | none => recipeSeqid before := by
  cases h : item.getObjectItem (cstr "seqid") with
  | some seqid => simp [recipeSeqid, h]
  | none => simp [recipeSeqid, h]

/-- A text is copied if it is there and fits. -/
theorem exists_strcpy_iff {name : CStr} {size : Nat} {s : CStr} :
    (∃ text, item.getObjectItem name = some text ∧ strcpy size text.valuestring = some s) ↔
      item.HasText name size ∧ s = item.textOf name := by
  constructor
  · rintro ⟨text, htext, hcopy⟩
    obtain ⟨hs, hlen⟩ := strcpy_eq_some.mp hcopy
    have hbind : (item.getObjectItem name).bind CJson.valuestring = some s := by
      rw [htext, Option.bind_some, hs]
    exact ⟨⟨s, hbind, hlen⟩, by rw [CJson.textOf, hbind]; rfl⟩
  · rintro ⟨⟨text, hbind, hlen⟩, rfl⟩
    obtain ⟨child, hchild, hs⟩ := Option.bind_eq_some_iff.mp hbind
    refine ⟨child, hchild, ?_⟩
    rw [CJson.textOf, hbind]
    exact strcpy_eq_some.mpr ⟨hs, hlen⟩

theorem valueint_eq {name : CStr} {child : CJson} (h : item.getObjectItem name = some child) :
    child.valueint = item.intOf name := by
  rw [CJson.intOf, h]
  rfl

/-- The struct of the loop, with the fields of an item. -/
def recipesCopy (recipes : History) (item : CJson) : History :=
  { recipes with
    seqid :=
      match item.getObjectItem (cstr "seqid") with
      | some seqid => seqid.valueint
      | none => recipes.seqid
    dishName := item.textOf (cstr "dishName")
    imgUrl := item.textOf (cstr "imgUrl")
    details := item.textOf (cstr "details")
    cookSteps := item.textOf (cstr "cookSteps")
    cookType := item.intOf (cstr "cookType")
    recipeType := item.intOf (cstr "recipeType")
    cookPos := item.intOf (cstr "cookPos") }

theorem recipesParseItem_eq_some {recipes : History} {t : Table} {n : Nat}
    {st' : History × Table × Nat} :
    recipesParseItem (recipes, t, n) item = some st' ↔
      item.Copies ∧ ∃ t', insertReplaceRowToTable (recipesCopy recipes item) (n + 1) t = some t' ∧
        st' = (recipesCopy recipes item, t', n + 1) := by
  simp only [recipesParseItem, Option.bind_eq_bind, Option.bind_eq_some_iff, Option.pure_def,
    Option.some.injEq]
  constructor
  · rintro ⟨dishName, hdishName, s₁, hs₁, imgUrl, himgUrl, s₂, hs₂, cookSteps, hcookSteps, s₃, hs₃,
      details, hdetails, s₄, hs₄, cookType, hcookType, recipeType, hrecipeType, cookPos, hcookPos,
      t', ht', rfl⟩
    obtain ⟨h₁, rfl⟩ := exists_strcpy_iff.mp ⟨dishName, hdishName, hs₁⟩
    obtain ⟨h₂, rfl⟩ := exists_strcpy_iff.mp ⟨imgUrl, himgUrl, hs₂⟩
    obtain ⟨h₃, rfl⟩ := exists_strcpy_iff.mp ⟨cookSteps, hcookSteps, hs₃⟩
    obtain ⟨h₄, rfl⟩ := exists_strcpy_iff.mp ⟨details, hdetails, hs₄⟩
    rw [valueint_eq hcookType, valueint_eq hrecipeType, valueint_eq hcookPos] at ht' ⊢
    refine ⟨⟨h₁, h₂, h₃, h₄, ?_, ?_, ?_⟩, t', ht', rfl⟩
    · simp [CJson.hasObjectItem, hcookType]
    · simp [CJson.hasObjectItem, hrecipeType]
    · simp [CJson.hasObjectItem, hcookPos]
  · rintro ⟨⟨h₁, h₂, h₃, h₄, h₅, h₆, h₇⟩, t', ht', rfl⟩
    obtain ⟨dishName, hdishName, hs₁⟩ := exists_strcpy_iff.mpr ⟨h₁, rfl⟩
    obtain ⟨imgUrl, himgUrl, hs₂⟩ := exists_strcpy_iff.mpr ⟨h₂, rfl⟩
    obtain ⟨cookSteps, hcookSteps, hs₃⟩ := exists_strcpy_iff.mpr ⟨h₃, rfl⟩
    obtain ⟨details, hdetails, hs₄⟩ := exists_strcpy_iff.mpr ⟨h₄, rfl⟩
    obtain ⟨cookType, hcookType⟩ := Option.isSome_iff_exists.mp h₅
    obtain ⟨recipeType, hrecipeType⟩ := Option.isSome_iff_exists.mp h₆
    obtain ⟨cookPos, hcookPos⟩ := Option.isSome_iff_exists.mp h₇
    refine ⟨dishName, hdishName, _, hs₁, imgUrl, himgUrl, _, hs₂, cookSteps, hcookSteps, _, hs₃,
      details, hdetails, _, hs₄, cookType, hcookType, recipeType, hrecipeType, cookPos, hcookPos,
      t', ?_⟩
    rw [valueint_eq hcookType, valueint_eq hrecipeType, valueint_eq hcookPos]
    exact ⟨ht', rfl⟩

/-- The loop behind the items `before`. -/
structure Loaded (before : List CJson) (st : History × Table × Nat) : Prop where
  seqid : st.1.seqid = recipeSeqid before
  timestamp : st.1.timestamp = 0
  collect : st.1.collect = 0
  rows : st.2.1.rows = keptRecipes before
  inserted : st.2.2 = before.length

theorem loaded_nil : Loaded [] (History.zero, Table.empty, 0) := ⟨rfl, rfl, rfl, rfl, rfl⟩

/-- The row number is free. -/
theorem Loaded.free {st : History × Table × Nat} (h : Loaded before st) :
    ∀ r ∈ st.2.1.rows, r.id ≠ (st.2.2 : Int) + 1 := by
  intro r hr hid
  rw [h.rows] at hr
  have hle := (id_of_mem_recipeRecords (List.pwFilter_subset _ hr)).2
  rw [h.inserted] at hid
  omega

theorem Loaded.record {st : History × Table × Nat} (h : Loaded before st) (item : CJson) :
    { recipesCopy st.1 item with id := (st.2.2 : Int) + 1 } = recipeRecord before item := by
  rw [recipeRecord, recipeSeqid_concat, recipesCopy, h.timestamp, h.collect, h.inserted, h.seqid]

/-- One turn: it goes through if the item can be copied, and leaves its row. -/
theorem Loaded.turn {st : History × Table × Nat} (h : Loaded before st) (hitem : item.Copies) :
    ∃ st', recipesParseItem st item = some st' ∧ Loaded (before ++ [item]) st' := by
  obtain ⟨recipes, t, n⟩ := st
  have hfree : (0 : Int) < n + 1 ∧ ∀ r ∈ t.rows, r.id ≠ (n : Int) + 1 := ⟨by omega, h.free⟩
  have hinsert : ∃ t', insertReplaceRowToTable (recipesCopy recipes item) (n + 1) t = some t' :=
    ⟨_, dif_pos hfree⟩
  obtain ⟨t', ht'⟩ := hinsert
  refine ⟨_, recipesParseItem_eq_some.mpr ⟨hitem, t', ht', rfl⟩, ?_⟩
  have hseqid : (recipesCopy recipes item).seqid = recipeSeqid (before ++ [item]) := by
    rw [recipeSeqid_concat, recipesCopy, h.seqid]
  refine ⟨hseqid, h.timestamp, h.collect, ?_, ?_⟩
  · have hrows := (insertReplaceRowToTable_eq_some ht').2
    have hrecord := h.record item
    show t'.rows = _
    rw [hrows, hrecord, keptRecipes_concat, upsert, hseqid]
    exact congrArg (deleteAt (·.seqid) _ · ++ _) h.rows
  · rw [List.length_append]
    exact congrArg (· + 1) h.inserted

/-- The items that are left, behind those that are through. -/
theorem Loaded.loop {st : History × Table × Nat} (h : Loaded before st) :
    (∀ item ∈ items, item.Copies) →
      ∃ st', items.foldlM recipesParseItem st = some st' ∧ Loaded (before ++ items) st' := by
  induction items generalizing before st with
  | nil =>
      intro _
      exact ⟨st, rfl, by simpa using h⟩
  | cons item items ih =>
      intro hitems
      obtain ⟨st₁, hst₁, h₁⟩ := h.turn (hitems item List.mem_cons_self)
      obtain ⟨st', hst', h'⟩ := ih h₁ fun i hi => hitems i (List.mem_cons_of_mem _ hi)
      refine ⟨st', ?_, by simpa using h'⟩
      rw [List.foldlM_cons, hst₁]
      exact hst'

theorem copies_of_loop {st st' : History × Table × Nat}
    (h : items.foldlM recipesParseItem st = some st') : ∀ item ∈ items, item.Copies := by
  induction items generalizing st with
  | nil => exact fun _ hi => absurd hi List.not_mem_nil
  | cons item items ih =>
      rw [List.foldlM_cons] at h
      obtain ⟨st₁, hst₁, h⟩ := Option.bind_eq_some_iff.mp h
      intro i hi
      rcases List.mem_cons.mp hi with rfl | hi
      · exact (recipesParseItem_eq_some.mp hst₁).1
      · exact ih h i hi

/-- **The loop.**  It goes through if and only if every item can be copied. -/
theorem recipesLoop_eq_some {t : Table} :
    recipesLoop items = some t ↔ (∀ item ∈ items, item.Copies) ∧ t.rows = keptRecipes items := by
  constructor
  · intro h
    obtain ⟨st, hst, rfl⟩ := Option.map_eq_some_iff.mp h
    have hitems := copies_of_loop hst
    obtain ⟨st', hst', h'⟩ := loaded_nil.loop hitems
    obtain rfl := Option.some.inj (hst.symm.trans hst')
    exact ⟨hitems, h'.rows⟩
  · rintro ⟨hitems, hrows⟩
    obtain ⟨st', hst', h'⟩ := loaded_nil.loop hitems
    have htable : st'.2.1 = t := by
      cases t with
      | mk rows _ _ _ => exact Table.mk.injEq .. ▸ (h'.rows.trans hrows.symm)
    rw [recipesLoop, hst', ← htable]
    rfl

end

/-! ## Runs -/

/-- `recipesParseJson` is this loop, where it does not give up. -/
theorem recipesParseJson_loop {strtod : Strtod} {str : CStr} {root : CJson} {t : Table}
    (hroot : CJson.parse strtod str = some root) (h : recipesParseJson root = some t) :
    recipesLoop (recipesItems strtod str) = some t := by
  simp only [recipesParseJson, Option.bind_eq_bind, Option.bind_eq_some_iff, Option.pure_def] at h
  obtain ⟨version, hversion, attr, hattr, h⟩ := h
  split at h
  · cases h
  · obtain ⟨st, hst, ht⟩ := Option.bind_eq_some_iff.mp h
    have hitems : recipesItems strtod str = attr.children := by
      simp only [recipesItems, hroot, hversion, hattr]
    rw [hitems, recipesLoop, hst]
    exact ht

/-- The update that drops the table. -/
def RecipeAct.drops : RecipeAct → Bool
  | .ota _ => true
  | .boot _ _ | .otaCut _ => false

def RecipeAct.boots : RecipeAct → Bool
  | .boot _ _ => true
  | .ota _ | .otaCut _ => false

/-- The actions since the last drop. -/
def sinceDrop (acts : List RecipeAct) : List RecipeAct :=
  (acts.reverse.takeWhile fun a => !a.drops).reverse

section

variable {strtod : Strtod} {s s' : RecipeDisk} {acts : List RecipeAct} {heap : List UInt8}
  {cut : Option Nat}

/-- A start that finds no table. -/
theorem boot_of_none (hs : s.table = none) :
    (recipeMachine strtod).step s (.boot heap cut) = some s' ↔
      (∀ item ∈ s.loads strtod heap cut, item.Copies) ∧ s'.file = s.file ∧
        ∃ t, s'.table = some t ∧ t.rows = keptRecipes (s.loads strtod heap cut) := by
  have hstep : (recipeMachine strtod).step s (.boot heap cut) =
      (recipesLoop (s.loads strtod heap cut)).map fun t => { s with table := some t } := by
    simp only [recipeMachine, RecipeDisk.step, hs]
  rw [hstep, Option.map_eq_some_iff]
  constructor
  · rintro ⟨t, ht, rfl⟩
    obtain ⟨hcopies, hrows⟩ := recipesLoop_eq_some.mp ht
    exact ⟨hcopies, rfl, t, rfl, hrows⟩
  · rintro ⟨hcopies, hfile, t, ht, hrows⟩
    refine ⟨t, recipesLoop_eq_some.mpr ⟨hcopies, hrows⟩, ?_⟩
    cases s' with
    | mk file table =>
        obtain rfl : file = s.file := hfile
        obtain rfl : table = some t := ht
        rfl

/-- A start that finds one. -/
theorem boot_of_some {t : Table} (hs : s.table = some t) :
    (recipeMachine strtod).step s (.boot heap cut) = some s := by
  simp only [recipeMachine, RecipeDisk.step, hs]

theorem sinceDrop_concat (a : RecipeAct) :
    sinceDrop (acts ++ [a]) = if a.drops then [] else sinceDrop acts ++ [a] := by
  rw [sinceDrop, List.reverse_append, List.reverse_singleton, List.singleton_append,
    List.takeWhile_cons]
  cases h : a.drops with
  | true => simp
  | false => simp [sinceDrop]

/-- The table is that of the first start since the last drop. -/
structure LoadedBy (strtod : Strtod) (first : RecipeDisk) (acts : List RecipeAct)
    (s : RecipeDisk) : Prop where
  unloaded : s.table = none → ∀ a ∈ sinceDrop acts, a.boots = false
  loaded : ∀ t, s.table = some t → ∃ before heap cut after s₁,
    acts = before ++ .boot heap cut :: after ∧
      (recipeMachine strtod).run first before = some s₁ ∧
      (∀ a ∈ sinceDrop before, a.boots = false) ∧ (∀ a ∈ after, a.drops = false) ∧
      (∀ item ∈ s₁.loads strtod heap cut, item.Copies) ∧
      t.rows = keptRecipes (s₁.loads strtod heap cut)

/-- What leaves the table as it is, and is no start that had to load it. -/
theorem LoadedBy.keep {first : RecipeDisk} {a : RecipeAct} (h : LoadedBy strtod first acts s)
    (hdrop : a.drops = false) (hboot : s.table = none → a.boots = false)
    (htable : s'.table = s.table) : LoadedBy strtod first (acts ++ [a]) s' := by
  refine ⟨fun hs => ?_, fun t hs => ?_⟩
  · rw [sinceDrop_concat, hdrop]
    intro b hb
    rcases List.mem_append.mp hb with hb | hb
    · exact h.unloaded (htable ▸ hs) b hb
    · obtain rfl := List.mem_singleton.mp hb
      exact hboot (htable ▸ hs)
  · obtain ⟨before, heap, cut, after, s₁, rfl, hbefore, hfirst, hafter, hload⟩ :=
      h.loaded t (htable ▸ hs)
    refine ⟨before, heap, cut, after ++ [a], s₁, by simp, hbefore, hfirst, ?_, hload⟩
    intro b hb
    rcases List.mem_append.mp hb with hb | hb
    · exact hafter b hb
    · obtain rfl := List.mem_singleton.mp hb
      exact hdrop

theorem loadedBy_step {first : RecipeDisk} {a : RecipeAct}
    (hrun : (recipeMachine strtod).run first acts = some s) (h : LoadedBy strtod first acts s)
    (hstep : (recipeMachine strtod).step s a = some s') :
    LoadedBy strtod first (acts ++ [a]) s' := by
  cases a with
  | boot heap cut =>
      cases hs : s.table with
      | none =>
          obtain ⟨hcopies, -, t, ht, hrows⟩ := (boot_of_none hs).mp hstep
          refine ⟨fun hs' => ?_, fun t' ht' => ?_⟩
          · rw [ht] at hs'
            cases hs'
          · obtain rfl := Option.some.inj (ht.symm.trans ht')
            exact ⟨acts, heap, cut, [], s, rfl, hrun, h.unloaded hs,
              fun _ ha => absurd ha List.not_mem_nil, hcopies, hrows⟩
      | some t =>
          obtain rfl := Option.some.inj ((boot_of_some hs).symm.trans hstep)
          exact h.keep rfl (fun hnone => by rw [hs] at hnone; cases hnone) rfl
  | ota file =>
      obtain rfl := Option.some.inj hstep
      refine ⟨fun _ a ha => ?_, fun t ht => by cases ht⟩
      rw [sinceDrop_concat] at ha
      exact absurd ha List.not_mem_nil
  | otaCut file =>
      obtain rfl := Option.some.inj hstep
      exact h.keep rfl (fun _ => rfl) rfl

theorem loadedBy_run {file : Option (List UInt8)}
    (hrun : (recipeMachine strtod).run ⟨file, none⟩ acts = some s) :
    LoadedBy strtod ⟨file, none⟩ acts s := by
  induction acts using List.reverseRecOn generalizing s with
  | nil => exact ⟨fun _ _ ha => absurd ha List.not_mem_nil, fun t ht => by
      obtain rfl := Option.some.inj hrun
      cases ht⟩
  | append_singleton acts a ih =>
      obtain ⟨u, hu, hlast⟩ := Machine.run_append.mp hrun
      obtain ⟨v, hstep, hv⟩ := Machine.run_cons.mp hlast
      obtain rfl := Option.some.inj hv
      exact loadedBy_step hu (ih hu) hstep

/-- With no drop behind it, a start is one since the last drop. -/
theorem mem_sinceDrop {before after : List RecipeAct} {a : RecipeAct} (ha : a.drops = false)
    (hafter : ∀ b ∈ after, b.drops = false) : a ∈ sinceDrop (before ++ a :: after) := by
  induction after using List.reverseRecOn with
  | nil =>
      rw [sinceDrop_concat, ha]
      exact List.mem_append_right _ List.mem_cons_self
  | append_singleton after b ih =>
      rw [← List.cons_append, ← List.append_assoc, sinceDrop_concat,
        hafter b (List.mem_append_right _ List.mem_cons_self)]
      exact List.mem_append_left _ (ih fun c hc => hafter c (List.mem_append_left _ hc))

end

/-- **What the recipes are.**  In any run of starts, power cuts and updates on a new device
there is a table if and only if a start has come since the last drop.  Then its rows are
those of the first of them: of the items it went through in the file there was, for each
`seqid` the last, numbered as they come, all of them such as can be copied.  And the next
start goes through if and only if it finds a table or nothing but such items. -/
theorem recipes_loaded {strtod : Strtod} {file : Option (List UInt8)} {acts : List RecipeAct}
    {s : RecipeDisk} (hrun : (recipeMachine strtod).run ⟨file, none⟩ acts = some s) :
    (s.table = none ↔ ∀ a ∈ sinceDrop acts, a.boots = false) ∧
      (∀ t, s.table = some t → ∃ before heap cut after s₁,
        acts = before ++ .boot heap cut :: after ∧
          (recipeMachine strtod).run ⟨file, none⟩ before = some s₁ ∧
          (∀ a ∈ sinceDrop before, a.boots = false) ∧ (∀ a ∈ after, a.drops = false) ∧
          (∀ item ∈ s₁.loads strtod heap cut, item.Copies) ∧
          t.rows = keptRecipes (s₁.loads strtod heap cut)) ∧
      ∀ heap cut, (∃ s', (recipeMachine strtod).step s (.boot heap cut) = some s') ↔
        (s.table = none → ∀ item ∈ s.loads strtod heap cut, item.Copies) := by
  have h := loadedBy_run hrun
  refine ⟨⟨h.unloaded, fun hsince => ?_⟩, h.loaded, fun heap cut => ?_⟩
  · cases hs : s.table with
    | none => rfl
    | some t =>
        obtain ⟨before, heap, cut, after, -, rfl, -, -, hafter, -⟩ := h.loaded t hs
        have hmem : RecipeAct.boot heap cut ∈ sinceDrop (before ++ .boot heap cut :: after) :=
          mem_sinceDrop rfl hafter
        cases hsince _ hmem
  · cases hs : s.table with
    | none =>
        constructor
        · rintro ⟨s', hs'⟩ -
          exact ((boot_of_none hs).mp hs').1
        · intro hcopies
          have hloop : ∃ st, (s.loads strtod heap cut).foldlM recipesParseItem
              (History.zero, Table.empty, 0) = some st ∧ Loaded ([] ++ s.loads strtod heap cut) st :=
            loaded_nil.loop (hcopies rfl)
          obtain ⟨st, -, hst⟩ := hloop
          exact ⟨{ s with table := some st.2.1 },
            (boot_of_none hs).mpr ⟨hcopies rfl, rfl, st.2.1, rfl, hst.rows⟩⟩
    | some t =>
        constructor
        · intro _ hnone
          cases hnone
        · intro _
          exact ⟨s, boot_of_some hs⟩

/-- A recipe of the file, with or without a `seqid` before it. -/
def recipeText (seqid dishName : String) : List UInt8 :=
  cstr "\x7b" ++ cstr seqid ++ cstr "\"dishName\":\"" ++ cstr dishName ++
    cstr "\",\"imgUrl\":\"\",\"cookSteps\":\"[]\",\"details\":\"\"," ++
    cstr "\"cookType\":0,\"recipeType\":1,\"cookPos\":0\x7d"

def recipesText (recipes : List UInt8) : List UInt8 :=
  cstr "\x7b\"RecipesVersion\":\"1.1\",\"recipes\":[" ++ recipes ++ cstr "]\x7d"

/-- The recipes of two versions; in the second, one has lost its `seqid`. -/
def firstRecipes : List UInt8 :=
  recipesText (recipeText "\"seqid\":100," "a" ++ cstr "," ++ recipeText "\"seqid\":1," "b")

def secondRecipes : List UInt8 :=
  recipesText (recipeText "\"seqid\":7," "c" ++ cstr "," ++ recipeText "" "d")

/-- The first start is cut; an update is cut too, and comes again. -/
def recipeActs : List RecipeAct :=
  [.boot [0] (some 1), .otaCut (some secondRecipes), .boot [0] none, .ota (some secondRecipes),
    .boot [0] none, .boot [0] none]

theorem recipes_loaded_twice :
    ∃ s t, (recipeMachine CJson.decimalStrtod).run ⟨some firstRecipes, none⟩ recipeActs = some s ∧
      s.table = some t ∧ t.rows.map (fun r => (r.id, r.seqid, r.dishName)) = [(2, 7, cstr "d")] ∧
      (∃ before heap cut after s₁, recipeActs = before ++ .boot heap cut :: after ∧
        (recipeMachine CJson.decimalStrtod).run ⟨some firstRecipes, none⟩ before = some s₁ ∧
        (∀ a ∈ sinceDrop before, a.boots = false) ∧ (∀ a ∈ after, a.drops = false) ∧
        (∀ item ∈ s₁.loads CJson.decimalStrtod heap cut, item.Copies) ∧
        t.rows = keptRecipes (s₁.loads CJson.decimalStrtod heap cut)) := by
  have hrun : (((recipeMachine CJson.decimalStrtod).run ⟨some firstRecipes, none⟩
      recipeActs).bind RecipeDisk.table).map
        (fun t => t.rows.map fun r => (r.id, r.seqid, r.dishName)) =
      some [(2, 7, cstr "d")] := by decide +kernel
  obtain ⟨t, ht, hrows⟩ := Option.map_eq_some_iff.mp hrun
  obtain ⟨s, hs, htable⟩ := Option.bind_eq_some_iff.mp ht
  exact ⟨s, t, hs, htable, hrows, (recipes_loaded hs).2.1 t htable⟩

end X50
