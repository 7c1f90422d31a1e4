/-
# `X50.CloudReport` — what one report of one attribute does

`get_attr_report_value` has one effect that is not about reporting: an attribute
`CookbookID` with a positive value, while `CookbookName` is empty, looks the
recipe up.  The lookup runs `histroy_select_seqid_func` on every row it finds,
and that callback belongs to the history: it puts the row into the list.

`LooksUp` is the condition, on the table and on the recipes alone; `Visit` is
everything a report of one attribute can do, exactly.
-/
import X50.CloudTable

namespace X50

/-! ## Conditions on the table -/

/-- The recipes a `CookbookID` stands for. -/
def recipeRows (recipe : RecipeTable) (bytes : List UInt8) : List History :=
  selectSeqidFromTable (cloudVal bytes) recipe.toTable

/-- A report of attribute `j` looks a recipe up and finds one. -/
def LooksUp (recipe : RecipeTable) (attr : List CloudAttr) (j : Nat) : Prop :=
  ∃ a ∈ attr[j]?, a.isReported ∧ a.cloudValueType = .num ∧ a.cloudKey = cstr "CookbookID" ∧
    0 < cloudVal a.bytes ∧ nameByte attr = some 0 ∧ recipeRows recipe a.bytes ≠ []

instance (recipe : RecipeTable) (attr : List CloudAttr) (j : Nat) :
    Decidable (LooksUp recipe attr j) :=
  inferInstanceAs (Decidable (∃ a ∈ attr[j]?, _ ∧ _ ∧ _ ∧ _ ∧ _ ∧ _))

/-- `get_attr_report_value` makes an item of such an attribute. -/
def CloudAttr.hasItem (a : CloudAttr) : Bool :=
  match a.cloudValueType with
  | .struct => a.uartCmd == uartCmdMultistageState
  | .num => true
  | .stringNum => true
  | .string =>
      a.cloudKey == cstr "ComSWVersion" || a.cloudKey == cstr "WifiMac" || a.value.length != 0
  | .other _ => false

/-- A report of attribute `j` has it as a member. -/
def Appears (attr : List CloudAttr) (j : Nat) : Prop :=
  ∃ a ∈ attr[j]?, a.isReported ∧ a.hasItem

instance (attr : List CloudAttr) (j : Nat) : Decidable (Appears attr j) :=
  inferInstanceAs (Decidable (∃ a ∈ attr[j]?, _ ∧ _))

theorem CloudAttr.layout_hasItem {a a' : CloudAttr} (h : a'.layout = a.layout) :
    a'.hasItem = a.hasItem := by
  simp only [hasItem, layout_cloudValueType h, layout_uartCmd h, layout_cloudKey h,
    layout_length h]

theorem appears_congr {attr attr' : List CloudAttr} (h : SameLayout attr attr') {j : Nat} :
    Appears attr' j ↔ Appears attr j := by
  suffices hone : ∀ {t t' : List CloudAttr}, SameLayout t t' → Appears t j → Appears t' j from
    ⟨hone h.symm, hone h⟩
  rintro t t' ht ⟨a, ha, hr, hi⟩
  obtain ⟨a', ha', hl⟩ := ht.get ha
  exact ⟨a', ha', (CloudAttr.layout_isReported hl).trans hr, (CloudAttr.layout_hasItem hl).trans hi⟩

/-- Whether a lookup takes place depends on what is kept, and on the first byte
of `CookbookName`. -/
theorem looksUp_congr {recipe : RecipeTable} {attr attr' : List CloudAttr} (h : Kept attr attr')
    (hn : nameByte attr' = nameByte attr) {j : Nat} :
    LooksUp recipe attr' j ↔ LooksUp recipe attr j := by
  have key : ∀ {a a' : CloudAttr}, KeptAttr a a' → a.cloudValueType = .num →
      a.cloudKey = cstr "CookbookID" → a'.bytes = a.bytes := by
    intro a a' hk ht hkey
    have hv : a'.value = a.value :=
      hk.value (by rw [hkey]; decide) (by rw [ht]; decide)
    simp only [CloudAttr.bytes, hv, CloudAttr.layout_uartByteLen hk.layout]
  constructor
  · rintro ⟨a', ha', hr, ht, hkey, hpos, hname, hrows⟩
    obtain ⟨a, ha, -⟩ := h.sameLayout.symm.get ha'
    obtain ⟨b, hb, hk⟩ := h.get ha
    obtain rfl := Option.some.inj (ha'.symm.trans hb)
    have ht' := (CloudAttr.layout_cloudValueType hk.layout) ▸ ht
    have hkey' := (CloudAttr.layout_cloudKey hk.layout) ▸ hkey
    have hbytes := key hk ht' hkey'
    exact ⟨a, ha, (CloudAttr.layout_isReported hk.layout) ▸ hr, ht', hkey', hbytes ▸ hpos,
      hn ▸ hname, hbytes ▸ hrows⟩
  · rintro ⟨a, ha, hr, ht, hkey, hpos, hname, hrows⟩
    obtain ⟨a', ha', hk⟩ := h.get ha
    have hbytes := key hk ht hkey
    exact ⟨a', ha', (CloudAttr.layout_isReported hk.layout).trans hr,
      (CloudAttr.layout_cloudValueType hk.layout).trans ht,
      (CloudAttr.layout_cloudKey hk.layout).trans hkey, hbytes.symm ▸ hpos, hn.trans hname,
      hbytes.symm ▸ hrows⟩

/-! ## The lookup -/

/-- The in-memory list, `g_history_seqid` and the table are as before. -/
structure SameHistory (s s' : HistoryState) : Prop where
  historyList : s'.historyList = s.historyList
  gHistorySeqid : s'.gHistorySeqid = s.gHistorySeqid
  history : s'.history = s.history

theorem SameHistory.refl (s : HistoryState) : SameHistory s s := ⟨rfl, rfl, rfl⟩

theorem SameHistory.trans {s s' s'' : HistoryState} (h : SameHistory s s')
    (h' : SameHistory s' s'') : SameHistory s s'' :=
  ⟨h'.1.trans h.1, h'.2.trans h.2, h'.3.trans h.3⟩

theorem length_reportInsertHistory {r : History} {l : List History} :
    (reportInsertHistory (some r) true l).length = l.length + 1 := by
  show (List.insertionSort recipeLe (r :: l)).length = _
  rw [List.length_insertionSort, List.length_cons]

/-- The callback runs on every row: the list gets one record longer for each. -/
theorem selectSeqidRows_spec {rows : List History} {s : HistoryState}
    {item : List (CStr × CJson)} :
    (selectSeqidRows rows s item).1.historyList.length = s.historyList.length + rows.length ∧
      (selectSeqidRows rows s item).1.recipe = s.recipe ∧
      (selectSeqidRows rows s item).2 = item ++ rows.flatMap selectSeqidMembers := by
  induction rows generalizing s item with
  | nil => simp [selectSeqidRows]
  | cons r rows ih =>
      have h := @ih (histroySelectSeqidFunc r s item).1 (histroySelectSeqidFunc r s item).2
      refine ⟨h.1.trans ?_, h.2.1, h.2.2.trans ?_⟩
      · simp only [histroySelectSeqidFunc, length_reportInsertHistory, List.length_cons]
        omega
      · simp [histroySelectSeqidFunc]

theorem selectSeqidRows_keeps {I : HistoryState → Prop} (rows : List History)
    (hI : ∀ s, ∀ r ∈ rows, ∀ item, I s → I (histroySelectSeqidFunc r s item).1)
    {s : HistoryState} (item : List (CStr × CJson)) (hs : I s) :
    I (selectSeqidRows rows s item).1 := by
  induction rows generalizing s item with
  | nil => exact hs
  | cons r rows ih =>
      exact ih (fun s q hq => hI s q (List.mem_cons_of_mem _ hq)) _
        (hI s r List.mem_cons_self item hs)

/-- **The lookup rule**: what the callback keeps, given a row of the recipe table,
a lookup keeps. -/
theorem selectForCookbookID_keeps {I : HistoryState → Prop} {cookbookID : Int}
    {name : List UInt8} {nameLen : Nat} {db : HistoryState}
    {found : HistoryState × Option (List UInt8)}
    (hI : ∀ s, ∀ r ∈ db.recipe.rows, ∀ item, I s → I (histroySelectSeqidFunc r s item).1)
    (hdb : I db)
    (h : selectForCookbookID cookbookID name nameLen db = some found) : I found.1 := by
  have hdone := selectSeqidRows_keeps (selectSeqidFromTable cookbookID db.recipe.toTable)
    (fun s r hr => hI s r (List.mem_filter.mp hr).1) [] hdb
  simp only [selectForCookbookID] at h
  split at h
  · obtain rfl := Option.some.inj h
    exact hdone
  · split at h
    · obtain rfl := Option.some.inj h
      exact hdone
    · obtain ⟨src, -, h⟩ := Option.bind_eq_some_iff.mp h
      obtain ⟨name', -, h⟩ := Option.bind_eq_some_iff.mp h
      obtain rfl := Option.some.inj h
      exact hdone

theorem getObjectItem_dishName {r : History} {rest : List (CStr × CJson)} :
    (CJson.object (selectSeqidMembers r ++ rest)).getObjectItem (cstr "dishName") =
      some (.string r.dishName) := by
  have h₁ : caseInsensitiveEq (cstr "dishName") (cstr "id") = false := by decide
  have h₂ : caseInsensitiveEq (cstr "dishName") (cstr "seqid") = false := by decide
  simp [CJson.getObjectItem, selectSeqidMembers, h₁, h₂, caseInsensitiveEq_refl]

theorem length_strncpy {name name' : List UInt8} {src : CStr} {nameLen : Nat}
    (h : strncpy name src nameLen = some name') : name'.length = name.length := by
  unfold strncpy at h
  split at h
  · cases h
  · obtain rfl := Option.some.inj h
    simp only [List.length_append, List.length_take, List.length_replicate, List.length_drop]
    omega

/-- A lookup that finds no recipe leaves the database alone. -/
theorem selectForCookbookID_nil {cookbookID : Int} {name : List UInt8} {nameLen : Nat}
    {db : HistoryState} (h : selectSeqidFromTable cookbookID db.recipe.toTable = []) :
    selectForCookbookID cookbookID name nameLen db = some (db, none) := by
  simp [selectForCookbookID, h, selectSeqidRows, CJson.isNull]

/-- A lookup that finds one puts it into the history. -/
theorem selectForCookbookID_found {cookbookID : Int} {name : List UInt8} {nameLen : Nat}
    {db : HistoryState} {out : HistoryState × Option (List UInt8)}
    (h : selectSeqidFromTable cookbookID db.recipe.toTable ≠ [])
    (hout : selectForCookbookID cookbookID name nameLen db = some out) :
    db.historyList.length < out.1.historyList.length ∧ out.1.recipe = db.recipe ∧
      ∃ name', out.2 = some name' ∧ name'.length = name.length := by
  generalize hrows : selectSeqidFromTable cookbookID db.recipe.toTable = rows at h
  obtain ⟨r, rest, rfl⟩ := List.exists_cons_of_ne_nil h
  obtain ⟨hlen, hrec, hitem⟩ := @selectSeqidRows_spec (r :: rest) db []
  have hmembers : (selectSeqidRows (r :: rest) db []).2 =
      selectSeqidMembers r ++ rest.flatMap selectSeqidMembers := by simpa using hitem
  have hnull : (CJson.object (selectSeqidRows (r :: rest) db []).2).isNull = false := by
    rw [hmembers]
    rfl
  simp only [selectForCookbookID, hrows, hnull, Bool.false_eq_true, if_false] at hout
  rw [hmembers, getObjectItem_dishName] at hout
  obtain ⟨name', hname', hout⟩ : ∃ name', strncpy name r.dishName nameLen = some name' ∧
      some ((selectSeqidRows (r :: rest) db []).1, some name') = some out :=
    Option.bind_eq_some_iff.mp hout
  obtain rfl := Option.some.inj hout
  refine ⟨?_, hrec, name', rfl, length_strncpy hname'⟩
  show _ < (selectSeqidRows (r :: rest) db []).1.historyList.length
  rw [hlen, List.length_cons]
  omega

theorem cstrOf_length_eq_zero {v heap : List UInt8} (hv : v ≠ []) :
    (cstrOf (v ++ heap)).length = 0 ↔ v.head? = some 0 := by
  obtain ⟨c, v, rfl⟩ := List.exists_cons_of_ne_nil hv
  by_cases hc : c = 0 <;> simp [cstrOf, hc]

/-- The `CookbookID` branch finds a recipe. -/
def Finds (recipe : RecipeTable) (attr : List CloudAttr) (val : Int) : Prop :=
  0 < val ∧ nameByte attr = some 0 ∧ selectSeqidFromTable val recipe.toTable ≠ []

instance (recipe : RecipeTable) (attr : List CloudAttr) (val : Int) :
    Decidable (Finds recipe attr val) :=
  inferInstanceAs (Decidable (_ ∧ _ ∧ _))

theorem reportCookbookID_quiet {val : Int} {b b' : Board}
    (hn : ¬ Finds b.db.recipe b.dev.attr val) (h : reportCookbookID val b = some b') :
    b' = b := by
  unfold reportCookbookID at h
  split at h
  · rename_i hpos
    split at h
    · exact (Option.some.inj h).symm
    · rename_i q hq
      obtain ⟨a, ha, h⟩ := Option.bind_eq_some_iff.mp h
      split at h
      · rename_i hz
        have hname : nameByte b.dev.attr = some 0 :=
          (nameByte_of_nameAt hq ha).trans ((cstrOf_length_eq_zero hz.1).mp hz.2)
        have hrows : selectSeqidFromTable val b.db.recipe.toTable = [] := by
          by_contra hr
          exact hn ⟨hpos, hname, hr⟩
        rw [selectForCookbookID_nil hrows] at h
        exact (Option.some.inj h).symm
      · exact (Option.some.inj h).symm
  · exact (Option.some.inj h).symm

theorem reportCookbookID_found {val : Int} {b b' : Board}
    (hf : Finds b.db.recipe b.dev.attr val) (h : reportCookbookID val b = some b') :
    ∃ (q : Nat) (a : CloudAttr) (db : HistoryState) (name : List UInt8) (out : List Report),
      nameAt b.dev.attr = some q ∧ b.dev.attr[q]? = some a ∧
      name.length = a.value.length ∧ b.db.historyList.length < db.historyList.length ∧
      db.recipe = b.db.recipe ∧
      b' = (({ b with db := { db with out := out } }).setValue q name).noteReported q := by
  obtain ⟨hpos, hname, hrows⟩ := hf
  simp only [reportCookbookID, hpos, if_true] at h
  cases hq : nameAt b.dev.attr with
  | none => simp [nameByte, hq] at hname
  | some q =>
      have hq' : getAttrPtr (cstr "CookbookName") b.dev.attr = some q := hq
      simp only [hq'] at h
      obtain ⟨a, ha, h⟩ := Option.bind_eq_some_iff.mp h
      have hhead : a.value.head? = some 0 := (nameByte_of_nameAt hq ha).symm.trans hname
      have hne : a.value ≠ [] := by
        rintro hv
        simp [hv] at hhead
      rw [if_pos ⟨hne, (cstrOf_length_eq_zero hne).mpr hhead⟩] at h
      obtain ⟨found, hfound, h⟩ := Option.bind_eq_some_iff.mp h
      obtain ⟨hlen, hrec, name, hname', hsize⟩ := selectForCookbookID_found hrows hfound
      simp only [hname'] at h
      obtain rfl := Option.some.inj h
      exact ⟨q, a, found.1, name, reportMsgAllPlatform
        (.object [(cstr "CookbookName", .string (cstrOf (name ++ b.heap)))]) found.1.out,
        rfl, ha, hsize, hlen, hrec, rfl⟩

/-! ## A report of one attribute -/

/-- What only a SET request writes is as before. -/
structure SameRequests (b b' : Board) : Prop where
  uartBuf : b'.uartBuf = b.uartBuf
  handed : b'.handed = b.handed
  recorded : b'.recorded = b.recorded

theorem SameRequests.refl (b : Board) : SameRequests b b := ⟨rfl, rfl, rfl⟩

theorem SameRequests.trans {b b' b'' : Board} (h : SameRequests b b') (h' : SameRequests b' b'') :
    SameRequests b b'' :=
  ⟨h'.1.trans h.1, h'.2.trans h.2, h'.3.trans h.3⟩

/-- A report of attribute `j` leads from `b` to `b'`. -/
structure Visit (j : Nat) (b b' : Board) : Prop where
  kept : Kept b.dev.attr b'.dev.attr
  recipe : b'.db.recipe = b.db.recipe
  /-- a recipe found is put into the history -/
  found : LooksUp b.db.recipe b.dev.attr j →
    b.db.historyList.length < b'.db.historyList.length
  /-- nothing else is -/
  quiet : ¬ LooksUp b.db.recipe b.dev.attr j →
    SameHistory b.db b'.db ∧ nameByte b'.dev.attr = nameByte b.dev.attr
  reported : ∃ l, b'.reported = b.reported ++ l ∧ ∀ k, k ∈ l ↔
    (k = j ∧ Appears b.dev.attr j) ∨
      (LooksUp b.db.recipe b.dev.attr j ∧ nameAt b.dev.attr = some k)
  requests : SameRequests b b'
  /-- only a string and `CookbookName` are written -/
  same : ∀ k a, b.dev.attr[k]? = some a → nameAt b.dev.attr ≠ some k →
    (k = j → a.cloudValueType ≠ .string) → b'.dev.attr[k]? = some a

/-- Nothing is written, and the attribute is put into the report or not. -/
theorem Visit.of_unchanged {j : Nat} {b b' : Board} (hdev : b'.dev = b.dev) (hdb : b'.db = b.db)
    (hlook : ¬ LooksUp b.db.recipe b.dev.attr j)
    (hrep : b'.reported = b.reported ++ if Appears b.dev.attr j then [j] else [])
    (hrec : SameRequests b b') : Visit j b b' where
  kept := hdev ▸ Kept.refl _
  recipe := by rw [hdb]
  found h := absurd h hlook
  quiet _ := ⟨hdb ▸ SameHistory.refl _, by rw [hdev]⟩
  reported := by
    refine ⟨_, hrep, fun k => ?_⟩
    split <;> simp_all
  requests := hrec
  same k a ha _ _ := hdev ▸ ha

theorem structItem_isSome {a : CloudAttr} {dev : CloudDev} {item : Option CJson}
    (h : structItem a dev = some item) : item.isSome = (a.uartCmd == uartCmdMultistageState) := by
  unfold structItem at h
  split at h
  · rename_i hcmd
    obtain ⟨cnt, -, h⟩ := Option.bind_eq_some_iff.mp h
    obtain ⟨current, -, h⟩ := Option.bind_eq_some_iff.mp h
    obtain ⟨remind, -, h⟩ := Option.bind_eq_some_iff.mp h
    rw [beq_iff_eq.mpr hcmd]
    split at h
    · obtain ⟨text, -, h⟩ := Option.bind_eq_some_iff.mp h
      exact Option.some.inj h ▸ rfl
    · exact Option.some.inj h ▸ rfl
  · rename_i hcmd
    rw [beq_eq_false_iff_ne.mpr hcmd]
    exact Option.some.inj h ▸ rfl

/-- A string is reported from where it is, or is cut at the end of its buffer. -/
theorem stringItem_cases {j : Nat} {a : CloudAttr} {b : Board} {out : Board × Option CJson}
    (h : stringItem j a b = some out) :
    (out.1 = b ∧ out.2.isSome = (a.cloudKey == cstr "ComSWVersion" ||
        a.cloudKey == cstr "WifiMac" || a.value.length != 0)) ∨
      (1 < a.uartByteLen.toNat ∧
        out.1 = b.setValue j (a.value.set (a.uartByteLen.toNat - 1) 0) ∧ out.2.isSome) := by
  unfold stringItem at h
  dsimp only at h
  split at h
  · rename_i hfull
    obtain rfl := Option.some.inj h
    exact Or.inr ⟨hfull.1, rfl, rfl⟩
  · refine Or.inl ?_
    split at h
    · rename_i hkey
      obtain rfl := Option.some.inj h
      simp [hkey]
    · split at h
      · obtain ⟨v, hv, h⟩ := Option.bind_eq_some_iff.mp h
        obtain rfl := Option.some.inj h
        have hne : a.value.length ≠ 0 := by
          intro h0
          simp [List.length_eq_zero_iff.mp h0] at hv
        simp [hne]
      · split at h
        · rename_i hkey
          obtain rfl := Option.some.inj h
          simp [hkey]
        · rename_i hcom _ hmac
          split at h
          · rename_i hnil
            obtain rfl := Option.some.inj h
            simp [hnil, hcom, hmac]
          · rename_i hne
            obtain rfl := Option.some.inj h
            simp [hne]

/-- The three things `get_attr_report_value` can do to the state while it makes
its item. -/
theorem attrItem_cases {j : Nat} {a : CloudAttr} {b : Board} {out : Board × Option CJson}
    (h : attrItem j a b = some out) :
    (out.1 = b ∧ out.2.isSome = a.hasItem ∧
        ¬ (a.cloudValueType = .num ∧ a.cloudKey = cstr "CookbookID")) ∨
      (a.cloudValueType = .string ∧ a.value.length ≠ 0 ∧ out.2.isSome ∧
        out.1 = b.setValue j (a.value.set (a.uartByteLen.toNat - 1) 0) ∧
        1 < a.uartByteLen.toNat) ∨
      (a.cloudValueType = .num ∧ a.cloudKey = cstr "CookbookID" ∧ out.2.isSome ∧
        reportCookbookID (cloudVal a.bytes) b = some out.1) := by
  unfold attrItem at h
  split at h
  · rename_i ht
    obtain ⟨item, hitem, rfl⟩ := Option.map_eq_some_iff.mp h
    refine Or.inl ⟨rfl, ?_, by simp [ht]⟩
    show item.isSome = _
    simp [CloudAttr.hasItem, ht, structItem_isSome hitem]
  · rename_i ht
    split at h
    · cases h
    · rename_i hlen
      split at h
      · rename_i hnum
        obtain rfl := Option.some.inj h
        exact Or.inl ⟨rfl, by simp [CloudAttr.hasItem, hnum], by simp [hnum]⟩
      · rename_i hnum
        split at h
        · rename_i hkey
          obtain ⟨b', hb', rfl⟩ := Option.map_eq_some_iff.mp h
          exact Or.inr (Or.inr ⟨hnum, hkey, rfl, hb'⟩)
        · rename_i hkey
          obtain rfl := Option.some.inj h
          exact Or.inl ⟨rfl, by simp [CloudAttr.hasItem, hnum], by simp [hkey]⟩
      · rename_i hstr
        rcases stringItem_cases h with ⟨hout, hsome⟩ | ⟨hlong, hset, hsome⟩
        · exact Or.inl ⟨hout, by simpa [CloudAttr.hasItem, hstr] using hsome, by simp [hstr]⟩
        · exact Or.inr (Or.inl ⟨hstr, by omega, hsome, hset, hlong⟩)
      · rename_i hs hn hstr
        obtain rfl := Option.some.inj h
        refine Or.inl ⟨rfl, ?_, fun hc => hn hc.1⟩
        cases hty : a.cloudValueType <;> simp_all [CloudAttr.hasItem]

/-- `get_attr_report_value`, as far as it does not depend on the item. -/
theorem getAttrReportValue_cases {j : Nat} {b : Board} {resp : Members} {out : Board × Members}
    (h : getAttrReportValue j b resp = some out) :
    ∃ a, b.dev.attr[j]? = some a ∧
      ((a.isReported = false ∧ out = (b, resp)) ∨
        (a.isReported = true ∧ ∃ made, attrItem j a b = some made ∧
          out = (if made.2.isSome then made.1.noteReported j else made.1,
            resp ++ (made.2.map fun item => (a.cloudKey, item)).toList))) := by
  obtain ⟨a, ha, h⟩ := Option.bind_eq_some_iff.mp h
  refine ⟨a, ha, ?_⟩
  cases hr : a.isReported with
  | false =>
      simp only [hr, Bool.not_false, if_true] at h
      exact Or.inl ⟨rfl, (Option.some.inj h).symm⟩
  | true =>
      simp only [hr, Bool.not_true, Bool.false_eq_true, if_false] at h
      obtain ⟨made, hmade, h⟩ := Option.bind_eq_some_iff.mp h
      refine Or.inr ⟨rfl, made, hmade, ?_⟩
      cases hi : made.2 with
      | none => simpa [hi] using (Option.some.inj (by simpa [hi] using h)).symm
      | some item => simpa [hi] using (Option.some.inj (by simpa [hi] using h)).symm

theorem looksUp_iff_finds {b : Board} {j : Nat} {a : CloudAttr} (ha : b.dev.attr[j]? = some a)
    (hr : a.isReported = true) (ht : a.cloudValueType = .num)
    (hkey : a.cloudKey = cstr "CookbookID") :
    LooksUp b.db.recipe b.dev.attr j ↔
      Finds b.db.recipe b.dev.attr (cloudVal a.bytes) := by
  constructor
  · rintro ⟨a', ha', -, -, -, hf⟩
    obtain rfl := Option.some.inj (ha.symm.trans ha')
    exact hf
  · intro hf
    exact ⟨a, ha, hr, ht, hkey, hf⟩

/-- The report of a string that fills its buffer. -/
theorem visit_cut {j : Nat} {b : Board} {a : CloudAttr} (ha : b.dev.attr[j]? = some a)
    (hr : a.isReported = true) (ht : a.cloudValueType = .string) (hlen : a.value.length ≠ 0)
    (hlong : 1 < a.uartByteLen.toNat) :
    Visit j b ((b.setValue j (a.value.set (a.uartByteLen.toNat - 1) 0)).noteReported j) := by
  have hhead : (a.value.set (a.uartByteLen.toNat - 1) 0).head? = a.value.head? := by
    obtain ⟨n, hn⟩ : ∃ n, a.uartByteLen.toNat - 1 = n + 1 := ⟨a.uartByteLen.toNat - 2, by omega⟩
    cases hv : a.value <;> simp [hn]
  have hlook : ¬ LooksUp b.db.recipe b.dev.attr j := by
    rintro ⟨a', ha', -, hnum, -⟩
    obtain rfl := Option.some.inj (ha.symm.trans ha')
    rw [ht] at hnum
    cases hnum
  have happ : Appears b.dev.attr j :=
    ⟨a, ha, hr, by simp [CloudAttr.hasItem, ht, hlen]⟩
  have hlayout : SameLayout b.dev.attr
      (b.setValue j (a.value.set (a.uartByteLen.toNat - 1) 0)).dev.attr :=
    Board.setValue_sameLayout ha (List.length_set ..)
  exact {
    kept := by
      refine Kept.modify fun a' ha' => ?_
      obtain rfl := Option.some.inj (ha.symm.trans ha')
      exact ⟨by simp [CloudAttr.layout], fun _ => hhead, fun _ hs => absurd ht hs⟩
    recipe := rfl
    found := fun h => absurd h hlook
    quiet := by
      refine fun _ => ⟨.refl _, nameByte_congr hlayout fun q a₁ a₂ _ h₁ h₂ => ?_⟩
      by_cases hq : q = j
      · subst hq
        obtain rfl := Option.some.inj (ha.symm.trans h₁)
        obtain rfl := Option.some.inj ((Board.setValue_get_self ha).symm.trans h₂)
        exact hhead
      · have h₂' := (Board.setValue_get_ne hq).symm.trans h₂
        rw [Option.some.inj (h₁.symm.trans h₂')]
    reported := ⟨[j], rfl, fun k => by simp [happ, hlook]⟩
    requests := ⟨rfl, rfl, rfl⟩
    same := by
      intro k a' ha' _ hs
      by_cases hk : k = j
      · subst hk
        obtain rfl := Option.some.inj (ha.symm.trans ha')
        exact absurd ht (hs rfl)
      · exact (Board.setValue_get_ne hk).trans ha' }

/-- The report of a `CookbookID` whose recipe is found. -/
theorem visit_found {j : Nat} {b b' : Board} {a : CloudAttr} (ha : b.dev.attr[j]? = some a)
    (hr : a.isReported = true) (ht : a.cloudValueType = .num)
    (hlook : LooksUp b.db.recipe b.dev.attr j)
    (hf : Finds b.db.recipe b.dev.attr (cloudVal a.bytes))
    (h : reportCookbookID (cloudVal a.bytes) b = some b') :
    Visit j b (b'.noteReported j) := by
  obtain ⟨q, a', db, name, out, hq, ha', hname, hlong, hrec, rfl⟩ := reportCookbookID_found hf h
  have happ : Appears b.dev.attr j := ⟨a, ha, hr, by simp [CloudAttr.hasItem, ht]⟩
  have hkey : a'.cloudKey = cstr "CookbookName" := by
    obtain ⟨a'', ha'', hkey⟩ := getAttrPtr_some hq
    rw [Option.some.inj (ha'.symm.trans ha''), hkey]
  exact {
    kept := by
      refine Kept.modify fun c hc => ?_
      obtain rfl := Option.some.inj (ha'.symm.trans hc)
      exact ⟨by simp [CloudAttr.layout, hname], fun hn => absurd hkey hn,
        fun hn => absurd hkey hn⟩
    recipe := hrec
    found := fun _ => hlong
    quiet := fun hn => absurd hlook hn
    reported := by
      refine ⟨[q, j], by simp [Board.noteReported, Board.setValue], fun k => ?_⟩
      simp only [List.mem_cons, List.not_mem_nil, or_false, happ, and_true, hlook, true_and, hq,
        Option.some.injEq]
      rw [or_comm, eq_comm (a := q)]
    requests := ⟨rfl, rfl, rfl⟩
    same := by
      intro k c hc hne _
      have hk : k ≠ q := fun hk => hne (hk ▸ hq)
      exact (Board.setValue_get_ne hk).trans hc }

/-- **A report of one attribute**: everything it does. -/
theorem getAttrReportValue_visit {j : Nat} {b : Board} {resp : Members} {out : Board × Members}
    (h : getAttrReportValue j b resp = some out) : Visit j b out.1 := by
  obtain ⟨a, ha, ⟨hr, rfl⟩ | ⟨hr, made, hmade, rfl⟩⟩ := getAttrReportValue_cases h
  · have hget : ∀ c ∈ b.dev.attr[j]?, c.isReported = false := by
      intro c hc
      rw [← Option.some.inj (ha.symm.trans hc), hr]
    refine .of_unchanged rfl rfl ?_ ?_ (.refl _)
    · rintro ⟨c, hc, hrc, -⟩
      rw [hget c hc] at hrc
      cases hrc
    · rw [if_neg, List.append_nil]
      rintro ⟨c, hc, hrc, -⟩
      rw [hget c hc] at hrc
      cases hrc
  · have happ : Appears b.dev.attr j ↔ a.hasItem = true := by
      constructor
      · rintro ⟨c, hc, -, hi⟩
        rwa [Option.some.inj (ha.symm.trans hc)]
      · exact fun hi => ⟨a, ha, hr, hi⟩
    have hadd : ∀ c : Board, (if a.hasItem then c.noteReported j else c).reported =
        c.reported ++ if Appears b.dev.attr j then [j] else [] := by
      intro c
      by_cases hi : a.hasItem = true <;> simp [happ, hi, Board.noteReported]
    rcases attrItem_cases hmade with ⟨hsame, hitem, hno⟩ | ⟨ht, hlen, hitem, hset, hlong⟩ |
      ⟨ht, hkey, hitem, hid⟩
    · rw [hsame, hitem]
      refine .of_unchanged ?_ ?_ ?_ (hadd b) ?_
      · split <;> rfl
      · split <;> rfl
      · rintro ⟨c, hc, -, ht, hkey, -⟩
        rw [← Option.some.inj (ha.symm.trans hc)] at ht hkey
        exact hno ⟨ht, hkey⟩
      · split <;> exact ⟨rfl, rfl, rfl⟩
    · rw [hset, hitem, if_pos rfl]
      exact visit_cut ha hr ht hlen hlong
    · rw [hitem, if_pos rfl]
      have hlook := looksUp_iff_finds ha hr ht hkey
      by_cases hf : Finds b.db.recipe b.dev.attr (cloudVal a.bytes)
      · exact visit_found ha hr ht (hlook.mpr hf) hf hid
      · rw [reportCookbookID_quiet hf hid]
        have hi : a.hasItem = true := by simp [CloudAttr.hasItem, ht]
        refine .of_unchanged rfl rfl (fun hl => hf (hlook.mp hl)) ?_ ⟨rfl, rfl, rfl⟩
        simpa [hi] using hadd b

end X50
