/-
# `X50.Remind` — the reminders of a dish

A stage of a dish may have a `RemindText`.  A SET request puts the texts into
`remind`, from index 0 on, and sends the board the numbers of the stages, from 1
on.  When the board reports the number of a stage (`current`), the text of the
report is looked up at that number, which is the index of the stage behind it, and
for the third stage no index of the table at all.

`remind_right_iff` says for which requests, tables and numbers the report is right
all the same, however much later it is made.
-/
import X50.CloudBuffers

namespace X50

open X50.Lib

/-! ## What a request makes of the table -/

/-- The reminder of a stage; empty if it has none. -/
def stageText (arraySub : CJson) : CStr :=
  match arraySub.getObjectItem (cstr "RemindText") with
  | none => []
  | some text => text.valuestring.getD []

/-- The table behind these stages, the first of which has index `i`. -/
def stagesRemind (i : Nat) (remind : List CStr) : List CJson → List CStr
  | [] => remind
  | arraySub :: rest =>
      stagesRemind (i + 1)
        (if stageText arraySub = [] then remind else remind.set i (stageText arraySub)) rest

/-- The table behind the turn of attribute `a`. -/
def dishRemind (root : CJson) (remind : List CStr) (a : CloudAttr) : List CStr :=
  if a.isMultistage && a.isSettable then
    match root.getObjectItem a.cloudKey with
    | none => remind
    | some item =>
        if item.getArraySize = 0 then remind
        else if a.cloudKey = cstr "MultiStageContent" then remind.map fun _ => []
        else stagesRemind 0 remind item.children
  else remind

/-- What index `k` of the table holds behind the stages of a dish: the text of the
stage at that index, and before all a text that was there already. -/
def heldText (remind : List CStr) (stages : List CJson) (k : Nat) : Option CStr :=
  match stages[k]? with
  | some arraySub => if stageText arraySub = [] then remind[k]? else some (stageText arraySub)
  | none => remind[k]?

theorem stageRemind_spec {i : Nat} {arraySub : CJson} {remind : List CStr}
    {out : List CStr × UInt8} (h : stageRemind i arraySub remind = some out) :
    out.1 = if stageText arraySub = [] then remind else remind.set i (stageText arraySub) := by
  unfold stageText
  cases stageRemind_cases h with
  | absent hitem => simp [hitem]
  | empty hitem hs => simp [hitem, hs]
  | text hitem hs hpos hi hfits => simp [hitem, hs, List.ne_nil_of_length_pos hpos]

theorem length_stagesRemind {i : Nat} {remind : List CStr} {stages : List CJson} :
    (stagesRemind i remind stages).length = remind.length := by
  induction stages generalizing i remind with
  | nil => rfl
  | cons arraySub rest ih =>
      rw [stagesRemind, ih]
      split <;> simp

/-- The stage loop, and what it makes of the table. -/
theorem setStages_remind {i : Nat} {remind : List CStr} {body : List UInt8} {stages : List CJson}
    {out : List CStr × List UInt8} (h : setStages i remind body stages = some out) :
    out.1 = stagesRemind i remind stages := by
  induction stages generalizing i remind body with
  | nil =>
      obtain rfl := Option.some.inj h
      rfl
  | cons stage rest ih =>
      obtain ⟨⟨remind', flag⟩, hstage, h⟩ := Option.bind_eq_some_iff.mp h
      obtain ⟨mode, -, h⟩ := Option.bind_eq_some_iff.mp h
      obtain ⟨temp, -, h⟩ := Option.bind_eq_some_iff.mp h
      obtain ⟨timer, -, h⟩ := Option.bind_eq_some_iff.mp h
      have hput : remind' = _ := stageRemind_spec hstage
      rw [ih h, hput, stagesRemind]

/-- Before a stage the table is not touched. -/
theorem stagesRemind_before {i k : Nat} {remind : List CStr} {stages : List CJson} (hk : k < i) :
    (stagesRemind i remind stages)[k]? = remind[k]? := by
  induction stages generalizing i remind with
  | nil => rfl
  | cons arraySub rest ih =>
      rw [stagesRemind, ih (by omega)]
      split
      · rfl
      · exact List.getElem?_set_ne (by omega)

theorem stagesRemind_get {i k : Nat} {remind : List CStr} {stages : List CJson}
    (hk : i + k < remind.length) :
    (stagesRemind i remind stages)[i + k]? = heldText (remind.drop i) stages k := by
  induction stages generalizing i k remind with
  | nil => simp [stagesRemind, heldText, List.getElem?_drop]
  | cons arraySub rest ih =>
      rw [stagesRemind]
      cases k with
      | zero =>
          rw [stagesRemind_before (by omega)]
          simp only [heldText, List.getElem?_cons_zero, Nat.add_zero, List.getElem?_drop]
          split
          · rfl
          · exact List.getElem?_set_self hk
      | succ k =>
          rw [show i + (k + 1) = i + 1 + k by omega]
          split
          · rw [ih (by omega)]
            simp only [heldText, List.getElem?_cons_succ, List.getElem?_drop]
            rw [show i + 1 + k = i + (k + 1) by omega]
          · rw [ih (by rw [List.length_set]; omega)]
            simp only [heldText, List.getElem?_cons_succ, List.getElem?_drop]
            rw [List.getElem?_set_ne (by omega), show i + 1 + k = i + (k + 1) by omega]

/-- The table behind a dish, index by index. -/
theorem getElem?_stagesRemind {remind : List CStr} {stages : List CJson} {k : Nat}
    (hk : k < remind.length) : (stagesRemind 0 remind stages)[k]? = heldText remind stages k := by
  have h := @stagesRemind_get 0 k remind stages (by omega)
  rwa [Nat.zero_add, List.drop_zero] at h

theorem getAttrSetValue_remind {root item : CJson} {a : CloudAttr} {remind : List CStr}
    {set : SetValue} (hitem : root.getObjectItem a.cloudKey = some item)
    (hset : a.isSettable = true) (h : getAttrSetValue a item remind = some set) :
    set.remind = dishRemind root remind a := by
  unfold dishRemind
  cases getAttrSetValue_cases h with
  | noStage ht hcmd hz => simp [hitem, hz]
  | @dish texts stages ht hcmd hz hstages =>
      have hput : texts = stagesRemind 0 remind item.children := setStages_remind hstages
      have hlen : texts.length = remind.length := by rw [hput, length_stagesRemind]
      have hm : a.isMultistage = true := by simp [CloudAttr.isMultistage, ht, hcmd]
      simp only [hm, hset, hitem, Bool.and_self, if_true, if_neg hz, ← hput]
      split
      · simp [List.map_const', hlen]
      · rfl
  | struct ht hcmd => simp [CloudAttr.isMultistage, hcmd]
  | name ht hs hkey hfits => simp [CloudAttr.isMultistage, ht]
  | string ht hs hkey => simp [CloudAttr.isMultistage, ht]
  | noNumber ht hs hnum => simp [CloudAttr.isMultistage, ht]
  | stringNum ht hs hnum hbytes => simp [CloudAttr.isMultistage, ht]
  | num ht hbytes => rcases ht with ht | ⟨n, ht⟩ <;> simp [CloudAttr.isMultistage, ht]

theorem respSetAttr_remind {root : CJson} {i len : Nat} {b : Board} {out : Board × Nat}
    {a : CloudAttr} (ha : b.dev.attr[i]? = some a) (h : respSetAttr root i b len = some out) :
    out.1.dev.remind = dishRemind root b.dev.remind a := by
  cases respSetAttr_turn h with
  | @skipped c hc hno =>
      obtain rfl := Option.some.inj (ha.symm.trans hc)
      unfold dishRemind
      by_cases hset : a.isSettable = true
      · rw [hno hset, ite_self]
      · simp [hset]
  | @unrecorded c item set hc hitem hset hval hbody =>
      obtain rfl := Option.some.inj (ha.symm.trans hc)
      exact getAttrSetValue_remind hitem hset hval
  | @recorded c item set body buf hc hitem hset hval hbody hbuf =>
      obtain rfl := Option.some.inj (ha.symm.trans hc)
      exact getAttrSetValue_remind hitem hset hval

/-- **The table behind a request**: every attribute has its turn. -/
theorem respSetFrame_remind {root : CJson} {b b' : Board} (h : respSetFrame root b = some b') :
    b'.dev.remind = b.dev.attr.foldl (dishRemind root) b.dev.remind := by
  let Inv : Nat → Board × Nat → Prop := fun i s =>
    s.1.dev.remind = (b.dev.attr.take i).foldl (dishRemind root) b.dev.remind
  have hstep : ∀ i a (s s' : Board × Nat), b.dev.attr[i]? = some a →
      s.1.dev.attr[i]? = some a → Inv i s →
      respSetAttr root i s.1 s.2 = some s' → Inv (i + 1) s' := by
    intro i a s s' ha hsa hrem hs
    show _ = (b.dev.attr.take (i + 1)).foldl (dishRemind root) b.dev.remind
    rw [respSetAttr_remind hsa hs, hrem, List.take_add_one, ha, Option.toList_some,
      List.foldl_append]
    rfl
  obtain ⟨done, len, hrem, hend⟩ := respSetFrame_turns (I := Inv) h (by simp [Inv]) hstep
  have hdone : b'.dev = done.dev := by rcases hend with ⟨-, rfl⟩ | ⟨-, rfl⟩ <;> rfl
  rw [hdone, hrem, List.take_length]

/-! ## What a report makes of it: nothing -/

theorem getAttrReportValue_remind {j : Nat} {b : Board} {resp : Members} {out : Board × Members}
    (h : getAttrReportValue j b resp = some out) : out.1.dev.remind = b.dev.remind := by
  obtain ⟨a, -, ⟨-, rfl⟩ | ⟨-, made, hmade, rfl⟩⟩ := getAttrReportValue_cases h
  · rfl
  · have hmade' : made.1.dev.remind = b.dev.remind := by
      rcases attrItem_cases hmade with ⟨hsame, -⟩ | ⟨-, -, -, hcut, -⟩ | ⟨-, -, -, hid⟩
      · rw [hsame]
      · rw [hcut]
        rfl
      · by_cases hf : Finds b.db.recipe b.dev.attr (cloudVal a.bytes)
        · obtain ⟨q, c, db, name, rep, -, -, -, -, -, hout⟩ := reportCookbookID_found hf hid
          rw [hout]
          rfl
        · rw [reportCookbookID_quiet hf hid]
    dsimp only
    split <;> exact hmade'

theorem sendDataRecord_remind {value : Nat → UInt8} {i j : Nat} {b : Board} {root : Members}
    {out : Board × Members} (h : sendDataRecord value i j b root = some out) :
    out.1.dev.remind = b.dev.remind := by
  obtain ⟨a, events, mid, -, -, -, hmid, hend⟩ := sendDataRecord_cases h
  have hrep : mid.1.dev.remind = b.dev.remind := (getAttrReportValue_remind hmid).trans rfl
  cases hend with
  | other hkey => exact hrep
  | off hkey ha' hc hoff => exact hrep
  | nameless hno => exact hrep
  | named hkey ha' hon hq hout => exact (getAttrReportValue_remind hout).trans hrep

/-- No report writes a reminder. -/
theorem reportCall_remind {call : ReportCall} {b b' : Board} (h : reportCall call b = some b') :
    b'.dev.remind = b.dev.remind := by
  let Same : Board × Members → Prop := fun s => s.1.dev.remind = b.dev.remind
  cases call with
  | sendData value valueLen =>
      rw [reportCall, sendDataToCloud_eq] at h
      obtain ⟨out, hout, rfl⟩ := Option.map_eq_some_iff.mp h
      exact foldlM_keeps (I := Same)
        (fun _ _ _ hs hf => (sendDataRecord_remind hf).trans hs) rfl hout
  | respGet root resp =>
      obtain ⟨out, hout, rfl⟩ := Option.map_eq_some_iff.mp h
      refine foldlM_keeps (I := Same) (fun s j s' hs hf => ?_) rfl hout
      obtain ⟨a, -, hf⟩ := Option.bind_eq_some_iff.mp hf
      split at hf
      · exact (getAttrReportValue_remind hf).trans hs
      · exact Option.some.inj hf ▸ hs
  | respGetall resp =>
      obtain ⟨out, hout, rfl⟩ := Option.map_eq_some_iff.mp h
      exact foldlM_keeps (I := Same)
        (fun _ _ _ hs hf => (getAttrReportValue_remind hf).trans hs) rfl hout
  | sendAll =>
      obtain ⟨out, hout, h⟩ := Option.bind_eq_some_iff.mp h
      obtain rfl := Option.some.inj h
      refine foldlM_keeps (I := Same) (fun s j s' hs hf => ?_) rfl hout
      obtain ⟨a, -, hf⟩ := Option.bind_eq_some_iff.mp hf
      obtain ⟨events, -, hf⟩ := Option.bind_eq_some_iff.mp hf
      exact (getAttrReportValue_remind hf).trans hs

/-! ## Runs -/

/-- The call sets no multi-stage dish. -/
def NoDish (attr : List CloudAttr) : CloudCall → Prop
  | .set root _ _ =>
      ∀ a ∈ attr, a.isMultistage = true → a.isSettable = true →
        root.getObjectItem a.cloudKey = none
  | .report _ => True

theorem dishRemind_quiet {root : CJson} {remind : List CStr} {a : CloudAttr}
    (h : a.isMultistage = true → a.isSettable = true → root.getObjectItem a.cloudKey = none) :
    dishRemind root remind a = remind := by
  unfold dishRemind
  split
  · rename_i hm
    obtain ⟨hm, hs⟩ := Bool.and_eq_true_iff.mp hm
    rw [h hm hs]
  · rfl

theorem foldl_dishRemind_quiet {root : CJson} {attr : List CloudAttr} {remind : List CStr}
    (h : ∀ a ∈ attr, a.isMultistage = true → a.isSettable = true →
      root.getObjectItem a.cloudKey = none) :
    attr.foldl (dishRemind root) remind = remind := by
  induction attr with
  | nil => rfl
  | cons a attr ih =>
      rw [List.foldl_cons, dishRemind_quiet (h a List.mem_cons_self)]
      exact ih fun a ha => h a (List.mem_cons_of_mem _ ha)

theorem step_remind {attr : List CloudAttr} {b b' : Board} {call : CloudCall}
    (hout : SameOutline attr b.dev.attr) (hno : NoDish attr call)
    (h : cloudMachine.step b call = some b') : b'.dev.remind = b.dev.remind := by
  rcases step_table h with ⟨root, now, rowid, b₁, rfl, hframe, hdev⟩ | ⟨⟨report, rfl⟩, -⟩
  · rw [hdev, respSetFrame_remind hframe]
    refine foldl_dishRemind_quiet fun a ha hm hs => ?_
    obtain ⟨j, hj⟩ := List.getElem?_of_mem ha
    obtain ⟨a₀, ha₀, ho⟩ := SameOutline.get (Eq.symm hout) hj
    rw [← CloudAttr.outline_cloudKey ho]
    exact hno a₀ (List.mem_of_getElem? ha₀) ((CloudAttr.outline_isMultistage ho).trans hm)
      ((CloudAttr.outline_isSettable ho).trans hs)
  · exact reportCall_remind h

/-- A run without another dish keeps the reminders. -/
theorem run_remind {attr : List CloudAttr} {b b' : Board} {calls : List CloudCall}
    (hout : SameOutline attr b.dev.attr) (hno : ∀ call ∈ calls, NoDish attr call)
    (h : cloudMachine.run b calls = some b') : b'.dev.remind = b.dev.remind := by
  let Inv : Board → Prop := fun s =>
    SameOutline attr s.dev.attr ∧ s.dev.remind = b.dev.remind
  have hstep : ∀ s call s', NoDish attr call → Inv s → cloudMachine.step s call = some s' →
      Inv s' := by
    rintro s call s' hcall ⟨ho, hr⟩ hs
    exact ⟨ho.trans (step_outline hs), (step_remind ho hcall hs).trans hr⟩
  exact (Machine.run_invariant hstep hno ⟨hout, rfl⟩ h).2

/-! ## The report of a stage -/

/-- The request sets the dish `CookbookParam`, by attribute `i`, and no attribute
behind that sets another one. -/
structure SetsDish (root : CJson) (attr : List CloudAttr) (i : Nat) (item : CJson) : Prop where
  dish : ∃ a, attr[i]? = some a ∧ a.cloudKey = cstr "CookbookParam" ∧ a.isMultistage = true ∧
    a.isSettable = true ∧ root.getObjectItem a.cloudKey = some item
  last : ∀ (k : Nat) (a : CloudAttr), i < k → attr[k]? = some a → a.isMultistage = true →
    a.isSettable = true → root.getObjectItem a.cloudKey = none

/-- The attribute is `MultiStageState`, and reported. -/
structure StateAttr (a : CloudAttr) : Prop where
  reported : a.isReported = true
  valueType : a.cloudValueType = .struct
  cmd : a.uartCmd = uartCmdMultistageState

/-- The report is made, that is, the text is looked up inside the table; and where
`current` is the number of a stage of the dish, it is the text of that stage. -/
def RemindRight (stages : List CJson) (current : UInt8) (key : CStr) (resp : Members)
    (report : Option (Board × Members)) : Prop :=
  ∃ out item, report = some out ∧ out.2 = resp ++ [(key, item)] ∧
    ∀ k stage, current.toNat = k + 1 → stages[k]? = some stage →
      item.getObjectItem (cstr "RemindText") = some (.string (stageText stage))

/-- The table in front of the turn of attribute `i`: it is empty there if the request
sets `MultiStageContent` as well. -/
def remindBefore (root : CJson) (attr : List CloudAttr) (i : Nat) (remind : List CStr) :
    List CStr :=
  (attr.take i).foldl (dishRemind root) remind

theorem length_dishRemind {root : CJson} {remind : List CStr} {a : CloudAttr} :
    (dishRemind root remind a).length = remind.length := by
  unfold dishRemind
  split
  · split
    · rfl
    · split
      · rfl
      · split
        · exact List.length_map _
        · exact length_stagesRemind
  · rfl

theorem length_remindBefore {root : CJson} {attr : List CloudAttr} {i : Nat}
    {remind : List CStr} : (remindBefore root attr i remind).length = remind.length := by
  unfold remindBefore
  generalize attr.take i = front
  induction front generalizing remind with
  | nil => rfl
  | cons a front ih => exact ih.trans length_dishRemind

theorem SetsDish.remind {root : CJson} {attr : List CloudAttr} {i : Nat} {item : CJson}
    (h : SetsDish root attr i item) (remind : List CStr) :
    attr.foldl (dishRemind root) remind =
      stagesRemind 0 (remindBefore root attr i remind) item.children := by
  obtain ⟨a, ha, hkey, hm, hs, hitem⟩ := h.dish
  obtain ⟨hi, rfl⟩ := List.getElem?_eq_some_iff.mp ha
  have hbehind : ∀ c ∈ attr.drop (i + 1), c.isMultistage = true → c.isSettable = true →
      root.getObjectItem c.cloudKey = none := by
    intro c hc
    obtain ⟨k, hk⟩ := List.getElem?_of_mem hc
    rw [List.getElem?_drop] at hk
    exact h.last (i + 1 + k) c (by omega) hk
  have hturn : ∀ r, dishRemind root r attr[i] = stagesRemind 0 r item.children := by
    intro r
    have hname : attr[i].cloudKey ≠ cstr "MultiStageContent" := by
      rw [hkey]
      decide
    simp only [dishRemind, hm, hs, hitem, Bool.and_self, if_true, hname, if_false]
    split
    · rename_i hz
      rw [List.eq_nil_of_length_eq_zero hz]
      rfl
    · rfl
  conv_lhs => rw [← List.take_append_drop i attr, List.drop_eq_getElem_cons hi]
  rw [List.foldl_append, List.foldl_cons, hturn, foldl_dishRemind_quiet hbehind]
  rfl

/-- The members of a reported stage. -/
def stateItem (cnt current remind : UInt8) (text : CStr) : CJson :=
  .object [(cstr "cnt", .number cnt.toNat), (cstr "current", .number current.toNat),
    (cstr "remind", .number remind.toNat), (cstr "RemindText", .string text)]

theorem getObjectItem_stateItem {cnt current remind : UInt8} {text : CStr} :
    (stateItem cnt current remind text).getObjectItem (cstr "RemindText") =
      some (.string text) := by
  have h₁ : caseInsensitiveEq (cstr "RemindText") (cstr "cnt") = false := by decide
  have h₂ : caseInsensitiveEq (cstr "RemindText") (cstr "current") = false := by decide
  have h₃ : caseInsensitiveEq (cstr "RemindText") (cstr "remind") = false := by decide
  simp [CJson.getObjectItem, stateItem, h₁, h₂, h₃, caseInsensitiveEq_refl]

/-- The report of a stage looks its text up at the number of the stage. -/
theorem getAttrReportValue_stage {j : Nat} {b : Board} {a : CloudAttr} {cnt current remind : UInt8}
    {rest : List UInt8} {resp : Members} (ha : b.dev.attr[j]? = some a) (hs : StateAttr a)
    (hv : a.value = cnt :: current :: remind :: rest) (hr : remind ≠ 0) :
    getAttrReportValue j b resp = b.dev.remind[current.toNat]?.map fun text =>
      (b.noteReported j, resp ++ [(a.cloudKey, stateItem cnt current remind text)]) := by
  simp only [getAttrReportValue, ha, Option.bind_eq_bind, Option.bind_some, hs.reported,
    Bool.not_true, Bool.false_eq_true, if_false, attrItem, hs.valueType, if_true, structItem,
    hs.cmd, hv, List.getElem?_cons_zero, List.getElem?_cons_succ, ne_eq, hr, not_false_eq_true]
  cases b.dev.remind[current.toNat]? with
  | none => rfl
  | some text => rfl

/-- The same, for these bytes of a frame. -/
theorem getAttrReportValue_state {j : Nat} {b : Board} {a : CloudAttr} {cnt current remind : UInt8}
    {rest : List UInt8} {resp : Members} (ha : b.dev.attr[j]? = some a) (hs : StateAttr a)
    (hr : remind ≠ 0) :
    getAttrReportValue j (b.setValue j (cnt :: current :: remind :: rest)) resp =
      b.dev.remind[current.toNat]?.map fun text =>
        ((b.setValue j (cnt :: current :: remind :: rest)).noteReported j,
          resp ++ [(a.cloudKey, stateItem cnt current remind text)]) :=
  @getAttrReportValue_stage j _ { a with value := cnt :: current :: remind :: rest } cnt current
    remind rest resp (Board.setValue_get_self ha) ⟨hs.reported, hs.valueType, hs.cmd⟩ rfl hr

/-- After a SET of a dish, and any requests and reports that set no other, a report of
stage `current` with a reminder is right exactly when `current` is an index of the table
and, if it is the number of a stage of the dish, the text of that stage is the one held
at this index: that of the stage behind it or, if that has none, what was there before
the stages were written. -/
theorem remind_right_iff (root : CJson) (now rowid : Int) (b b' : Board) (calls : List CloudCall)
    (i j : Nat) (item : CJson) (a : CloudAttr) (cnt current remind : UInt8) (rest : List UInt8)
    (resp : Members) (hdish : SetsDish root b.dev.attr i item)
    (hcalls : ∀ call ∈ calls, NoDish b.dev.attr call)
    (hrun : cloudMachine.run b (.set root now rowid :: calls) = some b')
    (ha : b'.dev.attr[j]? = some a) (hstate : StateAttr a) (hremind : remind ≠ 0) :
    RemindRight item.children current a.cloudKey resp
        (getAttrReportValue j (b'.setValue j (cnt :: current :: remind :: rest)) resp) ↔
      current.toNat < b.dev.remind.length ∧
        ∀ k stage, current.toNat = k + 1 → item.children[k]? = some stage →
          heldText (remindBefore root b.dev.attr i b.dev.remind) item.children (k + 1) =
            some (stageText stage) := by
  obtain ⟨b₁, hset, hrun⟩ := Machine.run_cons.mp hrun
  have htable : b'.dev.remind =
      stagesRemind 0 (remindBefore root b.dev.attr i b.dev.remind) item.children := by
    rw [run_remind (step_outline hset) hcalls hrun]
    rcases step_table hset with ⟨root', now', rowid', b₂, hcall, hframe, hdev⟩ | ⟨⟨report, hcall⟩, -⟩
    · obtain ⟨rfl, -, -⟩ := CloudCall.set.inj hcall
      rw [hdev, respSetFrame_remind hframe, hdish.remind]
    · cases hcall
  have hlen : b'.dev.remind.length = b.dev.remind.length := by
    rw [htable, length_stagesRemind, length_remindBefore]
  have hheld : current.toNat < b.dev.remind.length → b'.dev.remind[current.toNat]? =
      heldText (remindBefore root b.dev.attr i b.dev.remind) item.children current.toNat := by
    intro hlt
    rw [htable]
    exact getElem?_stagesRemind (by rwa [length_remindBefore])
  rw [getAttrReportValue_state ha hstate hremind]
  constructor
  · rintro ⟨out, made, hout, hresp, htext⟩
    obtain ⟨text, hget, rfl⟩ := Option.map_eq_some_iff.mp hout
    have hlt : current.toNat < b.dev.remind.length :=
      hlen ▸ (List.getElem?_eq_some_iff.mp hget).1
    refine ⟨hlt, fun k stage hk hstage => ?_⟩
    obtain ⟨-, rfl⟩ := Prod.mk.inj (List.cons.inj (List.append_cancel_left hresp)).1
    have hsame := htext k stage hk hstage
    rw [getObjectItem_stateItem] at hsame
    obtain rfl := CJson.string.inj (Option.some.inj hsame)
    rw [← hk, ← hheld hlt, hget]
  · rintro ⟨hlt, htext⟩
    obtain ⟨text, hget⟩ : ∃ text, b'.dev.remind[current.toNat]? = some text :=
      ⟨_, List.getElem?_eq_getElem (by rwa [hlen])⟩
    rw [hget]
    refine ⟨_, stateItem cnt current remind text, rfl, rfl, fun k stage hk hstage => ?_⟩
    have hsame := htext k stage hk hstage
    rw [← hk, ← hheld hlt, hget] at hsame
    rw [getObjectItem_stateItem, Option.some.inj hsame]

/-! ## A dish of two stages -/

/-- A stage with this reminder. -/
def remindStage (text : String) : CJson :=
  .object [(cstr "Mode", .number 35), (cstr "Temp", .number 100), (cstr "Timer", .number 20),
    (cstr "RemindText", .string (cstr text))]

/-- A SET of a dish with these reminders. -/
def remindRequest (texts : List String) : CJson :=
  .object [(cstr "CookbookParam", .array (texts.map remindStage))]

/-- `CookbookParam` and `MultiStageState`, as the profile has them. -/
def dishBoard : Board :=
  startBoard noRecipes
    [⟨cstr "CookbookParam", .struct, .attrReportCtrl, 76, 13, List.replicate 13 0⟩,
      ⟨cstr "MultiStageState", .struct, .attrReportCtrl, 77, 3, [0, 0, 0]⟩]

theorem setsDish_remindRequest (texts : List String) :
    SetsDish (remindRequest texts) dishBoard.dev.attr 0 (.array (texts.map remindStage)) where
  dish := ⟨_, rfl, rfl, by decide, by decide, by
    simp [remindRequest, CJson.getObjectItem, caseInsensitiveEq_refl]⟩
  last := by
    intro k a hk ha hm
    cases k with
    | zero => exact absurd hk (Nat.lt_irrefl 0)
    | succ k =>
        cases k with
        | zero =>
            obtain rfl := Option.some.inj ha
            exact absurd hm (by decide)
        | succ k => cases ha

/-- With one text for both stages the report of the first is right. -/
theorem remind_right_same :
    ∃ b', cloudMachine.run dishBoard [.set (remindRequest ["Turn", "Turn"]) 0 1,
        .report (.respGetall [])] = some b' ∧
      RemindRight [remindStage "Turn", remindStage "Turn"] 1 (cstr "MultiStageState") []
        (getAttrReportValue 1 (b'.setValue 1 [2, 1, 1]) []) := by
  have hrun : ((cloudMachine.run dishBoard [.set (remindRequest ["Turn", "Turn"]) 0 1,
      .report (.respGetall [])]).bind fun b' => b'.dev.attr[1]?) =
      some ⟨cstr "MultiStageState", .struct, .attrReportCtrl, 77, 3, [0, 0, 0]⟩ := by
    decide +kernel
  obtain ⟨b', hb', ha⟩ := Option.bind_eq_some_iff.mp hrun
  refine ⟨b', hb', ?_⟩
  refine (remind_right_iff _ 0 1 dishBoard b' _ 0 1 _ _ 2 1 1 [] []
    (setsDish_remindRequest ["Turn", "Turn"]) ?_ hb' ha ⟨by decide, rfl, rfl⟩ (by decide)).mpr
    ⟨by decide, ?_⟩
  · intro call hcall
    obtain rfl := List.mem_singleton.mp hcall
    trivial
  · intro k stage hk hstage
    obtain rfl : k = 0 := by simpa using hk.symm
    obtain rfl := Option.some.inj hstage
    decide

/-- With two texts it has that of the second, and the report of a third stage reads
behind the table. -/
theorem remind_wrong :
    ∃ b', cloudMachine.run dishBoard [.set (remindRequest ["Turn", "Serve"]) 0 1] = some b' ∧
      ¬ RemindRight [remindStage "Turn", remindStage "Serve"] 1 (cstr "MultiStageState") []
        (getAttrReportValue 1 (b'.setValue 1 [2, 1, 1]) []) ∧
      getAttrReportValue 1 (b'.setValue 1 [2, 3, 1]) [] = none := by
  have hrun : ((cloudMachine.run dishBoard [.set (remindRequest ["Turn", "Serve"]) 0 1]).bind
      fun b' => b'.dev.attr[1]?.map fun a => (a, b'.dev.remind)) =
      some (⟨cstr "MultiStageState", .struct, .attrReportCtrl, 77, 3, [0, 0, 0]⟩,
        [cstr "Turn", cstr "Serve", []]) := by
    decide +kernel
  obtain ⟨b', hb', hread⟩ := Option.bind_eq_some_iff.mp hrun
  obtain ⟨a, ha, hread⟩ := Option.map_eq_some_iff.mp hread
  obtain ⟨rfl, htable⟩ := Prod.mk.inj hread
  have hstate : StateAttr ⟨cstr "MultiStageState", .struct, .attrReportCtrl, 77, 3, [0, 0, 0]⟩ :=
    ⟨by decide, rfl, rfl⟩
  refine ⟨b', hb', ?_, ?_⟩
  · rw [getAttrReportValue_state ha hstate (by decide), htable]
    rintro ⟨out, item, hout, hresp, htext⟩
    obtain rfl := Option.some.inj hout
    obtain ⟨-, rfl⟩ := Prod.mk.inj (List.cons.inj (List.append_cancel_left hresp)).1
    have hsame := htext 0 _ rfl rfl
    rw [getObjectItem_stateItem] at hsame
    exact absurd (CJson.string.inj (Option.some.inj hsame)) (by decide)
  · rw [getAttrReportValue_state ha hstate (by decide), htable]
    rfl

end X50
