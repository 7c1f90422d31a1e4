/-
# `X50.CloudFrame` — reports and the cooking history

The four ways to make a report, as calls on the board, and what they leave of
the history.  A report looks read-only; it is, unless it covers a `CookbookID`
that looks a recipe up (`ReportCall.LooksUp`), in which case the callback that
reads the recipe also puts it into the in-memory list.
-/
import X50.CloudPaths

namespace X50

open X50.Lib

/-- The report paths. -/
inductive ReportCall where
  /-- `send_data_to_cloud`, with the memory behind its pointer -/
  | sendData (value : Nat → UInt8) (valueLen : Nat)
  /-- `cloud_resp_get` -/
  | respGet (root : CJson) (resp : Members)
  /-- `cloud_resp_getall` -/
  | respGetall (resp : Members)
  /-- `send_all_to_cloud` -/
  | sendAll

/-- The board behind a report. -/
def reportCall : ReportCall → Board → Option Board
  | .sendData value valueLen, b => sendDataToCloud value valueLen b
  | .respGet root resp, b => (cloudRespGet root b resp).map (·.1)
  | .respGetall resp, b => (cloudRespGetall b resp).map (·.1)
  | .sendAll, b => sendAllToCloud b

/-- The request names attribute `j`. -/
def Named (root : CJson) (attr : List CloudAttr) (j : Nat) : Prop :=
  ∃ a ∈ attr[j]?, root.hasObjectItem a.cloudKey

instance (root : CJson) (attr : List CloudAttr) (j : Nat) : Decidable (Named root attr j) :=
  inferInstanceAs (Decidable (∃ a ∈ attr[j]?, _))

/-! ## The four loops are loops of turns -/

theorem turns_sendData {value : Nat → UInt8} {recipe : RecipeTable} :
    Turns (fun out r => sendDataRecord value r.1 r.2 out.1 out.2) (writeRecord value) recipe
      (fun t r => LooksUp recipe (writeRecord value t r) r.2)
      (fun t r => RecordSeen (writeRecord value t r) r.2) := by
  intro t out r out' hk hr hout
  exact hr ▸ (sendDataRecord_turn hk hout).1

theorem turns_respGet {root : CJson} {recipe : RecipeTable} :
    Turns (fun out i => do
        let attr ← out.1.dev.attr[i]?
        if root.hasObjectItem attr.cloudKey then getAttrReportValue i out.1 out.2 else pure out)
      (fun t _ => t) recipe (fun t j => Named root t j ∧ LooksUp recipe t j)
      (fun t j k => Named root t j ∧ k = j ∧ Appears t j) := by
  intro t out j out' hk hr hout
  obtain ⟨a, ha, hout⟩ := Option.bind_eq_some_iff.mp hout
  have hnamed : Named root t j ↔ root.hasObjectItem a.cloudKey = true := by
    obtain ⟨a₀, ha₀, hl⟩ := hk.sameLayout.symm.get ha
    rw [← CloudAttr.layout_cloudKey hl]
    constructor
    · rintro ⟨c, hc, hn⟩
      rwa [Option.some.inj (ha₀.symm.trans hc)]
    · exact fun hn => ⟨a₀, ha₀, hn⟩
  split at hout
  · rename_i hn
    have hturn := (getAttrReportValue_visit hout).turn hk
    simpa only [hnamed.mpr hn, true_and, hr] using hturn
  · rename_i hn
    obtain rfl := Option.some.inj hout
    exact Turn.skip hk (fun h => hn (hnamed.mp h.1)) fun k h => hn (hnamed.mp h.1)

theorem turns_respGetall {recipe : RecipeTable} :
    Turns (fun out i => getAttrReportValue i out.1 out.2) (fun t _ => t) recipe (LooksUp recipe)
      (fun t j k => k = j ∧ Appears t j) := by
  intro t out j out' hk hr hout
  exact hr ▸ (getAttrReportValue_visit hout).turn hk

theorem turns_sendAll {recipe : RecipeTable} :
    Turns (fun out i => do
        let attr ← out.1.dev.attr[i]?
        let events ← getAttrReportEvent attr attr.value.head? true
        getAttrReportValue i (out.1.addOut events) out.2)
      (fun t _ => t) recipe (LooksUp recipe) (fun t j k => k = j ∧ Appears t j) := by
  intro t out j out' hk hr hout
  obtain ⟨a, -, hout⟩ := Option.bind_eq_some_iff.mp hout
  obtain ⟨events, -, hout⟩ := Option.bind_eq_some_iff.mp hout
  have hk' : Kept t (out.1.addOut events).dev.attr := hk
  have hturn := (getAttrReportValue_visit hout).turn hk'
  have hrec : (out.1.addOut events).db.recipe = recipe := hr
  rw [hrec] at hturn
  exact hturn.from ⟨rfl, rfl, rfl⟩ rfl rfl ⟨rfl, rfl, rfl⟩ rfl id

/-- `send_data_to_cloud` is a loop over the records of its payload. -/
theorem sendDataToCloud_eq {value : Nat → UInt8} {valueLen : Nat} {b : Board} :
    sendDataToCloud value valueLen b =
      ((records value valueLen b.dev.attr).foldlM
        (fun out r => sendDataRecord value r.1 r.2 out.1 out.2) (b, [])).map
        fun out => out.1.reportMsg out.2 := by
  rw [sendDataToCloud, sendDataLoop_eq (Nat.succ_pos _) (by omega), records, Option.map_eq_bind]
  rfl

/-- A report writes nothing that a SET request writes, and keeps the layout. -/
theorem report_keeps_requests {call : ReportCall} {b b' : Board}
    (h : reportCall call b = some b') :
    SameRequests b b' ∧ SameLayout b.dev.attr b'.dev.attr := by
  cases call with
  | sendData value valueLen =>
      rw [reportCall, sendDataToCloud_eq] at h
      obtain ⟨out, hout, rfl⟩ := Option.map_eq_some_iff.mp h
      have hreq := loop_requests turns_sendData rfl hout
      refine ⟨⟨hreq.1, hreq.2, hreq.3⟩, ?_⟩
      exact foldlM_keeps (I := fun s => SameLayout b.dev.attr s.1.dev.attr)
        (fun _ _ _ hs hf => hs.trans (sendDataRecord_sameLayout hf)) (.refl _) hout
  | respGet root resp =>
      obtain ⟨out, hout, rfl⟩ := Option.map_eq_some_iff.mp h
      exact ⟨loop_requests turns_respGet rfl hout,
        loop_sameLayout turns_respGet (fun _ _ => .refl _) rfl hout⟩
  | respGetall resp =>
      obtain ⟨out, hout, rfl⟩ := Option.map_eq_some_iff.mp h
      exact ⟨loop_requests turns_respGetall rfl hout,
        loop_sameLayout turns_respGetall (fun _ _ => .refl _) rfl hout⟩
  | sendAll =>
      obtain ⟨out, hout, h⟩ := Option.bind_eq_some_iff.mp h
      obtain rfl := Option.some.inj h
      have hreq := loop_requests turns_sendAll rfl hout
      exact ⟨⟨hreq.1, hreq.2, hreq.3⟩,
        (loop_sameLayout turns_sendAll (fun _ _ => .refl _) rfl hout :)⟩

/-! ## The history -/

/-- The report looks a recipe up and finds it: it covers a `CookbookID` that is
reported as a positive number while `CookbookName` is empty, and the `recipe`
table has a row for it. -/
def ReportCall.LooksUp : ReportCall → Board → Prop
  | .sendData value valueLen, b =>
      Triggers (fun t r => X50.LooksUp b.db.recipe (writeRecord value t r) r.2)
        (writeRecord value) b.dev.attr (records value valueLen b.dev.attr)
  | .respGet root _, b =>
      ∃ j ∈ List.range b.dev.attr.length,
        Named root b.dev.attr j ∧ X50.LooksUp b.db.recipe b.dev.attr j
  | .respGetall _, b =>
      ∃ j ∈ List.range b.dev.attr.length, X50.LooksUp b.db.recipe b.dev.attr j
  | .sendAll, b =>
      ∃ j ∈ List.range b.dev.attr.length, X50.LooksUp b.db.recipe b.dev.attr j

instance : (call : ReportCall) → (b : Board) → Decidable (call.LooksUp b)
  | .sendData _ _, _ => inferInstanceAs (Decidable (Triggers _ _ _ _))
  | .respGet _ _, _ => inferInstanceAs (Decidable (∃ j ∈ List.range _, _ ∧ _))
  | .respGetall _, _ => inferInstanceAs (Decidable (∃ j ∈ List.range _, _))
  | .sendAll, _ => inferInstanceAs (Decidable (∃ j ∈ List.range _, _))

/-- A report keeps the history exactly when it looks no recipe up: for every
board and each of the four report paths. -/
theorem report_keeps_history_iff (call : ReportCall) (b b' : Board)
    (h : reportCall call b = some b') : SameHistory b.db b'.db ↔ ¬ call.LooksUp b := by
  cases call with
  | sendData value valueLen =>
      rw [reportCall, sendDataToCloud_eq] at h
      obtain ⟨out, hout, rfl⟩ := Option.map_eq_some_iff.mp h
      have hloop := loop_keeps_history_iff turns_sendData (Kept.refl _) rfl rfl hout
      exact Iff.trans ⟨fun h => ⟨h.1, h.2, h.3⟩, fun h => ⟨h.1, h.2, h.3⟩⟩ hloop
  | respGet root resp =>
      obtain ⟨out, hout, rfl⟩ := Option.map_eq_some_iff.mp h
      have hloop := loop_keeps_history_iff turns_respGet (Kept.refl _) rfl rfl hout
      exact hloop.trans (not_congr triggers_const)
  | respGetall resp =>
      obtain ⟨out, hout, rfl⟩ := Option.map_eq_some_iff.mp h
      have hloop := loop_keeps_history_iff turns_respGetall (Kept.refl _) rfl rfl hout
      exact hloop.trans (not_congr triggers_const)
  | sendAll =>
      obtain ⟨out, hout, h⟩ := Option.bind_eq_some_iff.mp h
      obtain rfl := Option.some.inj h
      have hloop := loop_keeps_history_iff turns_sendAll (Kept.refl _) rfl rfl hout
      exact Iff.trans ⟨fun h => ⟨h.1, h.2, h.3⟩, fun h => ⟨h.1, h.2, h.3⟩⟩
        (hloop.trans (not_congr triggers_const))

/-! ## A frame with a `CookbookID` -/

/-- A recipe table of one row. -/
def oneRecipe : RecipeTable where
  rows := [{ History.zero with id := 1, seqid := 7, dishName := cstr "Fish" }]
  idPos := by decide
  idNodup := by decide
  seqidNodup := by decide
  collectZero := by decide

/-- A board with these attributes, before anything has happened. -/
def startBoard (recipe : RecipeTable) (attr : List CloudAttr) : Board where
  dev := { softwareVer := cstr "1.0.7", remind := [[], [], []], attr := attr }
  db := databaseTaskInit Table.empty recipe []
  uartBuf := List.replicate 256 0
  mac := []
  heap := []
  handed := []
  reported := []
  recorded := []

/-- `CookbookID` and `CookbookName`, as the profile has them. -/
def cookbookBoard (recipe : RecipeTable) : Board :=
  startBoard recipe
    [⟨cstr "CookbookID", .num, .attrReportCtrl, 80, 4, List.replicate 4 0⟩,
      ⟨cstr "CookbookName", .string, .attrReportCtrl, 0, 64, List.replicate 64 0⟩]

/-- The payload of a frame that sets `CookbookID` to 7. -/
def cookbookPayload (k : Nat) : UInt8 := [80, 0, 0, 0, 7].getD k 0

/-- No recipe has that number, and the history is as before. -/
theorem report_keeps_history_unknown :
    ∃ b', reportCall (.sendData cookbookPayload 5) (cookbookBoard noRecipes) = some b' ∧
      SameHistory (cookbookBoard noRecipes).db b'.db := by
  have hrun : (reportCall (.sendData cookbookPayload 5) (cookbookBoard noRecipes)).isSome = true := by
    decide +kernel
  obtain ⟨b', hb'⟩ := Option.isSome_iff_exists.mp hrun
  refine ⟨b', hb', (report_keeps_history_iff _ _ _ hb').mpr ?_⟩
  decide +kernel

/-- One has, and is in the history now. -/
theorem report_changes_history :
    ∃ b', reportCall (.sendData cookbookPayload 5) (cookbookBoard oneRecipe) = some b' ∧
      ¬ SameHistory (cookbookBoard oneRecipe).db b'.db := by
  have hrun : ((reportCall (.sendData cookbookPayload 5) (cookbookBoard oneRecipe)).map
      fun b' => b'.db.historyList.length) = some 1 := by decide +kernel
  obtain ⟨b', hb', hlen⟩ := Option.map_eq_some_iff.mp hrun
  refine ⟨b', hb', fun hsame => ?_⟩
  rw [hsame.historyList] at hlen
  exact absurd hlen (by decide)

end X50
