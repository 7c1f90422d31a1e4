/-
# `X50.CloudAccess` — the access mode of an attribute

The profile gives every attribute a `funType`: 0 for report and control, 1 for
report, 2 for control.  SET and the reports check it, on `cloud_fun_type` of the
table; but `cloud_parse_json` never puts it there, and every attribute of every
profile is 0.

`cloudMachine` is the board under requests and reports.  `access_enforced_iff`
says which of its runs keep to the profile all the same: those in which no call
touches an attribute whose mode forbids it.
-/
import X50.CloudFrame
import X50.CloudSet

namespace X50

open X50.Lib

/-! ## What a SET request records -/

/-- `get_attr_set_value` makes a record, that is, does not return 0. -/
def givesRecord (a : CloudAttr) (item : CJson) : Bool :=
  match a.cloudValueType with
  | .struct => !(a.uartCmd == uartCmdMultistageSet && item.getArraySize == 0)
  | .stringNum => (item.valuestring.bind stol).isSome
  | .string => a.cloudKey != cstr "CookbookName"
  | _ => true

/-- The request gives attribute `j` a record. -/
def Recorded (root : CJson) (attr : List CloudAttr) (j : Nat) : Prop :=
  ∃ a ∈ attr[j]?, a.isSettable ∧ ((root.getObjectItem a.cloudKey).any (givesRecord a)) = true

instance (root : CJson) (attr : List CloudAttr) (j : Nat) : Decidable (Recorded root attr j) :=
  inferInstanceAs (Decidable (∃ a ∈ attr[j]?, _ ∧ _))

theorem getAttrSetValue_body {a : CloudAttr} {item : CJson} {remind : List CStr} {set : SetValue}
    (h : getAttrSetValue a item remind = some set) : set.body.isSome = givesRecord a item := by
  cases getAttrSetValue_cases h with
  | noStage ht hcmd hz => simp [givesRecord, ht, hcmd, hz]
  | dish ht hcmd hz hstages => simp [givesRecord, ht, hz]
  | struct ht hcmd => simp [givesRecord, ht, hcmd]
  | name ht hs hkey hfits => simp [givesRecord, ht, hkey]
  | string ht hs hkey => simp [givesRecord, ht, hkey]
  | noNumber ht hs hnum => simp [givesRecord, ht, hs, hnum]
  | stringNum ht hs hnum hbytes => simp [givesRecord, ht, hs, hnum]
  | num ht hbytes => rcases ht with ht | ⟨n, ht⟩ <;> simp [givesRecord, ht]

theorem recorded_iff {root : CJson} {attr : List CloudAttr} {i : Nat} {a : CloudAttr}
    (ha : attr[i]? = some a) : Recorded root attr i ↔
      a.isSettable = true ∧ (root.getObjectItem a.cloudKey).any (givesRecord a) = true := by
  constructor
  · rintro ⟨c, hc, hs⟩
    rwa [Option.some.inj (ha.symm.trans hc)]
  · exact fun hs => ⟨a, ha, hs⟩

/-- One turn of `cloud_resp_set`: another attribute is not touched, and this one
is recorded or not. -/
theorem respSetAttr_spec {root : CJson} {i len : Nat} {b : Board} {out : Board × Nat}
    (h : respSetAttr root i b len = some out) :
    out.1.recorded = b.recorded ++ (if Recorded root b.dev.attr i then [i] else []) ∧
      out.1.reported = b.reported ∧ out.1.dev.attr.length = b.dev.attr.length ∧
      ∀ k, k ≠ i → out.1.dev.attr[k]? = b.dev.attr[k]? := by
  have hskip : ¬ Recorded root b.dev.attr i → b.recorded =
      b.recorded ++ (if Recorded root b.dev.attr i then [i] else []) := by
    intro hn
    rw [if_neg hn, List.append_nil]
  have hother : ∀ (set : SetValue) k, k ≠ i →
      (b.dev.attr.set i set.ptr)[k]? = b.dev.attr[k]? :=
    fun set k hk => List.getElem?_set_ne hk.symm
  cases respSetAttr_turn h with
  | @skipped a ha hno =>
      refine ⟨hskip ?_, rfl, rfl, fun _ _ => rfl⟩
      rw [recorded_iff ha]
      rintro ⟨hset, hany⟩
      rw [hno hset] at hany
      cases hany
  | @unrecorded a item set ha hitem hset hval hbody =>
      refine ⟨hskip ?_, rfl, List.length_set, hother set⟩
      rw [recorded_iff ha, hitem]
      have hgives := getAttrSetValue_body hval
      rw [hbody] at hgives
      simp [← hgives]
  | @recorded a item set body buf ha hitem hset hval hbody hbuf =>
      have hyes : Recorded root b.dev.attr i := by
        rw [recorded_iff ha, hitem]
        have hgives := getAttrSetValue_body hval
        rw [hbody] at hgives
        exact ⟨hset, hgives.symm⟩
      exact ⟨by rw [if_pos hyes], rfl, List.length_set, hother set⟩

/-- **The rule for `cloud_resp_set`**: an invariant that counts the turns.  When its turn
comes, an attribute is as the request has found it. -/
theorem respSetFrame_turns {root : CJson} {b b' : Board} {I : Nat → Board × Nat → Prop}
    (h : respSetFrame root b = some b') (h0 : I 0 (b, 0))
    (hstep : ∀ i a (s s' : Board × Nat), b.dev.attr[i]? = some a → s.1.dev.attr[i]? = some a →
      I i s → respSetAttr root i s.1 s.2 = some s' → I (i + 1) s') :
    ∃ done len, I b.dev.attr.length (done, len) ∧
      (len = 0 ∧ b' = done ∨ (0 < len ∧ len ≤ done.uartBuf.length) ∧
        b' = { done with handed := done.handed ++ [done.uartBuf.take len] }) := by
  obtain ⟨done, len, hloop, hend⟩ := respSetFrame_cases h
  have hturn : ∀ i (s s' : Board × Nat), i < b.dev.attr.length →
      (I i s ∧ ∀ k, i ≤ k → s.1.dev.attr[k]? = b.dev.attr[k]?) →
      respSetAttr root i s.1 s.2 = some s' →
      I (i + 1) s' ∧ ∀ k, i + 1 ≤ k → s'.1.dev.attr[k]? = b.dev.attr[k]? := by
    rintro i s s' hi ⟨hinv, hahead⟩ hs
    have hget : b.dev.attr[i]? = some b.dev.attr[i] := List.getElem?_eq_getElem hi
    refine ⟨hstep i _ s s' hget ((hahead i le_rfl).trans hget) hinv hs, fun k hk => ?_⟩
    rw [(respSetAttr_spec hs).2.2.2 k (by omega)]
    exact hahead k (by omega)
  exact ⟨done, len, (foldlM_range ⟨h0, fun _ _ => rfl⟩ hturn hloop).1, hend⟩

/-- **A SET request** records the attributes it names, those and no others. -/
theorem respSetFrame_recorded {root : CJson} {b b' : Board} (h : respSetFrame root b = some b') :
    b'.reported = b.reported ∧ ∃ l, b'.recorded = b.recorded ++ l ∧
      ∀ j, j ∈ l ↔ j < b.dev.attr.length ∧ Recorded root b.dev.attr j := by
  let Inv : Nat → Board × Nat → Prop := fun i out =>
    out.1.reported = b.reported ∧
      ∃ l, out.1.recorded = b.recorded ++ l ∧ ∀ j, j ∈ l ↔ j < i ∧ Recorded root b.dev.attr j
  have hstep : ∀ i a (s s' : Board × Nat), b.dev.attr[i]? = some a →
      s.1.dev.attr[i]? = some a → Inv i s →
      respSetAttr root i s.1 s.2 = some s' → Inv (i + 1) s' := by
    rintro i a s s' ha hsa ⟨hrep, l, hl, hmem⟩ hs
    obtain ⟨hrec, hrep', -, -⟩ := respSetAttr_spec hs
    have hsame : Recorded root s.1.dev.attr i ↔ Recorded root b.dev.attr i := by
      simp only [Recorded, hsa, ha]
    refine ⟨hrep'.trans hrep, l ++ (if Recorded root s.1.dev.attr i then [i] else []), ?_,
      fun j => ?_⟩
    · rw [hrec, hl, List.append_assoc]
    · rw [List.mem_append, hmem]
      by_cases hr : Recorded root b.dev.attr i
      · rw [if_pos (hsame.mpr hr), List.mem_singleton]
        constructor
        · rintro (⟨hj, hjr⟩ | rfl)
          · exact ⟨by omega, hjr⟩
          · exact ⟨by omega, hr⟩
        · rintro ⟨hj, hjr⟩
          by_cases hji : j = i
          · exact Or.inr hji
          · exact Or.inl ⟨by omega, hjr⟩
      · rw [if_neg fun hs => hr (hsame.mp hs)]
        simp only [List.not_mem_nil, or_false]
        constructor
        · exact fun hj => ⟨by omega, hj.2⟩
        · rintro ⟨hj, hjr⟩
          refine ⟨?_, hjr⟩
          have hne : j ≠ i := fun hji => hr (hji ▸ hjr)
          omega
  obtain ⟨done, len, ⟨hrep, l, hl, hmem⟩, hend⟩ :=
    respSetFrame_turns (I := Inv) h ⟨rfl, [], by simp, by simp⟩ hstep
  have hout : b'.reported = done.reported ∧ b'.recorded = done.recorded := by
    rcases hend with ⟨-, rfl⟩ | ⟨-, rfl⟩
    · exact ⟨rfl, rfl⟩
    · exact ⟨rfl, rfl⟩
  exact ⟨hout.1.trans hrep, l, hout.2.trans hl, hmem⟩

/-! ## What a report puts in -/

section Puts

variable (bad : Nat → Prop) (recipe : RecipeTable)

/-- A report of attribute `j` puts in something bad: itself, or the
`CookbookName` it looks up. -/
def PlacePuts (t : List CloudAttr) (j : Nat) : Prop :=
  (Appears t j ∧ bad j) ∨ (LooksUp recipe t j ∧ ∃ q ∈ nameAt t, bad q)

/-- A record for attribute `j` does: the report of `j`, or that of `CookbookName`
when the record turns the multi mode on. -/
def RecordPuts (t : List CloudAttr) (j : Nat) : Prop :=
  PlacePuts bad recipe t j ∨ (MultiModeOn t j ∧ ∃ q ∈ nameAt t, Appears t q ∧ bad q)

instance [DecidablePred bad] (t : List CloudAttr) (j : Nat) :
    Decidable (PlacePuts bad recipe t j) :=
  inferInstanceAs (Decidable ((_ ∧ _) ∨ (_ ∧ ∃ q ∈ nameAt t, _)))

instance [DecidablePred bad] (t : List CloudAttr) (j : Nat) :
    Decidable (RecordPuts bad recipe t j) :=
  inferInstanceAs (Decidable (_ ∨ (_ ∧ ∃ q ∈ nameAt t, _ ∧ _)))

end Puts

/-- The report puts in a bad attribute. -/
def ReportCall.Puts (bad : Nat → Prop) : ReportCall → Board → Prop
  | .sendData value valueLen, b =>
      Triggers (fun t r => RecordPuts bad b.db.recipe (writeRecord value t r) r.2)
        (writeRecord value) b.dev.attr (records value valueLen b.dev.attr)
  | .respGet root _, b =>
      ∃ j ∈ List.range b.dev.attr.length,
        Named root b.dev.attr j ∧ PlacePuts bad b.db.recipe b.dev.attr j
  | .respGetall _, b =>
      ∃ j ∈ List.range b.dev.attr.length, PlacePuts bad b.db.recipe b.dev.attr j
  | .sendAll, b =>
      ∃ j ∈ List.range b.dev.attr.length, PlacePuts bad b.db.recipe b.dev.attr j

instance (bad : Nat → Prop) [DecidablePred bad] :
    (call : ReportCall) → (b : Board) → Decidable (call.Puts bad b)
  | .sendData _ _, _ => inferInstanceAs (Decidable (Triggers _ _ _ _))
  | .respGet _ _, _ => inferInstanceAs (Decidable (∃ j ∈ List.range _, _ ∧ _))
  | .respGetall _, _ => inferInstanceAs (Decidable (∃ j ∈ List.range _, _))
  | .sendAll, _ => inferInstanceAs (Decidable (∃ j ∈ List.range _, _))

theorem placePuts_iff {bad : Nat → Prop} {recipe : RecipeTable} {t : List CloudAttr} {j : Nat} :
    PlacePuts bad recipe t j ↔ (∃ k, (k = j ∧ Appears t j) ∧ bad k) ∨
      (LooksUp recipe t j ∧ ∃ q, nameAt t = some q ∧ bad q) := by
  refine or_congr ⟨fun h => ⟨j, ⟨rfl, h.1⟩, h.2⟩, ?_⟩ Iff.rfl
  rintro ⟨k, ⟨rfl, hk⟩, hbad⟩
  exact ⟨hk, hbad⟩

theorem recordPuts_iff {bad : Nat → Prop} {recipe : RecipeTable} {t : List CloudAttr} {j : Nat} :
    RecordPuts bad recipe t j ↔ (∃ k, RecordSeen t j k ∧ bad k) ∨
      (LooksUp recipe t j ∧ ∃ q, nameAt t = some q ∧ bad q) := by
  rw [RecordPuts, placePuts_iff, or_right_comm]
  refine or_congr_left ⟨?_, ?_⟩
  · rintro (⟨k, hk, hbad⟩ | ⟨hon, q, hq, hq', hbad⟩)
    · exact ⟨k, Or.inl ⟨hk.1, hk.2⟩, hbad⟩
    · exact ⟨q, Or.inr ⟨hon, hq, hq'⟩, hbad⟩
  · rintro ⟨k, hk | ⟨hon, hq, hk⟩, hbad⟩
    · exact Or.inl ⟨k, ⟨hk.1, hk.2⟩, hbad⟩
    · exact Or.inr ⟨hon, k, hq, hk, hbad⟩

/-- **A report** puts in bad attributes exactly when it says so beforehand. -/
theorem report_reports_iff {bad : Nat → Prop} {call : ReportCall} {b b' : Board}
    (hgood : ∀ k ∈ b.reported, ¬ bad k) (h : reportCall call b = some b') :
    (∀ k ∈ b'.reported, ¬ bad k) ↔ ¬ call.Puts bad b := by
  cases call with
  | sendData value valueLen =>
      rw [reportCall, sendDataToCloud_eq] at h
      obtain ⟨out, hout, rfl⟩ := Option.map_eq_some_iff.mp h
      refine loop_reports_iff turns_sendData (fun t r => ?_) (fun t r => nameAt_writeRecord)
        (Kept.refl _) rfl rfl hgood hout
      rw [← @nameAt_writeRecord value t r]
      exact recordPuts_iff
  | respGet root resp =>
      obtain ⟨out, hout, rfl⟩ := Option.map_eq_some_iff.mp h
      refine (loop_reports_iff (P := fun t j => Named root t j ∧ PlacePuts bad b.db.recipe t j)
        turns_respGet (fun t j => ?_) (fun _ _ => rfl) (Kept.refl _) rfl rfl hgood hout).trans
        (not_congr triggers_const)
      rw [placePuts_iff, and_or_left, ← and_assoc]
      refine or_congr_left ⟨?_, ?_⟩
      · rintro ⟨hn, k, hk, hbad⟩
        exact ⟨k, ⟨hn, hk⟩, hbad⟩
      · rintro ⟨k, ⟨hn, hk⟩, hbad⟩
        exact ⟨hn, k, hk, hbad⟩
  | respGetall resp =>
      obtain ⟨out, hout, rfl⟩ := Option.map_eq_some_iff.mp h
      have hP : ∀ t j, PlacePuts bad b.db.recipe t j ↔ _ := fun _ _ => placePuts_iff
      exact (loop_reports_iff turns_respGetall hP (fun _ _ => rfl)
        (Kept.refl _) rfl rfl hgood hout).trans (not_congr triggers_const)
  | sendAll =>
      obtain ⟨out, hout, h⟩ := Option.bind_eq_some_iff.mp h
      obtain rfl := Option.some.inj h
      have hP : ∀ t j, PlacePuts bad b.db.recipe t j ↔ _ := fun _ _ => placePuts_iff
      exact (loop_reports_iff turns_sendAll hP (fun _ _ => rfl)
        (Kept.refl _) rfl rfl hgood hout).trans (not_congr triggers_const)

/-! ## The machine -/

/-- What the cloud, the UI and the board can ask for. -/
inductive CloudCall where
  /-- a SET request, the time, and the id SQLite picks if a row is inserted -/
  | set (root : CJson) (now rowid : Int)
  | report (call : ReportCall)

/-- The board under requests and reports. -/
def cloudMachine : Machine Board CloudCall where
  step b
    | .set root now rowid =>
        if freshRowid b.db rowid then cloudRespSet root now rowid b else none
    | .report call => reportCall call b

theorem cloudMachine_set {root : CJson} {now rowid : Int} {b b' : Board}
    (h : cloudMachine.step b (.set root now rowid) = some b') :
    cloudRespSet root now rowid b = some b' := by
  change (if freshRowid b.db rowid then cloudRespSet root now rowid b else none) = _ at h
  split at h
  · exact h
  · cases h

/-- The `funType` the profile gives attribute `j`. -/
def profileFunType (profile : CJson) (j : Nat) : Option Int := do
  let attr ← profile.getObjectItem (cstr "attr")
  let arraySub ← attr.getArrayItem j
  let funType ← arraySub.getObjectItem (cstr "funType")
  pure funType.valueint

def MaySet (profile : CJson) (j : Nat) : Prop :=
  profileFunType profile j = some 0 ∨ profileFunType profile j = some 2

def MayReport (profile : CJson) (j : Nat) : Prop :=
  profileFunType profile j = some 0 ∨ profileFunType profile j = some 1

instance (profile : CJson) : DecidablePred (MaySet profile) :=
  fun _ => inferInstanceAs (Decidable (_ ∨ _))

instance (profile : CJson) : DecidablePred (MayReport profile) :=
  fun _ => inferInstanceAs (Decidable (_ ∨ _))

/-- The access modes of the profile have been enforced so far. -/
def Enforced (profile : CJson) (b : Board) : Prop :=
  (∀ j ∈ b.recorded, MaySet profile j) ∧ ∀ j ∈ b.reported, MayReport profile j

instance (profile : CJson) (b : Board) : Decidable (Enforced profile b) :=
  inferInstanceAs (Decidable (_ ∧ _))

/-- The call keeps to the profile by itself: the attributes a SET request names,
and those a report covers, may be set and reported. -/
def KeepsAccess (profile : CJson) (b : Board) : CloudCall → Prop
  | .set root _ _ =>
      ∀ j ∈ List.range b.dev.attr.length, Recorded root b.dev.attr j → MaySet profile j
  | .report call => ¬ call.Puts (fun j => ¬ MayReport profile j) b

instance (profile : CJson) (b : Board) : DecidablePred (KeepsAccess profile b)
  | .set root _ _ =>
      inferInstanceAs (Decidable (∀ j ∈ List.range _, Recorded root b.dev.attr j → _))
  | .report call => inferInstanceAs (Decidable (¬ call.Puts _ b))

theorem step_enforced_iff {profile : CJson} {b b' : Board} {call : CloudCall}
    (he : Enforced profile b) (h : cloudMachine.step b call = some b') :
    Enforced profile b' ↔ KeepsAccess profile b call := by
  cases call with
  | set root now rowid =>
      obtain ⟨b₁, db, respDb, hframe, -, rfl⟩ := cloudRespSet_cases (cloudMachine_set h)
      obtain ⟨hrep, l, hl, hmem⟩ := respSetFrame_recorded hframe
      show ((∀ j ∈ b₁.recorded, _) ∧ ∀ j ∈ b₁.reported, _) ↔ _
      rw [hrep, hl]
      constructor
      · rintro ⟨hset, -⟩ j hj hr
        exact hset j (List.mem_append_right _ ((hmem j).mpr ⟨List.mem_range.mp hj, hr⟩))
      · refine fun hk => ⟨fun j hj => ?_, he.2⟩
        rcases List.mem_append.mp hj with hj | hj
        · exact he.1 j hj
        · have := (hmem j).mp hj
          exact hk j (List.mem_range.mpr this.1) this.2
  | report call =>
      have hgood : ∀ j ∈ b.reported, ¬ ¬ MayReport profile j :=
        fun j hj hn => hn (he.2 j hj)
      have hiff := report_reports_iff hgood h
      have hrec := (report_keeps_requests h).1.recorded
      show ((∀ j ∈ b'.recorded, _) ∧ ∀ j ∈ b'.reported, _) ↔ ¬ _
      rw [← hiff, hrec]
      simp only [not_not]
      exact and_iff_right he.1

theorem parseAttr_funType {arraySub : CJson} {a : CloudAttr} (h : parseAttr arraySub = some a) :
    a.cloudFunType = .attrReportCtrl := by
  obtain ⟨key, -, h⟩ := Option.bind_eq_some_iff.mp h
  obtain ⟨valueType, -, h⟩ := Option.bind_eq_some_iff.mp h
  obtain ⟨uartCmd, -, h⟩ := Option.bind_eq_some_iff.mp h
  exact Option.some.inj h ▸ rfl

/-- Every attribute of the table comes from an element of the profile. -/
theorem cloudParseJson_attr {profile : CJson} {dev : CloudDev}
    (h : cloudParseJson profile = some (some dev)) :
    ∀ a ∈ dev.attr, ∃ arraySub, parseAttr arraySub = some a := by
  unfold cloudParseJson at h
  split at h
  · split at h
    · cases h
    · split at h
      · cases h
      · obtain ⟨texts, -, h⟩ := Option.bind_eq_some_iff.mp h
        obtain ⟨attr, hattr, h⟩ := Option.bind_eq_some_iff.mp h
        obtain rfl := Option.some.inj (Option.some.inj h)
        intro a ha
        obtain ⟨arraySub, -, hparse⟩ := exists_of_mem_mapM hattr a ha
        exact ⟨arraySub, hparse⟩
  · cases h

/-- `cloud_parse_json` makes every attribute reportable and controllable. -/
theorem cloudParseJson_funType {profile : CJson} {dev : CloudDev}
    (h : cloudParseJson profile = some (some dev)) :
    ∀ a ∈ dev.attr, a.cloudFunType = .attrReportCtrl := by
  intro a ha
  obtain ⟨arraySub, hparse⟩ := cloudParseJson_attr h a ha
  exact parseAttr_funType hparse

/-- The access modes of a profile are enforced in a run exactly as long as no call
of it names or covers an attribute whose mode forbids it: the table that is
checked has every attribute at 0. -/
theorem access_enforced_iff (profile : CJson) (b : Board)
    (hdev : cloudParseJson profile = some (some b.dev)) (hreported : b.reported = [])
    (hrecorded : b.recorded = []) (calls : List CloudCall) :
    (∀ a ∈ b.dev.attr, a.cloudFunType = .attrReportCtrl) ∧
      (cloudMachine.Along (Enforced profile) b calls ↔
        cloudMachine.Meets (KeepsAccess profile) b calls) := by
  refine ⟨cloudParseJson_funType hdev, ?_⟩
  refine Machine.along_iff_meets (V := fun _ => True) (Q := fun _ => True)
    (fun _ _ _ _ _ _ => trivial) (fun _ _ _ _ _ he h => step_enforced_iff he h)
    (fun _ _ => trivial) trivial ?_
  simp [Enforced, hreported, hrecorded]

/-! ## Three attributes of the profile -/

/-- An element of `attr`. -/
def exampleAttr (cloudKey : String) (funType uartCmd uartByteLen : Int) : CJson :=
  .object [(cstr "cloudKey", .string (cstr cloudKey)), (cstr "valueType", .number 0),
    (cstr "funType", .number funType), (cstr "uartCmd", .number uartCmd),
    (cstr "uartByteLen", .number uartByteLen)]

/-- A profile with an attribute of each mode. -/
def exampleProfile : CJson :=
  .object [(cstr "DeviceCategory", .string []), (cstr "DeviceModel", .string (cstr "X50")),
    (cstr "AfterSalesPhone", .string []), (cstr "HardwareVer", .string []),
    (cstr "UpdateLog", .string []),
    (cstr "attr", .array [exampleAttr "SysPower" 0 5 1, exampleAttr "ErrorCode" 1 10 4,
      exampleAttr "LStOvOperation" 2 65 1])]

/-- The board behind `cloud_init`. -/
def profileBoard : Board :=
  startBoard noRecipes
    [⟨cstr "SysPower", .num, .attrReportCtrl, 5, 1, [0]⟩,
      ⟨cstr "ErrorCode", .num, .attrReportCtrl, 10, 4, [0, 0, 0, 0]⟩,
      ⟨cstr "LStOvOperation", .num, .attrReportCtrl, 65, 1, [0]⟩]

theorem profileBoard_parsed : cloudParseJson exampleProfile = some (some profileBoard.dev) := by
  decide +kernel

/-- `SysPower` may be set and reported. -/
theorem access_enforced_sysPower :
    cloudMachine.Along (Enforced exampleProfile) profileBoard
      [.set (.object [(cstr "SysPower", .number 1)]) 0 1,
        .report (.respGet (.object [(cstr "SysPower", .null)]) [])] := by
  refine ((access_enforced_iff exampleProfile profileBoard profileBoard_parsed rfl rfl _).2).mpr ?_
  have hset : KeepsAccess exampleProfile profileBoard
      (.set (.object [(cstr "SysPower", .number 1)]) 0 1) := by decide +kernel
  have hget : ((cloudMachine.step profileBoard
      (.set (.object [(cstr "SysPower", .number 1)]) 0 1)).map fun b => decide
        (KeepsAccess exampleProfile b (.report (.respGet (.object [(cstr "SysPower", .null)]) [])))) =
      some true := by decide +kernel
  intro b hb
  rw [hb] at hget
  exact ⟨hset, fun _ _ => ⟨of_decide_eq_true (Option.some.inj hget), trivial⟩⟩

/-- `ErrorCode` may not be set, and is. -/
theorem access_not_enforced :
    cloudParseJson exampleProfile = some (some profileBoard.dev) ∧
      ¬ cloudMachine.Along (Enforced exampleProfile) profileBoard
        [.set (.object [(cstr "ErrorCode", .number 5)]) 0 1] := by
  refine ⟨profileBoard_parsed, fun h => ?_⟩
  have hrun : ((cloudMachine.run profileBoard
      [.set (.object [(cstr "ErrorCode", .number 5)]) 0 1]).map
        fun b => decide (Enforced exampleProfile b)) = some false := by decide +kernel
  obtain ⟨b, hb, he⟩ := Option.map_eq_some_iff.mp hrun
  exact of_decide_eq_false he (h.last hb)

end X50
