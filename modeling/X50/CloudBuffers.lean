/-
# `X50.CloudBuffers` — the lengths of the attributes, in every run

The length of an attribute is configuration: `cloud_parse_json` reads it from the
profile, and allocates that many bytes.  A SET of a multi-stage dish overwrites it
with the length of the record just built, cut to eight bits, and the next frame of
the board is then read, and copied, by that length.

`buffers_kept_iff` says in which runs every attribute keeps its length: those
whose dishes have, stage for stage, the length of the profile.
-/
import X50.CloudSized

namespace X50

open X50.Lib

/-! ## What is kept of an attribute -/

/-- An attribute without its value and its length. -/
def CloudAttr.outline (a : CloudAttr) : CloudAttr := { a.layout with uartByteLen := 0 }

/-- `a` is what has become of the attribute `a₀` of the profile: its memory is
large enough, and its length is that of the profile. -/
structure BufferKept (a₀ a : CloudAttr) : Prop where
  allocated : a.value.length = a₀.value.length
  fits : a.uartByteLen.toNat ≤ a.value.length
  byteLen : a.uartByteLen = a₀.uartByteLen

def BuffersKept (loaded attr : List CloudAttr) : Prop :=
  ∀ (j : Nat) (a₀ a : CloudAttr), loaded[j]? = some a₀ → attr[j]? = some a → BufferKept a₀ a

/-- Two tables agree up to values and lengths. -/
def SameOutline (attr attr' : List CloudAttr) : Prop :=
  attr'.map CloudAttr.outline = attr.map CloudAttr.outline

theorem SameLayout.outline {attr attr' : List CloudAttr} (h : SameLayout attr attr') :
    SameOutline attr attr' := by
  refine h.map_eq CloudAttr.outline fun a => ?_
  simp [CloudAttr.outline, CloudAttr.layout]

theorem SameOutline.refl (attr : List CloudAttr) : SameOutline attr attr := rfl

theorem SameOutline.get {attr attr' : List CloudAttr} (h : SameOutline attr attr') {j : Nat}
    {a : CloudAttr} (ha : attr[j]? = some a) :
    ∃ a', attr'[j]? = some a' ∧ a'.outline = a.outline := by
  have hj := congrArg (fun l => l[j]?) h
  simp only [List.getElem?_map, ha, Option.map_some] at hj
  exact Option.map_eq_some_iff.mp hj

theorem SameOutline.trans {attr attr' attr'' : List CloudAttr} (h : SameOutline attr attr')
    (h' : SameOutline attr' attr'') : SameOutline attr attr'' :=
  Eq.trans h' h

section Outline

variable {a a' : CloudAttr} (h : a'.outline = a.outline)
include h

theorem CloudAttr.outline_isMultistage : a'.isMultistage = a.isMultistage := by
  show a'.outline.isMultistage = a.outline.isMultistage
  rw [h]

theorem CloudAttr.outline_isSettable : a'.isSettable = a.isSettable := by
  show a'.outline.isSettable = a.outline.isSettable
  rw [h]

theorem CloudAttr.outline_cloudKey : a'.cloudKey = a.cloudKey := by
  show a'.outline.cloudKey = a.outline.cloudKey
  rw [h]

theorem CloudAttr.outline_length : a'.value.length = a.value.length := by
  simpa [outline, layout] using congrArg (fun a => a.value.length) h

end Outline

/-- With the memory of the profile, it is the lengths that count. -/
theorem buffersKept_iff {loaded attr : List CloudAttr} (h : SameOutline loaded attr)
    (hsize : ∀ a ∈ loaded, a.uartByteLen.toNat ≤ a.value.length) :
    BuffersKept loaded attr ↔
      ∀ (j : Nat) (a₀ a : CloudAttr), loaded[j]? = some a₀ → attr[j]? = some a →
        a.uartByteLen = a₀.uartByteLen := by
  constructor
  · exact fun hk j a₀ a ha₀ ha => (hk j a₀ a ha₀ ha).byteLen
  · intro hlen j a₀ a ha₀ ha
    obtain ⟨c, hc, hout⟩ := h.get ha₀
    obtain rfl := Option.some.inj (ha.symm.trans hc)
    have hmem : a.value.length = a₀.value.length := CloudAttr.outline_length hout
    refine ⟨hmem, ?_, hlen j a₀ a ha₀ ha⟩
    rw [hlen j a₀ a ha₀ ha, hmem]
    exact hsize a₀ (List.mem_of_getElem? ha₀)

/-! ## What a request makes of a length -/

/-- The length a SET request leaves an attribute. -/
def setLength (root : CJson) (a : CloudAttr) : UInt8 :=
  if a.isMultistage && a.isSettable then
    match root.getObjectItem a.cloudKey with
    | none => a.uartByteLen
    | some item =>
        if item.getArraySize = 0 then a.uartByteLen else UInt8.ofNat (item.getArraySize * 12 + 1)
  else a.uartByteLen

/-- Every dish of the request has the length of the profile. -/
def KeepsLengths (loaded : List CloudAttr) : CloudCall → Prop
  | .set root _ _ =>
      ∀ a ∈ loaded, a.isMultistage = true → a.isSettable = true →
        ∀ item ∈ root.getObjectItem a.cloudKey, item.getArraySize ≠ 0 →
          UInt8.ofNat (item.getArraySize * 12 + 1) = a.uartByteLen
  | .report _ => True

instance (loaded : List CloudAttr) : DecidablePred (KeepsLengths loaded)
  | .set _ _ _ => inferInstanceAs (Decidable (∀ a ∈ loaded, _ → _ → ∀ item ∈ _, _ → _))
  | .report _ => isTrue trivial

theorem keepsLengths_iff {loaded : List CloudAttr} {root : CJson} {now rowid : Int} :
    KeepsLengths loaded (.set root now rowid) ↔
      ∀ a ∈ loaded, setLength root a = a.uartByteLen := by
  refine forall₂_congr fun a _ => ?_
  unfold setLength
  by_cases hm : a.isMultistage = true
  · by_cases hs : a.isSettable = true
    · cases hitem : root.getObjectItem a.cloudKey with
      | none => simp
      | some item => by_cases hz : item.getArraySize = 0 <;> simp [hm, hs, hz]
    · simp [hs]
  · simp [hm]

theorem setLength_congr {root : CJson} {a a' : CloudAttr} (h : a'.outline = a.outline)
    (hlen : a'.uartByteLen = a.uartByteLen) : setLength root a' = setLength root a := by
  simp only [setLength, CloudAttr.outline_isMultistage h, CloudAttr.outline_isSettable h,
    CloudAttr.outline_cloudKey h, hlen]

theorem SetLeaves.outline {a a' : CloudAttr} (h : SetLeaves a a') : a'.outline = a.outline := by
  cases h with
  | same => rfl
  | multistage n ht hcmd => rfl
  | name v ht hlen => simp [CloudAttr.outline, CloudAttr.layout, hlen]

/-- `get_attr_set_value` sets the length of a multi-stage dish, and no other. -/
theorem getAttrSetValue_length {a : CloudAttr} {item : CJson} {remind : List CStr}
    {set : SetValue} (h : getAttrSetValue a item remind = some set) :
    set.ptr.uartByteLen =
      if a.isMultistage && item.getArraySize != 0 then UInt8.ofNat (item.getArraySize * 12 + 1)
      else a.uartByteLen := by
  cases getAttrSetValue_cases h with
  | noStage ht hcmd hz => simp [hz]
  | dish ht hcmd hz hstages => simp [CloudAttr.isMultistage, ht, hcmd, hz]
  | struct ht hcmd => simp [CloudAttr.isMultistage, hcmd]
  | name ht hs hkey hfits => simp [CloudAttr.isMultistage, ht]
  | string ht hs hkey => simp [CloudAttr.isMultistage, ht]
  | noNumber ht hs hnum => simp [CloudAttr.isMultistage, ht]
  | stringNum ht hs hnum hbytes => simp [CloudAttr.isMultistage, ht]
  | num ht hbytes => rcases ht with ht | ⟨n, ht⟩ <;> simp [CloudAttr.isMultistage, ht]

/-- What a request has made of an attribute. -/
structure Rewritten (root : CJson) (a a' : CloudAttr) : Prop where
  outline : a'.outline = a.outline
  byteLen : a'.uartByteLen = setLength root a

theorem respSetAttr_rewritten {root : CJson} {i len : Nat} {b : Board} {out : Board × Nat}
    {a : CloudAttr} (ha : b.dev.attr[i]? = some a) (h : respSetAttr root i b len = some out) :
    ∃ a', out.1.dev.attr[i]? = some a' ∧ Rewritten root a a' := by
  have hi : i < b.dev.attr.length := (List.getElem?_eq_some_iff.mp ha).1
  have hput : ∀ {item set}, root.getObjectItem a.cloudKey = some item → a.isSettable = true →
      getAttrSetValue a item b.dev.remind = some set →
      ∃ a', (b.putSet i set).dev.attr[i]? = some a' ∧ Rewritten root a a' := by
    intro item set hitem hset hval
    refine ⟨set.ptr, List.getElem?_set_self hi, (getAttrSetValue_ptr hval).outline,
      (getAttrSetValue_length hval).trans ?_⟩
    unfold setLength
    rw [hitem]
    by_cases hz : item.getArraySize = 0 <;> by_cases hm : a.isMultistage = true <;>
      simp [hm, hset, hz]
  cases respSetAttr_turn h with
  | @skipped c hc hno =>
      obtain rfl := Option.some.inj (ha.symm.trans hc)
      refine ⟨a, ha, rfl, ?_⟩
      unfold setLength
      by_cases hset : a.isSettable = true
      · rw [hno hset, ite_self]
      · simp [hset]
  | @unrecorded c item set hc hitem hset hval hbody =>
      obtain rfl := Option.some.inj (ha.symm.trans hc)
      exact hput hitem hset hval
  | @recorded c item set body buf hc hitem hset hval hbody hbuf =>
      obtain rfl := Option.some.inj (ha.symm.trans hc)
      exact hput hitem hset hval

/-- **The table behind a request**, attribute by attribute. -/
theorem respSetFrame_rewritten {root : CJson} {b b' : Board} (h : respSetFrame root b = some b')
    {j : Nat} {a : CloudAttr} (ha : b.dev.attr[j]? = some a) :
    ∃ a', b'.dev.attr[j]? = some a' ∧ Rewritten root a a' := by
  let Inv : Nat → Board × Nat → Prop := fun i s =>
    j < i → ∃ a', s.1.dev.attr[j]? = some a' ∧ Rewritten root a a'
  have hstep : ∀ i c (s s' : Board × Nat), b.dev.attr[i]? = some c →
      s.1.dev.attr[i]? = some c → Inv i s →
      respSetAttr root i s.1 s.2 = some s' → Inv (i + 1) s' := by
    intro i c s s' hc hsc hpast hs hij
    by_cases hji : j = i
    · subst hji
      obtain rfl := Option.some.inj (ha.symm.trans hc)
      exact respSetAttr_rewritten hsc hs
    · rw [(respSetAttr_spec hs).2.2.2 j hji]
      exact hpast (by omega)
  obtain ⟨done, len, hlast, hend⟩ :=
    respSetFrame_turns (I := Inv) h (fun hj => absurd hj (Nat.not_lt_zero j)) hstep
  have hdone : b'.dev = done.dev := by rcases hend with ⟨-, rfl⟩ | ⟨-, rfl⟩ <;> rfl
  rw [hdone]
  exact hlast (List.getElem?_eq_some_iff.mp ha).1

theorem SameOutline.set {attr : List CloudAttr} {i : Nat} {a a' : CloudAttr}
    (ha : attr[i]? = some a) (h : a'.outline = a.outline) : SameOutline attr (attr.set i a') := by
  obtain ⟨hi, rfl⟩ := List.getElem?_eq_some_iff.mp ha
  unfold SameOutline
  rw [List.map_set, h, ← List.getElem_map CloudAttr.outline (h := by simpa using hi)]
  exact List.set_getElem_self _

theorem respSetFrame_outline {root : CJson} {b b' : Board} (h : respSetFrame root b = some b') :
    SameOutline b.dev.attr b'.dev.attr := by
  obtain ⟨done, len, hloop, hend⟩ := respSetFrame_cases h
  have hdone : b'.dev = done.dev := by rcases hend with ⟨-, rfl⟩ | ⟨-, rfl⟩ <;> rfl
  rw [hdone]
  refine foldlM_keeps (I := fun s => SameOutline b.dev.attr s.1.dev.attr)
    (fun s i s' hs hf => hs.trans ?_) (.refl _) hloop
  cases respSetAttr_turn hf with
  | skipped ha hno => exact .refl _
  | unrecorded ha hitem hset hval hbody => exact .set ha (getAttrSetValue_ptr hval).outline
  | recorded ha hitem hset hval hbody hbuf => exact .set ha (getAttrSetValue_ptr hval).outline

/-! ## Runs -/

/-- What a step does to the table. -/
theorem step_table {b b' : Board} {call : CloudCall} (h : cloudMachine.step b call = some b') :
    (∃ root now rowid b₁, call = .set root now rowid ∧ respSetFrame root b = some b₁ ∧
        b'.dev = b₁.dev) ∨
      ((∃ report, call = .report report) ∧ SameLayout b.dev.attr b'.dev.attr) := by
  cases call with
  | set root now rowid =>
      obtain ⟨b₁, db, respDb, hframe, -, rfl⟩ := cloudRespSet_cases (cloudMachine_set h)
      exact Or.inl ⟨root, now, rowid, b₁, rfl, hframe, rfl⟩
  | report call => exact Or.inr ⟨⟨call, rfl⟩, (report_keeps_requests h).2⟩

theorem step_outline {b b' : Board} {call : CloudCall}
    (h : cloudMachine.step b call = some b') : SameOutline b.dev.attr b'.dev.attr := by
  rcases step_table h with ⟨root, now, rowid, b₁, -, hframe, hdev⟩ | ⟨-, hlayout⟩
  · rw [hdev]
    exact respSetFrame_outline hframe
  · exact hlayout.outline

/-- **One step** keeps the lengths exactly when its dishes have those of the
profile. -/
theorem step_buffers_iff {loaded : List CloudAttr} {b b' : Board} {call : CloudCall}
    (hsize : ∀ a ∈ loaded, a.uartByteLen.toNat ≤ a.value.length)
    (hout : SameOutline loaded b.dev.attr) (hkept : BuffersKept loaded b.dev.attr)
    (h : cloudMachine.step b call = some b') :
    BuffersKept loaded b'.dev.attr ↔ KeepsLengths loaded call := by
  have hout' : SameOutline loaded b'.dev.attr := hout.trans (step_outline h)
  rw [buffersKept_iff hout' hsize]
  rcases step_table h with ⟨root, now, rowid, b₁, rfl, hframe, hdev⟩ | ⟨⟨report, rfl⟩, hlayout⟩
  · rw [keepsLengths_iff, hdev]
    have hturn : ∀ {j : Nat} {a₀ : CloudAttr}, loaded[j]? = some a₀ →
        ∃ a', b₁.dev.attr[j]? = some a' ∧ a'.uartByteLen = setLength root a₀ := by
      intro j a₀ ha₀
      obtain ⟨a, ha, hao⟩ := hout.get ha₀
      obtain ⟨a', ha', hr⟩ := respSetFrame_rewritten hframe ha
      exact ⟨a', ha', hr.byteLen.trans (setLength_congr hao (hkept j a₀ a ha₀ ha).byteLen)⟩
    constructor
    · intro hlen a₀ hmem
      obtain ⟨j, ha₀⟩ := List.getElem?_of_mem hmem
      obtain ⟨a', ha', hset⟩ := hturn ha₀
      exact hset.symm.trans (hlen j a₀ a' ha₀ ha')
    · intro hkeep j a₀ a ha₀ ha
      obtain ⟨a', ha', hset⟩ := hturn ha₀
      obtain rfl := Option.some.inj (ha.symm.trans ha')
      exact hset.trans (hkeep a₀ (List.mem_of_getElem? ha₀))
  · refine iff_of_true (fun j a₀ a' ha₀ ha' => ?_) trivial
    obtain ⟨a, ha, -⟩ := hout.get ha₀
    obtain ⟨c, hc, hl⟩ := hlayout.get ha
    obtain rfl := Option.some.inj (ha'.symm.trans hc)
    exact (CloudAttr.layout_uartByteLen hl).trans (hkept j a₀ a ha₀ ha).byteLen

/-- From a profile, every attribute keeps its length, and fits its memory, in every
state of a run exactly when every dish of every SET request is as long as the
profile says: `12 n + 1`, cut to eight bits, for a dish of `n` stages. -/
theorem buffers_kept_iff (profile : CJson) (b : Board)
    (hdev : cloudParseJson profile = some (some b.dev)) (calls : List CloudCall) :
    cloudMachine.Along (fun b' => BuffersKept b.dev.attr b'.dev.attr) b calls ↔
      cloudMachine.Meets (fun _ call => KeepsLengths b.dev.attr call) b calls := by
  have hsize : ∀ a ∈ b.dev.attr, a.uartByteLen.toNat ≤ a.value.length := by
    intro a ha
    obtain ⟨arraySub, hparse⟩ := cloudParseJson_attr hdev a ha
    exact parseAttr_sized hparse
  have hstart : BuffersKept b.dev.attr b.dev.attr := by
    refine (buffersKept_iff rfl hsize).mpr fun j a₀ a ha₀ ha => ?_
    rw [Option.some.inj (ha.symm.trans ha₀)]
  exact Machine.along_iff_meets (V := fun _ => True)
    (Q := fun b' => SameOutline b.dev.attr b'.dev.attr)
    (fun _ _ _ _ hq h => hq.trans (step_outline h))
    (fun _ _ _ _ hq hp h => step_buffers_iff hsize hq hp h) (fun _ _ => trivial) (.refl _) hstart

/-! ## A dish of two stages -/

/-- An element of `attr` for a STRUCT. -/
def exampleStruct (cloudKey : String) (uartCmd uartByteLen : Int) : CJson :=
  .object [(cstr "cloudKey", .string (cstr cloudKey)), (cstr "valueType", .number 3),
    (cstr "funType", .number 0), (cstr "uartCmd", .number uartCmd),
    (cstr "uartByteLen", .number uartByteLen)]

/-- A profile with `MultiStageContent` and `MultiStageState`, as the repository has
them. -/
def stageProfile : CJson :=
  .object [(cstr "DeviceCategory", .string []), (cstr "DeviceModel", .string (cstr "X50")),
    (cstr "AfterSalesPhone", .string []), (cstr "HardwareVer", .string []),
    (cstr "UpdateLog", .string []),
    (cstr "attr", .array [exampleStruct "MultiStageContent" 76 13,
      exampleStruct "MultiStageState" 77 3])]

/-- The board behind `cloud_init`. -/
def stageBoard : Board :=
  startBoard noRecipes
    [⟨cstr "MultiStageContent", .struct, .attrReportCtrl, 76, 13, List.replicate 13 0⟩,
      ⟨cstr "MultiStageState", .struct, .attrReportCtrl, 77, 3, [0, 0, 0]⟩]

theorem stageBoard_parsed : cloudParseJson stageProfile = some (some stageBoard.dev) := by
  decide +kernel

/-- A stage without reminder. -/
def exampleStage : CJson :=
  .object [(cstr "Mode", .number 35), (cstr "Temp", .number 100), (cstr "Timer", .number 20)]

/-- A SET of a dish with `n` such stages. -/
def stageRequest (n : Nat) : CJson :=
  .object [(cstr "MultiStageContent", .array (List.replicate n exampleStage))]

/-- One stage is 13 bytes, and the table is as before. -/
theorem buffers_kept_one_stage :
    cloudMachine.Along (fun b' => BuffersKept stageBoard.dev.attr b'.dev.attr) stageBoard
      [.set (stageRequest 1) 0 1] := by
  refine (buffers_kept_iff stageProfile stageBoard stageBoard_parsed _).mpr fun _ _ => ⟨?_, trivial⟩
  decide +kernel

/-- Two are 25, in a buffer of 13. -/
theorem buffers_not_kept :
    cloudParseJson stageProfile = some (some stageBoard.dev) ∧
      ¬ cloudMachine.Along (fun b' => BuffersKept stageBoard.dev.attr b'.dev.attr) stageBoard
        [.set (stageRequest 2) 0 1] := by
  refine ⟨stageBoard_parsed, fun h => ?_⟩
  have hrun : ((cloudMachine.run stageBoard [.set (stageRequest 2) 0 1]).bind fun b =>
      b.dev.attr[0]?.map fun a => (a.uartByteLen, a.value.length)) = some (25, 13) := by
    decide +kernel
  obtain ⟨b', hb', hlen⟩ := Option.bind_eq_some_iff.mp hrun
  obtain ⟨a, ha, hlen⟩ := Option.map_eq_some_iff.mp hlen
  have hfits := (h.last hb' 0 _ a rfl ha).fits
  rw [Prod.mk.injEq] at hlen
  rw [hlen.1, hlen.2] at hfits
  exact absurd hfits (by decide)

end X50
