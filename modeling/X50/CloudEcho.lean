/-
# `X50.CloudEcho` — EVENT decoding of a SET payload

The reader's half of the round trip.  A payload of `cloud_resp_set` is read as
the records it was written as: every record begins with a command that one
attribute alone has, and is as long as that attribute.  Each record leaves its
attribute with the value that was set, reports it, and touches nothing else but
`CookbookName`, which a `CookbookID` may fill and a `MultiMode` reports.

The exceptions are those of the code.  An attribute without a key is never
reported.  `CookbookName` itself may be reported twice, with the old value first;
and as a STRUCT of the multi-stage commands it is read, or written, with no
regard to its memory.
-/
import X50.CloudRound
import X50.CloudSized

namespace X50

open X50.Lib

/-! ## Reports that have a result -/

/-- `CookbookName` is no STRUCT of the multi-stage commands: neither resized by a
request nor read as the state of the stages. -/
def NameReadable (attr : List CloudAttr) : Prop :=
  ∀ q ∈ nameAt attr, ∀ a ∈ attr[q]?, a.cloudValueType = .struct →
    a.uartCmd ≠ uartCmdMultistageSet ∧ a.uartCmd ≠ uartCmdMultistageState

instance (attr : List CloudAttr) : Decidable (NameReadable attr) :=
  inferInstanceAs (Decidable (∀ q ∈ nameAt attr, ∀ a ∈ attr[q]?, _ → _))

theorem NameReadable.congr {attr attr' : List CloudAttr} (h : NameReadable attr)
    (hl : SameLayout attr attr') : NameReadable attr' := by
  intro q hq a' ha' ht
  obtain ⟨a, ha, hla⟩ := hl.symm.get ha'
  rw [← CloudAttr.layout_uartCmd hla]
  exact h q ((hl.getAttrPtr _).symm.trans hq) a ha ((CloudAttr.layout_cloudValueType hla).trans ht)

theorem NameReadable.sized {attr : List CloudAttr} (h : NameReadable attr) (hs : Sized attr)
    {q : Nat} {a : CloudAttr} (hq : nameAt attr = some q) (ha : attr[q]? = some a) :
    a.uartByteLen.toNat ≤ a.value.length := by
  refine hs.get ha ?_
  rw [CloudAttr.isMultistage, Bool.and_eq_false_iff]
  by_cases ht : a.cloudValueType = .struct
  · exact Or.inr (beq_eq_false_iff_ne.mpr (h q hq a ha ht).1)
  · exact Or.inl (beq_eq_false_iff_ne.mpr ht)

theorem strncpy_isSome {name : List UInt8} {nameLen : Nat} (src : CStr)
    (h : nameLen ≤ name.length) : ∃ name', strncpy name src nameLen = some name' :=
  ⟨_, if_neg (by omega)⟩

theorem selectForCookbookID_isSome {name : List UInt8} {nameLen : Nat} (cookbookID : Int)
    (db : HistoryState) (h : nameLen ≤ name.length) :
    ∃ out, selectForCookbookID cookbookID name nameLen db = some out := by
  cases hrows : selectSeqidFromTable cookbookID db.recipe.toTable with
  | nil => exact ⟨_, selectForCookbookID_nil hrows⟩
  | cons r rest =>
      have hmembers : (selectSeqidRows (r :: rest) db []).2 =
          selectSeqidMembers r ++ rest.flatMap selectSeqidMembers := by
        simpa using (@selectSeqidRows_spec (r :: rest) db []).2.2
      have hnull : (CJson.object (selectSeqidRows (r :: rest) db []).2).isNull = false := by
        rw [hmembers]
        rfl
      obtain ⟨name', hname'⟩ := strncpy_isSome r.dishName h
      refine ⟨((selectSeqidRows (r :: rest) db []).1, some name'), ?_⟩
      simp only [selectForCookbookID, hrows, hnull, Bool.false_eq_true, if_false]
      rw [hmembers, getObjectItem_dishName]
      show (strncpy name r.dishName nameLen).bind _ = _
      rw [hname']
      rfl

theorem reportCookbookID_isSome {b : Board} (val : Int) (hs : Sized b.dev.attr)
    (hn : NameReadable b.dev.attr) :
    ∃ b', reportCookbookID val b = some b' := by
  unfold reportCookbookID
  split
  · split
    · exact ⟨b, rfl⟩
    · rename_i q hq
      obtain ⟨a, ha, -⟩ := getAttrPtr_some hq
      obtain ⟨out, hout⟩ := selectForCookbookID_isSome val b.db (hn.sized hs hq ha)
      simp only [ha, Option.bind_eq_bind, Option.bind_some, hout]
      split
      · split
        · exact ⟨_, rfl⟩
        · exact ⟨_, rfl⟩
      · exact ⟨_, rfl⟩
  · exact ⟨b, rfl⟩

/-- A report has a result when its item has. -/
theorem getAttrReportValue_isSome {j : Nat} {b : Board} {a : CloudAttr} (resp : Members)
    (ha : b.dev.attr[j]? = some a) (h : ∃ made, attrItem j a b = some made) :
    ∃ out, getAttrReportValue j b resp = some out := by
  obtain ⟨made, hmade⟩ := h
  simp only [getAttrReportValue, ha, Option.bind_eq_bind, Option.bind_some, hmade]
  split
  · exact ⟨_, rfl⟩
  · split
    · exact ⟨_, rfl⟩
    · exact ⟨_, rfl⟩

/-- A NUM attribute is reported as the number its bytes are. -/
theorem getAttrReportValue_num {j : Nat} {b : Board} {a : CloudAttr} (resp : Members)
    (ha : b.dev.attr[j]? = some a) (hr : a.isReported = true) (ht : a.cloudValueType = .num)
    (hs : Sized b.dev.attr) (hn : NameReadable b.dev.attr) :
    ∃ out, getAttrReportValue j b resp = some out ∧
      out.2 = resp ++ [(a.cloudKey, .number (cloudVal a.bytes))] := by
  have hlen : ¬ a.value.length < a.uartByteLen.toNat := by
    have := hs.get ha (CloudAttr.isMultistage_of_num ht)
    omega
  have hmade : ∃ made, attrItem j a b = some made ∧
      made.2 = some (.number (cloudVal a.bytes)) := by
    simp only [attrItem, ht, reduceCtorEq, if_false, if_neg hlen]
    split
    · obtain ⟨b', hb'⟩ := reportCookbookID_isSome (cloudVal a.bytes) hs hn
      exact ⟨(b', some (.number (cloudVal a.bytes))), by rw [hb']; rfl, rfl⟩
    · exact ⟨_, rfl, rfl⟩
  obtain ⟨made, hmade, hitem⟩ := hmade
  obtain ⟨out, hout⟩ := getAttrReportValue_isSome resp ha ⟨made, hmade⟩
  refine ⟨out, hout, ?_⟩
  obtain ⟨a', ha', ⟨hr', -⟩ | ⟨-, made', hmade', rfl⟩⟩ := getAttrReportValue_cases hout
  · obtain rfl := Option.some.inj (ha.symm.trans ha')
    rw [hr] at hr'
    cases hr'
  · obtain rfl := Option.some.inj (ha.symm.trans ha')
    obtain rfl := Option.some.inj (hmade.symm.trans hmade')
    simp [hitem]

/-- A report of `CookbookName` has a result, and no other member. -/
theorem getAttrReportValue_name {q : Nat} {b : Board} (resp : Members)
    (hq : nameAt b.dev.attr = some q) (hs : Sized b.dev.attr) (hn : NameReadable b.dev.attr) :
    ∃ out extra, getAttrReportValue q b resp = some out ∧ out.2 = resp ++ extra ∧
      ∀ m ∈ extra, m.1 = cstr "CookbookName" := by
  obtain ⟨a, ha, hkey⟩ := getAttrPtr_some hq
  have hlen : ¬ a.value.length < a.uartByteLen.toNat := by
    have := hn.sized hs hq ha
    omega
  have hno : ∀ s : CStr, s ≠ cstr "CookbookName" → a.cloudKey ≠ s := fun s hs h => hs (h ▸ hkey)
  have hmade : ∃ made, attrItem q a b = some made := by
    unfold attrItem
    split
    · rename_i ht
      have hcmd : a.uartCmd ≠ uartCmdMultistageState := (hn q hq a ha ht).2
      simp only [structItem, if_neg hcmd]
      exact ⟨_, rfl⟩
    · split
      · exact ⟨_, rfl⟩
      · rw [if_neg (hno _ (by decide))]
        exact ⟨_, rfl⟩
      · simp only [stringItem, hno (cstr "ComSWVersion") (by decide),
          hno (cstr "ElcSWVersion") (by decide), hno (cstr "ElcHWVersion") (by decide),
          hno (cstr "WifiMac") (by decide), or_self, if_false]
        split
        · exact ⟨_, rfl⟩
        · split
          · exact ⟨_, rfl⟩
          · exact ⟨_, rfl⟩
      · exact ⟨_, rfl⟩
  obtain ⟨out, hout⟩ := getAttrReportValue_isSome resp ha hmade
  refine ⟨out, ?_⟩
  obtain ⟨a', ha', ⟨-, rfl⟩ | ⟨-, made, -, rfl⟩⟩ := getAttrReportValue_cases hout
  · exact ⟨[], hout, by simp, by simp⟩
  · obtain rfl := Option.some.inj (ha.symm.trans ha')
    refine ⟨_, hout, rfl, fun m hm => ?_⟩
    obtain ⟨item, -, rfl⟩ := Option.map_eq_some_iff.mp (Option.mem_toList.mp hm)
    exact hkey

/-- The push events have a result. -/
theorem getAttrReportEvent_isSome {a : CloudAttr} {d : UInt8} (c : UInt8) (eventAll : Bool)
    (h : a.value.head? = some d) : ∃ events, getAttrReportEvent a (some c) eventAll = some events := by
  have hpush : ∀ event, ∃ events, cookPush event a (some c) eventAll = some events := by
    intro event
    simp only [cookPush, h, Option.bind_eq_bind, Option.bind_some, Option.pure_def]
    split
    · split
      · exact ⟨_, rfl⟩
      · exact ⟨_, rfl⟩
    · exact ⟨_, rfl⟩
  unfold getAttrReportEvent
  split
  · exact ⟨_, rfl⟩
  · split
    · exact ⟨_, rfl⟩
    · split
      · exact hpush _
      · split
        · exact hpush _
        · split
          · simp only [h, Option.bind_eq_bind, Option.bind_some, Option.pure_def]
            split
            · exact ⟨_, rfl⟩
            · exact ⟨_, rfl⟩
          · exact ⟨_, rfl⟩

/-! ## One record -/

/-- What a record at `i` does for a NUM attribute `j`: the attribute holds the
bytes of the record and is reported as the number they are; besides it only
`CookbookName` is written or reported. -/
structure RecordEcho (value : Nat → UInt8) (i j : Nat) (a : CloudAttr) (b : Board)
    (root : Members) (out : Board × Members) : Prop where
  layout : SameLayout b.dev.attr out.1.dev.attr
  self : out.1.dev.attr[j]? = some (a.write value i)
  others : ∀ k c, k ≠ j → nameAt b.dev.attr ≠ some k → b.dev.attr[k]? = some c →
    out.1.dev.attr[k]? = some c
  message : ∃ extra,
    out.2 = root ++ (a.cloudKey, .number (cloudVal (a.write value i).bytes)) :: extra ∧
      ∀ m ∈ extra, m.1 = cstr "CookbookName" ∧ nameAt b.dev.attr ≠ none

theorem sendDataRecord_num {j : Nat} {b : Board} {a : CloudAttr} (value : Nat → UInt8)
    (i : Nat) (root : Members) (ha : b.dev.attr[j]? = some a) (hr : a.isReported = true)
    (ht : a.cloudValueType = .num) (hlen : 1 ≤ a.uartByteLen.toNat) (hs : Sized b.dev.attr)
    (hn : NameReadable b.dev.attr) (hj : nameAt b.dev.attr ≠ some j) :
    ∃ out, sendDataRecord value i j b root = some out ∧ RecordEcho value i j a b root out := by
  have hsize : a.uartByteLen.toNat ≤ a.value.length :=
    hs.get ha (CloudAttr.isMultistage_of_num ht)
  obtain ⟨d, hd⟩ := CloudAttr.head_of_length hlen hsize
  obtain ⟨events, hevents⟩ := getAttrReportEvent_isSome (value (i + 1)) false hd
  -- the state the record has been written into
  let b₁ : Board := (b.addOut events).setValue j (a.write value i).value
  have ha₁ : b₁.dev.attr[j]? = some (a.write value i) :=
    Board.setValue_get_self (b := b.addOut events) ha
  have hl₁ : SameLayout b.dev.attr b₁.dev.attr :=
    Board.setValue_sameLayout (b := b.addOut events) ha (CloudAttr.write_length hsize)
  have hat : nameAt b₁.dev.attr = nameAt b.dev.attr := hl₁.getAttrPtr _
  obtain ⟨mid, hmid, hmsg⟩ := getAttrReportValue_num root ha₁ hr ht (hs.congr hl₁)
    (hn.congr hl₁)
  have hvisit := getAttrReportValue_visit hmid
  have hself : mid.1.dev.attr[j]? = some (a.write value i) :=
    hvisit.same j _ ha₁ (hat ▸ hj) fun _ => by
      show a.cloudValueType ≠ .string
      rw [ht]
      decide
  have hother : ∀ k c, k ≠ j → nameAt b.dev.attr ≠ some k → b.dev.attr[k]? = some c →
      mid.1.dev.attr[k]? = some c := by
    intro k c hk hq hc
    exact hvisit.same k c ((Board.setValue_get_ne hk).trans hc) (hat ▸ hq) fun h => absurd h hk
  have hl₂ : SameLayout b.dev.attr mid.1.dev.attr := hl₁.trans hvisit.kept.sameLayout
  have hhead : (a.write value i).value.head? = some (value (i + 1)) := CloudAttr.write_first hlen
  have hmid' : getAttrReportValue j ((b.addOut events).setValue j
      ((List.range a.uartByteLen.toNat).map (fun k => value (i + 1 + k)) ++
        a.value.drop a.uartByteLen.toNat)) root = some mid := hmid
  have hdone : RecordEcho value i j a b root mid :=
    ⟨hl₂, hself, hother, [], hmsg, fun m hm => absurd hm List.not_mem_nil⟩
  simp only [sendDataRecord, ha, hevents, hmid', hself, hhead, Option.bind_eq_bind,
    Option.bind_some, Option.pure_def, if_neg (Nat.not_lt.mpr hsize)]
  split
  · split
    · split
      · exact ⟨mid, rfl, hdone⟩
      · rename_i q hq
        have hq' : nameAt b.dev.attr = some q := (hl₂.getAttrPtr _).symm.trans hq
        obtain ⟨out, extra, hout, hmsg', hextra⟩ :=
          getAttrReportValue_name mid.2 hq (hs.congr hl₂) (hn.congr hl₂)
        have hvisit' := getAttrReportValue_visit hout
        have hkeep : ∀ k c, nameAt b.dev.attr ≠ some k → mid.1.dev.attr[k]? = some c →
            out.1.dev.attr[k]? = some c := by
          intro k c hk hc
          refine hvisit'.same k c hc ?_ fun h => absurd (h ▸ hq') hk
          rw [show nameAt mid.1.dev.attr = some q from hq, ← hq']
          exact hk
        refine ⟨out, hout, hl₂.trans hvisit'.kept.sameLayout, hkeep j _ hj hself,
          fun k c hk hkq hc => hkeep k c hkq (hother k c hk hkq hc), extra, ?_,
          fun m hm => ⟨hextra m hm, hq' ▸ Option.some_ne_none q⟩⟩
        rw [hmsg', hmsg, List.append_assoc, List.singleton_append]
        rfl
    · exact ⟨mid, rfl, hdone⟩
  · exact ⟨mid, rfl, hdone⟩

/-! ## The reader's records are the writer's -/

/-- Where the records of the attributes `js` begin, the first of them at `i`. -/
def recordsAt (attr : List CloudAttr) : Nat → List Nat → List (Nat × Nat)
  | _, [] => []
  | i, j :: js =>
      (i, j) :: recordsAt attr (i + ((attr[j]?.map fun a => a.uartByteLen.toNat).getD 0) + 1) js

theorem attrOfCmd_unique {attr : List CloudAttr} {j : Nat} {a : CloudAttr}
    (ha : attr[j]? = some a)
    (h : ∀ (k : Nat) c, attr[k]? = some c → c.uartCmd = a.uartCmd → k = j) :
    attrOfCmd attr a.uartCmd = some j := by
  have hsome : (attrOfCmd attr a.uartCmd).isSome = true := by
    rw [attrOfCmd, List.findIdx?_isSome, List.any_eq_true]
    exact ⟨a, List.mem_of_getElem? ha, by simp⟩
  obtain ⟨k, hk⟩ := Option.isSome_iff_exists.mp hsome
  obtain ⟨c, hc, hcmd⟩ := attrOfCmd_some hk
  rw [hk, h k c hc hcmd]

/-- **The reader stays in step with the writer**, over any part of a payload. -/
theorem recordsFrom_setRecords {value : Nat → UInt8} {root : CJson} {attr : List CloudAttr}
    (h : RequestFits root attr) {valueLen : Nat} {js : List Nat}
    (hjs : ∀ j ∈ js, Named root attr j) {i fuel : Nat}
    (hmem : Reads value i (js.flatMap (setRecord root attr)))
    (hend : i + (js.flatMap (setRecord root attr)).length = valueLen)
    (hfuel : valueLen - i < fuel) :
    recordsFrom value valueLen attr fuel i = recordsAt attr i js := by
  induction js generalizing i fuel with
  | nil =>
      obtain ⟨n, rfl⟩ : ∃ n, fuel = n + 1 := ⟨fuel - 1, by omega⟩
      have hlast : ¬ i < valueLen := by
        have : i = valueLen := by simpa using hend
        omega
      rw [recordsFrom, if_neg hlast, recordsAt]
  | cons j js ih =>
      obtain ⟨n, rfl⟩ : ∃ n, fuel = n + 1 := ⟨fuel - 1, by omega⟩
      obtain ⟨a, item, ha, hitem⟩ := named_iff.mp (hjs j List.mem_cons_self)
      have hrec := setRecord_eq ha hitem
      rw [List.flatMap_cons] at hmem hend
      rw [List.length_append] at hend
      have hreclen : (setRecord root attr j).length = a.uartByteLen.toNat + 1 := by
        rw [hrec, List.length_cons, BigEndian.length_encode]
      have hcmd : value i = a.uartCmd := by
        have := hmem.left
        rw [hrec] at this
        exact this.head
      have hfind : attrOfCmd attr (value i) = some j := by
        rw [hcmd]
        exact attrOfCmd_unique ha fun k c hc =>
          h.command_unique ha (CJson.hasObjectItem_iff.mpr ⟨item, hitem⟩) hc
      have hlt : i < valueLen := by omega
      rw [recordsFrom, if_pos hlt, hfind, recordsAt]
      simp only [ha, Option.map_some, Option.getD_some]
      congr 1
      refine ih (fun k hk => hjs k (List.mem_cons_of_mem _ hk)) ?_ ?_ ?_
      · have := hmem.right
        rwa [hreclen] at this
      · omega
      · omega

theorem records_setPayload {value : Nat → UInt8} {root : CJson} {attr : List CloudAttr}
    (h : RequestFits root attr) (hmem : Reads value 0 (setPayload root attr)) :
    records value (setPayload root attr).length attr =
      recordsAt attr 0 (setPlaces root attr attr.length) :=
  recordsFrom_setRecords h (fun _ hj => (mem_setPlaces.mp hj).2) hmem (Nat.zero_add _)
    (by omega)

/-! ## The whole payload -/

/-- Decoding a value that was written gives it back. -/
theorem cloudVal_encode {a : CloudAttr} {val : Int} (h : Carries a val) :
    cloudVal (BigEndian.encode a.uartByteLen.toNat val.toNat) = val := by
  obtain ⟨n, rfl⟩ := Int.eq_ofNat_of_zero_le h.nonneg
  have hfits : n < 256 ^ a.uartByteLen.toNat := by exact_mod_cast h.fits
  have hint : (n : Int) < 2 ^ 31 := h.int
  show ((BigEndian.decode (BigEndian.encode a.uartByteLen.toNat n) : Nat) : Int).bmod (2 ^ 32) = n
  rw [BigEndian.decode_encode_of_lt hfits]
  exact Int.bmod_eq_of_le (by omega) (by omega)

/-- The attributes of `done` have come back, and nothing else has happened. -/
structure Echoed (root : CJson) (attr : List CloudAttr) (done : List Nat) (out : Board × Members) :
    Prop where
  layout : SameLayout attr out.1.dev.attr
  apart : ∀ j ∈ done, nameAt attr ≠ some j
  stored : ∀ j ∈ done, ∀ a item, attr[j]? = some a → root.getObjectItem a.cloudKey = some item →
    ∃ a', out.1.dev.attr[j]? = some a' ∧ cloudVal a'.bytes = item.valueint
  rest : ∀ k a, k ∉ done → nameAt attr ≠ some k → attr[k]? = some a →
    out.1.dev.attr[k]? = some a
  reported : ∀ j ∈ done, ∀ a item, attr[j]? = some a → root.getObjectItem a.cloudKey = some item →
    (a.cloudKey, CJson.number item.valueint) ∈ out.2
  members : ∀ m ∈ out.2, (m.1 = cstr "CookbookName" ∧ nameAt attr ≠ none) ∨
    ∃ j ∈ done, ∃ a item, attr[j]? = some a ∧ root.getObjectItem a.cloudKey = some item ∧
      m = (a.cloudKey, .number item.valueint)

theorem echoed_nil {root : CJson} {b : Board} : Echoed root b.dev.attr [] (b, []) where
  layout := .refl _
  apart _ hj := absurd hj List.not_mem_nil
  stored _ hj := absurd hj List.not_mem_nil
  rest _ _ _ _ ha := ha
  reported _ hj := absurd hj List.not_mem_nil
  members _ hm := absurd hm List.not_mem_nil

/-- One more record. -/
theorem Echoed.step {value : Nat → UInt8} {i j : Nat} {root : CJson} {attr : List CloudAttr}
    {done : List Nat} {out out' : Board × Members} {a : CloudAttr} {item : CJson}
    (h : Echoed root attr done out) (hq : nameAt attr ≠ some j) (ha : attr[j]? = some a)
    (hitem : root.getObjectItem a.cloudKey = some item)
    (hval : cloudVal (a.write value i).bytes = item.valueint)
    (he : RecordEcho value i j a out.1 out.2 out') : Echoed root attr (j :: done) out' := by
  have hat : nameAt out.1.dev.attr = nameAt attr := h.layout.getAttrPtr _
  obtain ⟨extra, hmsg, hextra⟩ := he.message
  rw [hval] at hmsg
  have hone : ∀ {k : Nat} {c : CloudAttr} {item' : CJson}, k = j → attr[k]? = some c →
      root.getObjectItem c.cloudKey = some item' → c = a ∧ item' = item := by
    intro k c item' hk hc hitem'
    obtain rfl := Option.some.inj (ha.symm.trans (hk ▸ hc))
    exact ⟨rfl, Option.some.inj (hitem'.symm.trans hitem)⟩
  exact {
    layout := h.layout.trans he.layout
    apart := by
      intro k hk
      rcases List.mem_cons.mp hk with rfl | hk
      · exact hq
      · exact h.apart k hk
    stored := by
      intro k hk c item' hc hitem'
      by_cases hkj : k = j
      · obtain ⟨rfl, rfl⟩ := hone hkj hc hitem'
        exact ⟨_, hkj ▸ he.self, hval⟩
      · have hdone : k ∈ done := (List.mem_cons.mp hk).resolve_left hkj
        obtain ⟨c', hc', hv⟩ := h.stored k hdone c item' hc hitem'
        exact ⟨c', he.others k c' hkj (hat ▸ h.apart k hdone) hc', hv⟩
    rest := by
      intro k c hk hq hc
      have hkj : k ≠ j := fun hkj => hk (hkj ▸ List.mem_cons_self)
      have hnot : k ∉ done := fun hd => hk (List.mem_cons_of_mem _ hd)
      exact he.others k c hkj (hat ▸ hq) (h.rest k c hnot hq hc)
    reported := by
      intro k hk c item' hc hitem'
      rw [hmsg]
      by_cases hkj : k = j
      · obtain ⟨rfl, rfl⟩ := hone hkj hc hitem'
        exact List.mem_append_right _ List.mem_cons_self
      · have hdone : k ∈ done := (List.mem_cons.mp hk).resolve_left hkj
        exact List.mem_append_left _ (h.reported k hdone c item' hc hitem')
    members := by
      intro m hm
      rw [hmsg] at hm
      rcases List.mem_append.mp hm with hm | hm
      · rcases h.members m hm with hname | ⟨k, hk, hrest⟩
        · exact Or.inl hname
        · exact Or.inr ⟨k, List.mem_cons_of_mem _ hk, hrest⟩
      · rcases List.mem_cons.mp hm with rfl | hm
        · exact Or.inr ⟨j, List.mem_cons_self, a, item, ha, hitem, rfl⟩
        · exact Or.inl ⟨(hextra m hm).1, hat ▸ (hextra m hm).2⟩ }

/-- An attribute that is named has a key, and not that of `CookbookName`. -/
def Nameable (root : CJson) (attr : List CloudAttr) : Prop :=
  ∀ a ∈ attr, root.hasObjectItem a.cloudKey → a.cloudKey ≠ [] ∧ a.cloudKey ≠ cstr "CookbookName"

instance (root : CJson) (attr : List CloudAttr) : Decidable (Nameable root attr) :=
  inferInstanceAs (Decidable (∀ a ∈ attr, _ → _))

/-- **The loop of `send_data_to_cloud`** over the records of a request. -/
theorem foldlM_echoed {value : Nat → UInt8} {root : CJson} {attr : List CloudAttr}
    (hfits : RequestFits root attr) (hsized : Sized attr) (hread : NameReadable attr)
    (hname : Nameable root attr) {js done : List Nat} (hjs : ∀ j ∈ js, Named root attr j)
    (hnodup : (done ++ js).Nodup) {i : Nat}
    (hmem : Reads value i (js.flatMap (setRecord root attr))) {out : Board × Members}
    (h : Echoed root attr done out) :
    ∃ out', (recordsAt attr i js).foldlM
        (fun out r => sendDataRecord value r.1 r.2 out.1 out.2) out = some out' ∧
      Echoed root attr (js.reverse ++ done) out' := by
  induction js generalizing i done out with
  | nil => exact ⟨out, rfl, h⟩
  | cons j js ih =>
      obtain ⟨a, item, ha, hitem⟩ := named_iff.mp (hjs j List.mem_cons_self)
      have hcarries : Carries a item.valueint :=
        hfits.carries a (List.mem_of_getElem? ha) item hitem
      have hkey := hname a (List.mem_of_getElem? ha) (CJson.hasObjectItem_iff.mpr ⟨item, hitem⟩)
      have hq : nameAt attr ≠ some j := by
        intro hq
        obtain ⟨c, hc, hck⟩ := getAttrPtr_some hq
        exact hkey.2 (Option.some.inj (ha.symm.trans hc) ▸ hck)
      have hnodup' : (j :: (done ++ js)).Nodup := List.perm_middle.nodup_iff.mp hnodup
      have hj : j ∉ done := fun hd =>
        (List.nodup_cons.mp hnodup').1 (List.mem_append_left _ hd)
      have hrec := setRecord_eq ha hitem
      have hreclen : (setRecord root attr j).length = a.uartByteLen.toNat + 1 := by
        rw [hrec, List.length_cons, BigEndian.length_encode]
      rw [List.flatMap_cons] at hmem
      -- the bytes behind the command are those that were written
      have hbytes : (a.write value i).bytes =
          BigEndian.encode a.uartByteLen.toNat item.valueint.toNat := by
        have hleft := hmem.left
        rw [hrec] at hleft
        have := hleft.tail.map_range
        rwa [BigEndian.length_encode, ← CloudAttr.write_bytes] at this
      have hval : cloudVal (a.write value i).bytes = item.valueint := by
        rw [hbytes, cloudVal_encode hcarries]
      have hreported : a.isReported = true := by
        simp [CloudAttr.isReported, hcarries.reportCtrl, hkey.1]
      have hq' : nameAt out.1.dev.attr ≠ some j := by
        rw [show nameAt out.1.dev.attr = nameAt attr from h.layout.getAttrPtr _]
        exact hq
      obtain ⟨out₁, hout₁, hecho⟩ : ∃ out₁, sendDataRecord value i j out.1 out.2 = some out₁ ∧
          RecordEcho value i j a out.1 out.2 out₁ :=
        sendDataRecord_num _ _ _ (h.rest j a hj hq ha) hreported hcarries.num hcarries.lenPos
          (hsized.congr h.layout) (hread.congr h.layout) hq'
      have hnext : Reads value (i + a.uartByteLen.toNat + 1) (js.flatMap (setRecord root attr)) := by
        have := hmem.right
        rwa [hreclen] at this
      obtain ⟨out', hout', hdone⟩ := ih (fun k hk => hjs k (List.mem_cons_of_mem _ hk)) hnodup'
        hnext (h.step hq ha hitem hval hecho)
      refine ⟨out', ?_, by simpa using hdone⟩
      simp only [recordsAt, ha, Option.map_some, Option.getD_some]
      exact foldlM_cons_some.mpr ⟨out₁, hout₁, hout'⟩

/-! ## SET and EVENT agree -/

/-- No two attributes have the same key, ignoring case. -/
def DistinctKeys (attr : List CloudAttr) : Prop :=
  attr.Pairwise fun a c => caseInsensitiveEq a.cloudKey c.cloudKey = false

instance (attr : List CloudAttr) : Decidable (DistinctKeys attr) :=
  inferInstanceAs (Decidable (attr.Pairwise _))

/-- The last report to the cloud and the UI. -/
def lastReport (b : Board) : Option CJson :=
  match b.db.out.getLast? with
  | some (.platform root) => some root
  | _ => none

/-- The request has come back: what it names is reported and stored as it was
set, and nothing else is stored but `CookbookName`. -/
structure RoundTrip (root : CJson) (attr : List CloudAttr) (b : Board) : Prop where
  reported : ∀ (j : Nat) a item, attr[j]? = some a → root.getObjectItem a.cloudKey = some item →
    ((lastReport b).bind fun msg => msg.getObjectItem a.cloudKey) = some (.number item.valueint)
  stored : ∀ (j : Nat) a item, attr[j]? = some a → root.getObjectItem a.cloudKey = some item →
    ∃ a', b.dev.attr[j]? = some a' ∧ cloudVal a'.bytes = item.valueint
  others : ∀ (k : Nat) a, attr[k]? = some a → root.hasObjectItem a.cloudKey = false →
    nameAt attr ≠ some k → b.dev.attr[k]? = some a

/-- The payload a SET request hands over, read back as a frame. -/
def SetEventAgree (root : CJson) (b : Board) : Prop :=
  ∀ now rowid b', cloudRespSet root now rowid b = some b' →
    ∃ payload, (b'.handed = b.handed ++ if payload = [] then [] else [payload]) ∧
      ∀ value, Reads value 0 payload →
        ∃ b'', sendDataToCloud value payload.length b' = some b'' ∧
          RoundTrip root b.dev.attr b''

theorem getObjectItem_of_members {msg : Members} {key : CStr} {item : CJson}
    (hmem : (key, item) ∈ msg)
    (hall : ∀ m ∈ msg, caseInsensitiveEq key m.1 = true → m.2 = item) :
    (CJson.object msg).getObjectItem key = some item := by
  have hsome : (msg.find? fun m => caseInsensitiveEq key m.1).isSome = true := by
    rw [List.find?_isSome]
    exact ⟨_, hmem, caseInsensitiveEq_refl key⟩
  obtain ⟨m, hm⟩ := Option.isSome_iff_exists.mp hsome
  have hkey : caseInsensitiveEq key m.1 = true := by simpa using List.find?_some hm
  rw [CJson.getObjectItem, hm, Option.map_some, hall m (List.mem_of_find?_eq_some hm) hkey]

theorem caseInsensitiveEq_comm {a b : CStr} : caseInsensitiveEq a b = caseInsensitiveEq b a := by
  simp only [caseInsensitiveEq]
  exact Bool.beq_comm

theorem DistinctKeys.eq {attr : List CloudAttr} (h : DistinctKeys attr) {j k : Nat}
    {a c : CloudAttr} (ha : attr[j]? = some a) (hc : attr[k]? = some c)
    (heq : caseInsensitiveEq a.cloudKey c.cloudKey = true) : j = k :=
  eq_of_pairwise h ha hc (by rw [heq]; decide) (by rw [caseInsensitiveEq_comm, heq]; decide)

/-- What is reported of an attribute named is the value it was set to. -/
theorem Echoed.getObjectItem {root : CJson} {attr : List CloudAttr} {done : List Nat}
    {out : Board × Members} (h : Echoed root attr done out) (hkeys : DistinctKeys attr)
    {j : Nat} {a : CloudAttr} {item : CJson} (hj : j ∈ done) (ha : attr[j]? = some a)
    (hitem : root.getObjectItem a.cloudKey = some item) :
    (CJson.object out.2).getObjectItem a.cloudKey = some (.number item.valueint) := by
  refine getObjectItem_of_members (h.reported j hj a item ha hitem) fun m hm heq => ?_
  rcases h.members m hm with ⟨hname, hat⟩ | ⟨k, -, c, item', hc, hitem', rfl⟩
  · obtain ⟨q, hq⟩ := Option.ne_none_iff_exists'.mp hat
    obtain ⟨c, hc, hck⟩ := getAttrPtr_some hq
    have hjq : j = q := hkeys.eq ha hc (by rw [hck, ← hname]; exact heq)
    exact absurd (hjq ▸ hq) (h.apart j hj)
  · have hjk : j = k := hkeys.eq ha hc heq
    subst hjk
    obtain rfl := Option.some.inj (ha.symm.trans hc)
    obtain rfl := Option.some.inj (hitem.symm.trans hitem')
    rfl

theorem lastReport_reportMsg {b : Board} {msg : Members} (h : msg ≠ []) :
    lastReport (b.reportMsg msg) = some (.object msg) := by
  have hnull : (CJson.object msg).isNull = false := by
    obtain ⟨m, rest, rfl⟩ := List.exists_cons_of_ne_nil h
    rfl
  simp [lastReport, Board.reportMsg, reportMsgAllPlatform, hnull]

/-- **SET encoding and EVENT decoding agree**: the payload of a request comes back
as the values it was made of, for every table and every request that fits, unless
the request names an attribute without a key or `CookbookName`, or the report of
`CookbookName` reads the state of the stages. -/
theorem set_event_agree (root : CJson) (b : Board) (hkeys : DistinctKeys b.dev.attr)
    (hsized : Sized b.dev.attr) (hbuf : b.uartBuf.length = 256)
    (hfits : RequestFits root b.dev.attr) (hname : Nameable root b.dev.attr)
    (hread : NameReadable b.dev.attr) :
    (∃ b', respSetFrame root b = some b') ∧ SetEventAgree root b := by
  obtain ⟨b₁, hframe, hdev, -, hhanded⟩ := respSetFrame_payload hfits hbuf
  refine ⟨⟨b₁, hframe⟩, fun now rowid b' hset => ?_⟩
  have hb' : b'.dev = b.dev ∧ b'.handed = b₁.handed := by
    obtain ⟨c, db, respDb, hc, -, rfl⟩ := cloudRespSet_cases hset
    obtain rfl := Option.some.inj (hframe.symm.trans hc)
    exact ⟨hdev, rfl⟩
  refine ⟨setPayload root b.dev.attr, hb'.2.trans hhanded, fun value hmem => ?_⟩
  have hnodup : ([] ++ setPlaces root b.dev.attr b.dev.attr.length).Nodup :=
    List.nodup_range.filter _
  have hstart : Echoed root b.dev.attr [] (b', []) := hb'.1 ▸ echoed_nil
  obtain ⟨out, hout, hecho⟩ := foldlM_echoed hfits hsized hread hname
    (fun j hj => (mem_setPlaces.mp hj).2) hnodup hmem hstart
  have hdone : ∀ {j : Nat} {a : CloudAttr} {item : CJson}, b.dev.attr[j]? = some a →
      root.getObjectItem a.cloudKey = some item →
      j ∈ (setPlaces root b.dev.attr b.dev.attr.length).reverse ++ [] := by
    intro j a item ha hitem
    rw [List.append_nil, List.mem_reverse, mem_setPlaces]
    exact ⟨(List.getElem?_eq_some_iff.mp ha).1, named_iff.mpr ⟨a, item, ha, hitem⟩⟩
  refine ⟨out.1.reportMsg out.2, ?_, ?_, ?_, ?_⟩
  · rw [sendDataToCloud_eq, hb'.1, records_setPayload hfits hmem, hout]
    rfl
  · intro j a item ha hitem
    have hne : out.2 ≠ [] :=
      List.ne_nil_of_mem (hecho.reported j (hdone ha hitem) a item ha hitem)
    rw [lastReport_reportMsg hne, Option.bind_some]
    exact hecho.getObjectItem hkeys (hdone ha hitem) ha hitem
  · intro j a item ha hitem
    exact hecho.stored j (hdone ha hitem) a item ha hitem
  · intro k a ha hno hq
    refine hecho.rest k a ?_ hq ha
    rw [List.append_nil, List.mem_reverse, mem_setPlaces]
    rintro ⟨-, c, hc, hn⟩
    obtain rfl := Option.some.inj (ha.symm.trans hc)
    rw [hno] at hn
    cases hn

/-! ## Requests that come back, and requests that do not -/

/-- A power switch, a temperature and the cookbook. -/
def ovenBoard : Board :=
  startBoard oneRecipe
    [⟨cstr "SysPower", .num, .attrReportCtrl, 5, 1, [0]⟩,
      ⟨cstr "LStOvSetTemp", .num, .attrReportCtrl, 68, 2, [0, 0]⟩,
      ⟨cstr "CookbookID", .num, .attrReportCtrl, 80, 4, [0, 0, 0, 0]⟩,
      ⟨cstr "CookbookName", .string, .attrReportCtrl, 0, 8, List.replicate 8 0⟩]

/-- Two values of which one is the command of the other, and a recipe. -/
def ovenRequest : CJson :=
  .object [(cstr "cookbookid", .number 7), (cstr "LStOvSetTemp", .number 1285),
    (cstr "SysPower", .number 68)]

theorem set_event_agree_oven :
    (∃ b', respSetFrame ovenRequest ovenBoard = some b') ∧ SetEventAgree ovenRequest ovenBoard := by
  refine set_event_agree ovenRequest ovenBoard ?_ ?_ List.length_replicate ?_ ?_ ?_
  · decide +kernel
  · decide +kernel
  · decide +kernel
  · decide +kernel
  · decide +kernel

/-- A request does not come back when the frame made of it has no defined effect,
or reports another value under the name of the attribute. -/
theorem not_setEventAgree {root : CJson} {b : Board} (j : Nat) (payload : List UInt8) (val : Int)
    {a : CloudAttr} (ha : b.dev.attr[j]? = some a)
    (hval : (root.getObjectItem a.cloudKey).map CJson.valueint = some val) (hb : b.handed = [])
    (hhanded : (cloudRespSet root 0 1 b).map (·.handed) = some [payload])
    (hecho : (((cloudRespSet root 0 1 b).bind fun b' =>
        sendDataToCloud (fun k => payload.getD k 0) payload.length b').bind fun b'' =>
          ((lastReport b'').bind fun msg => msg.getObjectItem a.cloudKey).map CJson.valueint) ≠
      some val) : ¬ SetEventAgree root b := by
  intro h
  obtain ⟨item, hitem, rfl⟩ := Option.map_eq_some_iff.mp hval
  obtain ⟨b', hb', hp⟩ := Option.map_eq_some_iff.mp hhanded
  obtain ⟨payload', hp', hfeed⟩ := h 0 1 b' hb'
  have hsame : payload' = payload := by
    rw [hp, hb, List.nil_append] at hp'
    split at hp'
    · cases hp'
    · exact (List.singleton_inj.mp hp').symm
  subst hsame
  have hreads : Reads (fun k => payload'.getD k 0) 0 payload' := by
    intro k c hc
    simp [List.getD, hc]
  obtain ⟨b'', hb'', hround⟩ := hfeed _ hreads
  refine hecho ?_
  rw [hb', Option.bind_some, hb'', Option.bind_some, hround.reported j a item ha hitem]
  rfl

/-- The four exceptions, as requests: an attribute without a key; `CookbookName`
named and reported before it is set; a report of it as the state of the stages;
and a lookup into it when a request has resized it. -/
theorem set_event_disagree :
    (let b := startBoard noRecipes [⟨[], .num, .attrReportCtrl, 5, 1, [0]⟩]
      let root := CJson.object [([], .number 1)]
      DistinctKeys b.dev.attr ∧ Sized b.dev.attr ∧ RequestFits root b.dev.attr ∧
        ¬ SetEventAgree root b) ∧
    (let b := startBoard noRecipes [⟨cstr "MultiMode", .num, .attrReportCtrl, 79, 1, [0]⟩,
        ⟨cstr "CookbookName", .num, .attrReportCtrl, 6, 1, [0]⟩]
      let root := CJson.object [(cstr "MultiMode", .number 1), (cstr "CookbookName", .number 5)]
      DistinctKeys b.dev.attr ∧ Sized b.dev.attr ∧ RequestFits root b.dev.attr ∧
        ¬ SetEventAgree root b) ∧
    (let b := startBoard noRecipes [⟨cstr "MultiMode", .num, .attrReportCtrl, 79, 1, [0]⟩,
        ⟨cstr "CookbookName", .struct, .attrReportCtrl, 77, 0, []⟩]
      let root := CJson.object [(cstr "MultiMode", .number 1)]
      DistinctKeys b.dev.attr ∧ Sized b.dev.attr ∧ RequestFits root b.dev.attr ∧
        ¬ SetEventAgree root b) ∧
    (let b := startBoard oneRecipe [⟨cstr "CookbookID", .num, .attrReportCtrl, 80, 1, [0]⟩,
        ⟨cstr "CookbookName", .struct, .attrReportCtrl, 76, 25, List.replicate 13 0⟩]
      let root := CJson.object [(cstr "CookbookID", .number 7)]
      DistinctKeys b.dev.attr ∧ Sized b.dev.attr ∧ RequestFits root b.dev.attr ∧
        ¬ SetEventAgree root b) := by
  refine ⟨⟨by decide +kernel, by decide +kernel, by decide +kernel, ?_⟩,
    ⟨by decide +kernel, by decide +kernel, by decide +kernel, ?_⟩,
    ⟨by decide +kernel, by decide +kernel, by decide +kernel, ?_⟩,
    ⟨by decide +kernel, by decide +kernel, by decide +kernel, ?_⟩⟩
  · exact not_setEventAgree 0 [5, 1] 1 rfl (by decide +kernel) rfl (by decide +kernel)
      (by decide +kernel)
  · exact not_setEventAgree 1 [79, 1, 6, 5] 5 rfl (by decide +kernel) rfl (by decide +kernel)
      (by decide +kernel)
  · exact not_setEventAgree 0 [79, 1] 1 rfl (by decide +kernel) rfl (by decide +kernel)
      (by decide +kernel)
  · exact not_setEventAgree 0 [80, 7] 7 rfl (by decide +kernel) rfl (by decide +kernel)
      (by decide +kernel)

end X50
