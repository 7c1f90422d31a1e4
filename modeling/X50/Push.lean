/-
# `X50.Push` — the events that are pushed to the user

A record of `LStOvState`, `RStOvState` or `ErrorCodeShow` may post an event, which
the user sees on the phone.  `get_attr_report_event` compares the byte of the
record with the one that is stored, and `send_data_to_cloud` stores it afterwards,
so the events are the changes: `pushEvents` reads them off the records alone, and
`push_events` says that a run of reports posts those and no others.

A record is found by its command.  Where two attributes share one, the first in the
table decides how long the record is, and a longer record of the other is taken
apart (`push_events_torn`); the table of the device has such attributes.
-/
import X50.FrameBytes

namespace X50

open X50.Lib

/-! ## Records and reports -/

/-- The keys with a push event. -/
def PushKey (key : CStr) : Prop :=
  key = cstr "LStOvState" ∨ key = cstr "RStOvState" ∨ key = cstr "ErrorCodeShow"

instance (key : CStr) : Decidable (PushKey key) := inferInstanceAs (Decidable (_ ∨ _))

/-- A record of a board report: the place of its attribute in the table, and the bytes
of the value. -/
structure BoardRecord where
  place : Nat
  bytes : List UInt8
deriving DecidableEq, Repr

/-- A board report, and what the memory holds behind it. -/
structure BoardReport where
  records : List BoardRecord
  stale : Nat → UInt8

/-- A record on the link: the command of its attribute, and the value. -/
def recordBytes (attr : List CloudAttr) (r : BoardRecord) : List UInt8 :=
  (attr[r.place]?.map (·.uartCmd)).getD 0 :: r.bytes

/-- The payload of a report. -/
def payloadOf (attr : List CloudAttr) (rs : List BoardRecord) : List UInt8 :=
  rs.flatMap (recordBytes attr)

/-- The record is as long as its attribute. -/
def BoardRecord.Whole (attr : List CloudAttr) (r : BoardRecord) : Prop :=
  ∃ a ∈ attr[r.place]?, r.bytes.length = a.uartByteLen.toNat

/-- The first attribute with the command of the record is as long as its own. -/
def BoardRecord.InStep (attr : List CloudAttr) (r : BoardRecord) : Prop :=
  ∃ a ∈ attr[r.place]?, ∃ j ∈ attrOfCmd attr a.uartCmd, ∃ c ∈ attr[j]?,
    c.uartByteLen = a.uartByteLen

/-- The attributes with a push event are reported numbers of one byte, each with a
command of its own. -/
def PushTable (attr : List CloudAttr) : Prop :=
  ∀ j, j < attr.length → ∀ a ∈ attr[j]?, PushKey a.cloudKey →
    a.isReported = true ∧ a.cloudValueType = .num ∧ a.uartByteLen = 1 ∧
      ∀ k, k < attr.length → ∀ c ∈ attr[k]?, c.uartCmd = a.uartCmd → k = j

/-- Nothing but zeros is stored. -/
def AllZero (attr : List CloudAttr) : Prop := ∀ a ∈ attr, ∀ v ∈ a.value, v = 0

/-- One report of the board. -/
def pushMachine : Machine Board BoardReport where
  step b report :=
    let payload := payloadOf b.dev.attr report.records
    sendDataToCloud (memoryOf payload report.stale) payload.length b

/-! ## The events -/

def Report.isEvent : Report → Bool
  | .event _ _ => true
  | _ => false

/-- What `linkkit_user_post_event` has been handed. -/
def Board.posted (b : Board) : List Report := b.db.out.filter Report.isEvent

/-- The event of a record that changes a value of key `key` from `old` to `new`. -/
def pushEvent (key : CStr) (old new : UInt8) : List Report :=
  if key = cstr "LStOvState" then
    if old ≠ 4 ∧ new = 4 then [.event (cstr "LCookPush") none] else []
  else if key = cstr "RStOvState" then
    if old ≠ 4 ∧ new = 4 then [.event (cstr "RCookPush") none] else []
  else if key = cstr "ErrorCodeShow" then
    if old ≠ new then
      [.event (cstr "ErrorPush") (some (.object [(cstr "FaultCode", .number new.toNat)]))]
    else []
  else []

/-- The key of an attribute. -/
def keyAt (attr : List CloudAttr) (j : Nat) : CStr := (attr[j]?.map (·.cloudKey)).getD []

/-- The events of a sequence of records, where `store` is the byte stored for each
attribute before it. -/
def pushEvents (attr : List CloudAttr) : (Nat → UInt8) → List BoardRecord → List Report
  | _, [] => []
  | store, r :: rs =>
      pushEvent (keyAt attr r.place) (store r.place) (r.bytes.headD 0) ++
        pushEvents attr (Function.update store r.place (r.bytes.headD 0)) rs

/-! ## Reports post nothing -/

theorem posted_reportMsg (b : Board) (root : Members) : (b.reportMsg root).posted = b.posted := by
  rw [Board.posted, Board.reportMsg, reportMsgAllPlatform]
  dsimp only
  split
  · rfl
  · rw [List.filter_append]
    exact List.append_nil _

theorem posted_addOut (b : Board) (out : List Report) :
    (b.addOut out).posted = b.posted ++ out.filter Report.isEvent := List.filter_append ..

theorem posted_reportCookbookID {val : Int} {b b' : Board}
    (h : reportCookbookID val b = some b') : b'.posted = b.posted := by
  rw [reportCookbookID] at h
  split at h
  · split at h
    · exact congrArg _ (Option.some.inj h).symm
    · obtain ⟨a, -, h⟩ := Option.bind_eq_some_iff.mp h
      split at h
      · obtain ⟨found, hfound, h⟩ := Option.bind_eq_some_iff.mp h
        have hout : found.1.out = b.db.out :=
          selectForCookbookID_keeps (I := fun s => s.out = b.db.out)
            (fun s r _ item hs => hs) rfl hfound
        have hposted : ∀ c : Board, c.db.out = b.db.out → c.posted = b.posted := by
          intro c hc
          rw [Board.posted, hc, Board.posted]
        cases hname : found.2 with
        | none =>
            rw [hname] at h
            obtain rfl := Option.some.inj h
            exact hposted _ hout
        | some name =>
            rw [hname] at h
            obtain rfl := Option.some.inj h
            exact (posted_reportMsg _ _).trans (hposted _ hout)
      · exact congrArg _ (Option.some.inj h).symm
  · exact congrArg _ (Option.some.inj h).symm

theorem posted_getAttrReportValue {j : Nat} {b : Board} {resp : Members} {out : Board × Members}
    (h : getAttrReportValue j b resp = some out) : out.1.posted = b.posted := by
  obtain ⟨a, ha, ⟨-, rfl⟩ | ⟨-, made, hmade, rfl⟩⟩ := getAttrReportValue_cases h
  · rfl
  · have hmid : made.1.posted = b.posted := by
      rcases attrItem_cases hmade with ⟨hsame, -, -⟩ | ⟨-, -, -, hset, -⟩ | ⟨-, -, -, hid⟩
      · rw [hsame]
      · rw [hset]
        rfl
      · exact posted_reportCookbookID hid
    dsimp only
    split
    · exact hmid
    · exact hmid

/-! ## One record -/

/-- The board has the layout of `t`, and `store` is what it holds for the attributes
with a push event. -/
structure Stored (t : List CloudAttr) (store : Nat → UInt8) (b : Board) : Prop where
  layout : SameLayout t b.dev.attr
  byte : ∀ (j : Nat) (a : CloudAttr), b.dev.attr[j]? = some a → PushKey a.cloudKey →
    ∀ v ∈ a.value.head?, v = store j

variable {t : List CloudAttr} {store : Nat → UInt8} {b b' : Board}

theorem keyAt_eq {attr : List CloudAttr} {j : Nat} {a : CloudAttr} (ha : attr[j]? = some a) :
    keyAt attr j = a.cloudKey := by
  rw [keyAt, ha]
  rfl

/-- The board has the keys of `t`. -/
theorem Stored.keyAt_eq (h : Stored t store b) {j : Nat} {a : CloudAttr}
    (ha : b.dev.attr[j]? = some a) : keyAt t j = a.cloudKey := by
  obtain ⟨a₀, ha₀, hlayout⟩ := h.layout.symm.get ha
  rw [X50.keyAt_eq ha₀]
  exact CloudAttr.layout_cloudKey hlayout

theorem pushKey_ne_name {key : CStr} (h : PushKey key) : key ≠ cstr "CookbookName" := by
  rcases h with rfl | rfl | rfl <;> decide

/-- What a report keeps. -/
theorem Stored.kept (h : Stored t store b) (hk : Kept b.dev.attr b'.dev.attr) :
    Stored t store b' := by
  refine ⟨h.layout.trans hk.sameLayout, ?_⟩
  intro j a' ha' hkey v hv
  obtain ⟨a, ha, -⟩ := hk.sameLayout.symm.get ha'
  obtain ⟨c, hc, hkept⟩ := hk.get ha
  obtain rfl := Option.some.inj (ha'.symm.trans hc)
  have hkey' : PushKey a.cloudKey := CloudAttr.layout_cloudKey hkept.layout ▸ hkey
  rw [hkept.head (pushKey_ne_name hkey')] at hv
  exact h.byte j a ha hkey' v hv

/-- The event is that of the change. -/
theorem getAttrReportEvent_push {a : CloudAttr} {old new : UInt8} (hr : a.isReported = true)
    (ht : a.cloudValueType = .num) (hkey : PushKey a.cloudKey) (hold : a.value.head? = some old) :
    getAttrReportEvent a (some new) false = some (pushEvent a.cloudKey old new) := by
  have hcook : ∀ event, cookPush event a (some new) false =
      some (if old ≠ 4 ∧ new = 4 then [.event event none] else []) := by
    intro event
    rw [cookPush, hold]
    by_cases hnew : new = 4
    · subst hnew
      by_cases hne : old = 4 <;> simp [hne]
    · simp [hnew]
  rw [getAttrReportEvent, hr, ht, hold]
  simp only [Bool.not_true, Bool.false_eq_true, if_false, ne_eq, not_true_eq_false, hcook]
  rcases hkey with hl | hrk | he
  · rw [hl]
    simp only [pushEvent, if_true]
  · have hne : cstr "RStOvState" ≠ cstr "LStOvState" := by decide
    rw [hrk]
    simp only [pushEvent, hne, if_true, if_false]
  · have hne : cstr "ErrorCodeShow" ≠ cstr "LStOvState" := by decide
    have hne' : cstr "ErrorCodeShow" ≠ cstr "RStOvState" := by decide
    rw [he]
    simp only [pushEvent, hne, hne', if_true, if_false]
    by_cases hch : old = new <;> simp [hch]

theorem pushEvent_other {key : CStr} (h : ¬ PushKey key) (old new : UInt8) :
    pushEvent key old new = [] := by
  simp only [PushKey, not_or] at h
  rw [pushEvent, if_neg h.1, if_neg h.2.1, if_neg h.2.2]

theorem filter_pushEvent (key : CStr) (old new : UInt8) :
    (pushEvent key old new).filter Report.isEvent = pushEvent key old new := by
  rw [pushEvent]
  repeat' split
  all_goals rfl

theorem recordEnd_kept {j : Nat} {a : CloudAttr} {mid out : Board × Members}
    (h : RecordEnd j a mid out) :
    Kept mid.1.dev.attr out.1.dev.attr ∧ out.1.posted = mid.1.posted := by
  cases h with
  | other => exact ⟨Kept.refl _, rfl⟩
  | off => exact ⟨Kept.refl _, rfl⟩
  | nameless => exact ⟨Kept.refl _, rfl⟩
  | named _ _ _ _ hout =>
      exact ⟨(getAttrReportValue_visit hout).kept, posted_getAttrReportValue hout⟩

/-- The table, as the board has it. -/
theorem Stored.pushes (ht : PushTable t) (h : Stored t store b) {j : Nat} {a : CloudAttr}
    (ha : b.dev.attr[j]? = some a) (hk : PushKey a.cloudKey) :
    a.isReported = true ∧ a.cloudValueType = .num ∧ a.uartByteLen = 1 := by
  obtain ⟨a₀, ha₀, hlayout⟩ := h.layout.symm.get ha
  have hj : j < t.length := (List.getElem?_eq_some_iff.mp ha₀).1
  obtain ⟨hr, hnum, hone, -⟩ := ht j hj a₀ ha₀ ((CloudAttr.layout_cloudKey hlayout).symm ▸ hk)
  exact ⟨(CloudAttr.layout_isReported hlayout) ▸ hr,
    (CloudAttr.layout_cloudValueType hlayout) ▸ hnum,
    (CloudAttr.layout_uartByteLen hlayout) ▸ hone⟩

/-- What is posted for a record is the event of its change. -/
theorem Stored.event (ht : PushTable t) (h : Stored t store b) {j : Nat} {a : CloudAttr}
    {new v : UInt8} {events : List Report} (ha : b.dev.attr[j]? = some a)
    (hlen : a.uartByteLen.toNat ≤ a.value.length) (hv : PushKey a.cloudKey → new = v)
    (hevents : getAttrReportEvent a (some new) false = some events) :
    events.filter Report.isEvent = pushEvent a.cloudKey (store j) v := by
  by_cases hk : PushKey a.cloudKey
  · obtain ⟨hr, hnum, hone⟩ := h.pushes ht ha hk
    obtain ⟨old, hold⟩ := CloudAttr.head_of_length (by rw [hone]; decide) hlen
    rw [getAttrReportEvent_push hr hnum hk hold, hv hk] at hevents
    rw [← Option.some.inj hevents, filter_pushEvent, h.byte j a ha hk old hold]
  · have hquiet : a.pushes = false := by
      simp only [PushKey, not_or] at hk
      simp [CloudAttr.pushes, hk]
    rw [getAttrReportEvent_quiet hquiet] at hevents
    rw [← Option.some.inj hevents, pushEvent_other hk]
    rfl

/-- What is stored for a record is its byte. -/
theorem Stored.write (ht : PushTable t) (h : Stored t store b) {value : Nat → UInt8} {i j : Nat}
    {a : CloudAttr} {v : UInt8} (ha : b.dev.attr[j]? = some a)
    (hlen : a.uartByteLen.toNat ≤ a.value.length) (hv : PushKey a.cloudKey → value (i + 1) = v) :
    Stored t (Function.update store j v) (b.setValue j (a.write value i).value) := by
  refine ⟨h.layout.trans (Board.setValue_sameLayout ha (CloudAttr.write_length hlen)), ?_⟩
  intro k c hc hk w hw
  by_cases hkj : k = j
  · subst hkj
    obtain rfl := Option.some.inj ((Board.setValue_get_self ha).symm.trans hc)
    obtain ⟨-, -, hone⟩ := h.pushes ht ha hk
    have hhead : (a.write value i).value.head? = some (value (i + 1)) :=
      CloudAttr.write_first (by rw [hone]; decide)
    rw [Function.update_self, ← hv hk]
    exact Option.some.inj (hw.symm.trans hhead)
  · rw [Board.setValue_get_ne hkj] at hc
    rw [Function.update_of_ne hkj]
    exact h.byte k c hc hk w hw

/-- **One record**: its event is posted, and its byte is stored. -/
theorem sendDataRecord_push {value : Nat → UInt8} {i j : Nat} {root : Members}
    {out : Board × Members} {v : UInt8} (ht : PushTable t) (h : Stored t store b)
    (hv : PushKey (keyAt t j) → value (i + 1) = v)
    (hout : sendDataRecord value i j b root = some out) :
    out.1.posted = b.posted ++ pushEvent (keyAt t j) (store j) v ∧
      Stored t (Function.update store j v) out.1 := by
  obtain ⟨a, events, mid, ha, hevents, hlen, hmid, hend⟩ := sendDataRecord_cases hout
  obtain ⟨hkept', hposted'⟩ := recordEnd_kept hend
  have hkept := (getAttrReportValue_visit hmid).kept
  have hposted : mid.1.posted = b.posted ++ events.filter Report.isEvent :=
    (posted_getAttrReportValue hmid).trans (posted_addOut b events)
  rw [h.keyAt_eq ha] at hv ⊢
  refine ⟨by rw [hposted', hposted, h.event ht ha hlen hv hevents], ?_⟩
  have hadded : Stored t store (b.addOut events) := ⟨h.layout, h.byte⟩
  have hwritten := hadded.write ht ha hlen hv
  exact (hwritten.kept hkept).kept hkept'

/-! ## A payload of whole records -/

/-- The bytes stored behind a sequence of records. -/
def storeAfter (store : Nat → UInt8) (rs : List BoardRecord) : Nat → UInt8 :=
  rs.foldl (fun store r => Function.update store r.place (r.bytes.headD 0)) store

theorem pushEvents_append (attr : List CloudAttr) (store : Nat → UInt8) (rs rs' : List BoardRecord) :
    pushEvents attr store (rs ++ rs') =
      pushEvents attr store rs ++ pushEvents attr (storeAfter store rs) rs' := by
  induction rs generalizing store with
  | nil => rfl
  | cons r rs ih =>
      rw [List.cons_append, pushEvents, pushEvents, ih, List.append_assoc]
      rfl

/-- Only the attributes with a push event count. -/
theorem Stored.congr {store' : Nat → UInt8} (h : Stored t store b)
    (heq : ∀ j, PushKey (keyAt t j) → store' j = store j) : Stored t store' b := by
  refine ⟨h.layout, ?_⟩
  intro j a ha hkey v hv
  rw [heq j ((h.keyAt_eq ha).symm ▸ hkey)]
  exact h.byte j a ha hkey v hv

/-- An attribute with a push event is the first with its command. -/
theorem PushTable.unique (ht : PushTable t) {j k : Nat} {a c : CloudAttr} (ha : t[j]? = some a)
    (hc : t[k]? = some c) (hcmd : c.uartCmd = a.uartCmd) (hkey : PushKey a.cloudKey) : k = j := by
  have hj : j < t.length := (List.getElem?_eq_some_iff.mp ha).1
  have hk : k < t.length := (List.getElem?_eq_some_iff.mp hc).1
  obtain ⟨-, -, -, hown⟩ := ht j hj a ha hkey
  exact hown k hk c hc hcmd

/-- **One whole record of the payload**: `send_data_to_cloud` takes it for the first
attribute with its command, which is its own if it has a push event. -/
theorem boardRecord_push {value : Nat → UInt8} {i j : Nat} {a c : CloudAttr} {root : Members}
    {out : Board × Members} {r : BoardRecord} (ht : PushTable t) (h : Stored t store b)
    (ha : t[r.place]? = some a) (hc : t[j]? = some c) (hcmd : c.uartCmd = a.uartCmd)
    (hlen : r.bytes.length = a.uartByteLen.toNat) (hread : Reads value (i + 1) r.bytes)
    (hout : sendDataRecord value i j b root = some out) :
    out.1.posted = b.posted ++ pushEvent (keyAt t r.place) (store r.place) (r.bytes.headD 0) ∧
      Stored t (Function.update store r.place (r.bytes.headD 0)) out.1 := by
  have hplace : keyAt t r.place = a.cloudKey := keyAt_eq ha
  have hj : keyAt t j = c.cloudKey := keyAt_eq hc
  by_cases hjp : j = r.place
  · subst hjp
    refine sendDataRecord_push ht h ?_ hout
    intro hkey
    have hlt : r.place < t.length := (List.getElem?_eq_some_iff.mp ha).1
    obtain ⟨-, -, hone, -⟩ := ht r.place hlt a ha (hplace ▸ hkey)
    obtain ⟨v, hv⟩ : ∃ v, r.bytes = [v] := List.length_eq_one_iff.mp (by rw [hlen, hone]; rfl)
    rw [hv]
    exact hread 0 v (by rw [hv]; rfl)
  · -- two attributes share the command, so neither has a push event
    have hnp : ¬ PushKey (keyAt t r.place) := by
      intro hkey
      exact hjp (ht.unique ha hc hcmd (hplace ▸ hkey))
    have hnj : ¬ PushKey (keyAt t j) := by
      intro hkey
      exact hjp (ht.unique hc ha hcmd.symm (hj ▸ hkey)).symm
    obtain ⟨hposted, hstored⟩ := sendDataRecord_push (v := 0) ht h (fun hkey => absurd hkey hnj) hout
    refine ⟨?_, hstored.congr fun k hk => ?_⟩
    · rw [hposted, pushEvent_other hnj, pushEvent_other hnp]
    · have hkp : k ≠ r.place := by
        rintro rfl
        exact hnp hk
      have hkj : k ≠ j := by
        rintro rfl
        exact hnj hk
      rw [Function.update_of_ne hkp, Function.update_of_ne hkj]

/-- **A payload of whole records**: their events are posted, and their bytes stored. -/
theorem records_push {value : Nat → UInt8} {n fuel i : Nat} {root : Members}
    {out : Board × Members} {rs : List BoardRecord} (ht : PushTable t) (h : Stored t store b)
    (hrs : ∀ r ∈ rs, r.Whole t ∧ r.InStep t) (hread : Reads value i (payloadOf t rs))
    (hn : n = i + (payloadOf t rs).length) (hfuel : (payloadOf t rs).length < fuel)
    (hout : (recordsFrom value n t fuel i).foldlM
      (fun out r => sendDataRecord value r.1 r.2 out.1 out.2) (b, root) = some out) :
    out.1.posted = b.posted ++ pushEvents t store rs ∧ Stored t (storeAfter store rs) out.1 := by
  induction rs generalizing store b i fuel root with
  | nil =>
      rw [recordsFrom_end (by simp [hn, payloadOf])] at hout
      obtain rfl := Option.some.inj hout
      exact ⟨(List.append_nil _).symm, h⟩
  | cons r rs ih =>
      obtain ⟨⟨a, ha, hlen⟩, ⟨a', ha', j, hj, c, hc, hbytes⟩⟩ := hrs r List.mem_cons_self
      obtain rfl := Option.some.inj (ha.symm.trans ha')
      obtain ⟨c', hc', hcmd⟩ := attrOfCmd_some hj
      obtain rfl := Option.some.inj (hc.symm.trans hc')
      have hpayload : payloadOf t (r :: rs) = (a.uartCmd :: r.bytes) ++ payloadOf t rs := by
        rw [payloadOf, List.flatMap_cons, recordBytes, ha]
        rfl
      have hsize : (payloadOf t (r :: rs)).length =
          c.uartByteLen.toNat + 1 + (payloadOf t rs).length := by
        rw [hpayload, List.length_append, List.length_cons, hlen, hbytes]
      rw [hpayload] at hread
      have hfirst : value i = a.uartCmd := hread.left.head
      have hbody : Reads value (i + 1) r.bytes := hread.left.tail
      obtain ⟨fuel, rfl⟩ : ∃ f, fuel = f + 1 := ⟨fuel - 1, by omega⟩
      rw [recordsFrom_cons (by omega) (hfirst ▸ hj) hc, foldlM_cons_some] at hout
      obtain ⟨mid, hmid, hout⟩ := hout
      obtain ⟨hposted, hstored⟩ := boardRecord_push ht h ha hc hcmd hlen hbody hmid
      have hnext : i + c.uartByteLen.toNat + 1 = i + (a.uartCmd :: r.bytes).length := by
        rw [List.length_cons, hlen, hbytes]
        omega
      rw [hnext] at hout
      have hlast := ih hstored (fun q hq => hrs q (List.mem_cons_of_mem _ hq)) hread.right
        (by rw [hn, hsize, ← hnext]; omega) (by omega) hout
      refine ⟨?_, hlast.2⟩
      rw [hlast.1, hposted, pushEvents, List.append_assoc]

/-! ## Runs of reports -/

theorem payloadOf_congr {attr attr' : List CloudAttr} (h : SameLayout attr attr')
    (rs : List BoardRecord) : payloadOf attr' rs = payloadOf attr rs := by
  have hcmd : ∀ j : Nat, attr'[j]?.map CloudAttr.uartCmd = attr[j]?.map CloudAttr.uartCmd := by
    intro j
    have hmap := congrArg (fun l => l[j]?) (h.map_eq CloudAttr.uartCmd fun _ => rfl)
    simpa using hmap
  have hrecord : recordBytes attr' = recordBytes attr := by
    funext r
    exact congrArg (fun cmd => Option.getD cmd 0 :: r.bytes) (hcmd r.place)
  rw [payloadOf, payloadOf, hrecord]

/-- One report of whole records. -/
theorem report_push {report : BoardReport} (ht : PushTable t) (h : Stored t store b)
    (hrs : ∀ r ∈ report.records, r.Whole t ∧ r.InStep t)
    (hstep : pushMachine.step b report = some b') :
    b'.posted = b.posted ++ pushEvents t store report.records ∧
      Stored t (storeAfter store report.records) b' := by
  have hpayload := payloadOf_congr h.layout report.records
  have hrun : sendDataToCloud (memoryOf (payloadOf t report.records) report.stale)
      (payloadOf t report.records).length b = some b' := by
    rw [← hpayload]
    exact hstep
  rw [sendDataToCloud_eq] at hrun
  obtain ⟨out, hout, rfl⟩ := Option.map_eq_some_iff.mp hrun
  rw [records, recordsFrom_congr h.layout] at hout
  obtain ⟨hposted, hstored⟩ := records_push ht h hrs
    (reads_memoryOf (payloadOf t report.records) report.stale) (Nat.zero_add _).symm
    (Nat.lt_succ_self _) hout
  exact ⟨(posted_reportMsg _ _).trans hposted, ⟨hstored.layout, hstored.byte⟩⟩

theorem run_push {reports : List BoardReport} (ht : PushTable t) (h : Stored t store b)
    (hrs : ∀ report ∈ reports, ∀ r ∈ report.records, r.Whole t ∧ r.InStep t)
    (hrun : pushMachine.run b reports = some b') :
    b'.posted = b.posted ++ pushEvents t store (reports.flatMap (·.records)) := by
  induction reports generalizing b store with
  | nil =>
      obtain rfl := Option.some.inj hrun
      exact (List.append_nil _).symm
  | cons report reports ih =>
      obtain ⟨mid, hmid, hrun⟩ := Machine.run_cons.mp hrun
      obtain ⟨hposted, hstored⟩ := report_push ht h (hrs report List.mem_cons_self) hmid
      have hrest := ih hstored (fun q hq => hrs q (List.mem_cons_of_mem _ hq)) hrun
      rw [hrest, hposted, List.flatMap_cons, pushEvents_append, List.append_assoc]

/-- **The push events are the changes.**  From a table of zeros, a run of reports made
of whole records, each of which the first attribute with its command can hold, posts
one event for each record that changes a value as the event asks, in order. -/
theorem push_events (b b' : Board) (ht : PushTable b.dev.attr) (hzero : AllZero b.dev.attr)
    (reports : List BoardReport)
    (hrs : ∀ report ∈ reports, ∀ r ∈ report.records, r.Whole b.dev.attr ∧ r.InStep b.dev.attr)
    (hrun : pushMachine.run b reports = some b') :
    b'.posted =
      b.posted ++ pushEvents b.dev.attr (fun _ => 0) (reports.flatMap (·.records)) := by
  have hstart : Stored b.dev.attr (fun _ => 0) b := by
    refine ⟨SameLayout.refl _, ?_⟩
    intro j a ha _ v hv
    exact hzero a (List.mem_of_getElem? ha) v (List.mem_of_mem_head? hv)
  exact run_push ht hstart hrs hrun

/-- The left oven is done in the second record, and an error shows and goes. -/
def ovenAttrs : List CloudAttr :=
  [⟨cstr "LStOvState", .num, .attrReport, 66, 1, [0]⟩,
    ⟨cstr "RStOvState", .num, .attrReport, 82, 1, [0]⟩,
    ⟨cstr "ErrorCodeShow", .num, .attrReport, 11, 1, [0]⟩]

def ovenReports : List BoardReport :=
  [⟨[⟨0, [2]⟩, ⟨0, [4]⟩, ⟨0, [4]⟩, ⟨2, [7]⟩], fun _ => 0⟩, ⟨[⟨2, [7]⟩, ⟨2, [0]⟩], fun _ => 0⟩]

theorem push_events_oven :
    ∃ b', pushMachine.run (startBoard noRecipes ovenAttrs) ovenReports = some b' ∧
      b'.posted = [] ++ pushEvents ovenAttrs (fun _ => 0) (ovenReports.flatMap (·.records)) := by
  have hrun : (pushMachine.run (startBoard noRecipes ovenAttrs) ovenReports).isSome = true := by
    decide +kernel
  obtain ⟨b', hb'⟩ := Option.isSome_iff_exists.mp hrun
  refine ⟨b', hb', push_events _ b' ?_ ?_ ovenReports ?_ hb'⟩
  · unfold PushTable
    decide +kernel
  · unfold AllZero
    decide +kernel
  · unfold BoardRecord.Whole BoardRecord.InStep
    decide +kernel

/-- A recipe's name and the version of the board share the command 0. -/
def sharedAttrs : List CloudAttr :=
  ⟨cstr "ComSWVersion", .string, .attrReport, 0, 0, []⟩ :: ovenAttrs ++
    [⟨cstr "CookbookName", .string, .attrReportCtrl, 0, 64, List.replicate 64 0⟩]

/-- A name that begins with the command of the left oven, and 4. -/
def nameReport : BoardReport := ⟨[⟨4, 66 :: 4 :: List.replicate 62 0⟩], fun _ => 0⟩

/-- **A longer record is taken apart**: the name posts the event of an oven that is
done. -/
theorem push_events_torn :
    PushTable sharedAttrs ∧ AllZero sharedAttrs ∧
      (∀ r ∈ nameReport.records, r.Whole sharedAttrs) ∧
      ∃ b', pushMachine.run (startBoard noRecipes sharedAttrs) [nameReport] = some b' ∧
        b'.posted ≠ pushEvents sharedAttrs (fun _ => 0) nameReport.records := by
  have hrun : ((pushMachine.run (startBoard noRecipes sharedAttrs) [nameReport]).map
      fun b' => b'.posted.length) = some 1 := by decide +kernel
  obtain ⟨b', hb', hlen⟩ := Option.map_eq_some_iff.mp hrun
  refine ⟨?_, ?_, ?_, b', hb', ?_⟩
  · unfold PushTable
    decide +kernel
  · unfold AllZero
    decide +kernel
  · unfold BoardRecord.Whole
    decide +kernel
  · intro hposted
    rw [hposted] at hlen
    exact absurd hlen (by decide +kernel)

end X50
