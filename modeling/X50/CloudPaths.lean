/-
# `X50.CloudPaths` — the four report paths, and what they do to the history

A report is made on a frame of the board, on a new connection, on GET and on
GETALL.  All four loop over attributes; only the first writes to them as well,
from a payload that is a sequence of records (a command byte, then as many bytes
as the attribute of that command is long).

The table "as the payload leaves it" is the shadow the loops are read against
(`X50.Lib.Trigger`): whether some report of the loop looks a recipe up is decided
by the payload, the table and the recipes.  `report_keeps_history_iff` says that
the history survives a report exactly when none does.
-/
import X50.CloudReport
import X50.Lib.Trigger

namespace X50

open X50.Lib

/-! ## The records of a payload -/

/-- The records `send_data_to_cloud` finds from `i` on: where each begins, and
the attribute it is for. -/
def recordsFrom (value : Nat → UInt8) (valueLen : Nat) (attr : List CloudAttr) :
    Nat → Nat → List (Nat × Nat)
  | 0, _ => []
  | fuel + 1, i =>
      if i < valueLen then
        match attrOfCmd attr (value i) with
        | none => recordsFrom value valueLen attr fuel (i + 1)
        | some j =>
            let len := ((attr[j]?.map fun a => a.uartByteLen.toNat).getD 0)
            (i, j) :: recordsFrom value valueLen attr fuel (i + len + 1)
      else []

def records (value : Nat → UInt8) (valueLen : Nat) (attr : List CloudAttr) : List (Nat × Nat) :=
  recordsFrom value valueLen attr (valueLen + 1) 0

section Records

variable {value : Nat → UInt8} {valueLen fuel i : Nat} {attr : List CloudAttr}

theorem recordsFrom_end (h : valueLen ≤ i) : recordsFrom value valueLen attr fuel i = [] := by
  cases fuel with
  | zero => rfl
  | succ fuel => rw [recordsFrom, if_neg (by omega)]

theorem recordsFrom_skip (hi : i < valueLen) (h : attrOfCmd attr (value i) = none) :
    recordsFrom value valueLen attr (fuel + 1) i =
      recordsFrom value valueLen attr fuel (i + 1) := by
  rw [recordsFrom, if_pos hi, h]

theorem recordsFrom_cons {j : Nat} {a : CloudAttr} (hi : i < valueLen)
    (h : attrOfCmd attr (value i) = some j) (ha : attr[j]? = some a) :
    recordsFrom value valueLen attr (fuel + 1) i =
      (i, j) :: recordsFrom value valueLen attr fuel (i + a.uartByteLen.toNat + 1) := by
  simp only [recordsFrom, if_pos hi, h, ha, Option.map_some, Option.getD_some]

/-- Every record begins with the command of its attribute. -/
theorem attrOfCmd_of_mem_recordsFrom {r : Nat × Nat}
    (h : r ∈ recordsFrom value valueLen attr fuel i) :
    attrOfCmd attr (value r.1) = some r.2 := by
  induction fuel generalizing i with
  | zero => exact absurd h List.not_mem_nil
  | succ fuel ih =>
      rw [recordsFrom] at h
      split at h
      · split at h
        · exact ih h
        · rename_i j hj
          rcases List.mem_cons.mp h with rfl | h
          · exact hj
          · exact ih h
      · exact absurd h List.not_mem_nil

end Records

/-- The value the record at `i` gives an attribute. -/
def CloudAttr.write (value : Nat → UInt8) (i : Nat) (a : CloudAttr) : CloudAttr :=
  { a with value := (List.range a.uartByteLen.toNat).map (fun k => value (i + 1 + k)) ++
      a.value.drop a.uartByteLen.toNat }

/-- The table behind one record. -/
def writeRecord (value : Nat → UInt8) (attr : List CloudAttr) (r : Nat × Nat) : List CloudAttr :=
  attr.modify r.2 (CloudAttr.write value r.1)

/-- They are the bytes it is decoded from. -/
theorem CloudAttr.write_bytes {value : Nat → UInt8} {i : Nat} {a : CloudAttr} :
    (a.write value i).bytes = (List.range a.uartByteLen.toNat).map fun k => value (i + 1 + k) := by
  simp [CloudAttr.bytes, CloudAttr.write]

theorem CloudAttr.write_length {value : Nat → UInt8} {i : Nat} {a : CloudAttr}
    (h : a.uartByteLen.toNat ≤ a.value.length) :
    (a.write value i).value.length = a.value.length := by
  simp only [write, List.length_append, List.length_map, List.length_range, List.length_drop]
  omega

/-- The first byte behind the command is the first of the value. -/
theorem CloudAttr.write_first {value : Nat → UInt8} {i : Nat} {a : CloudAttr}
    (h : 1 ≤ a.uartByteLen.toNat) : (a.write value i).value.head? = some (value (i + 1)) := by
  obtain ⟨n, hn⟩ : ∃ n, a.uartByteLen.toNat = n + 1 := ⟨_, (Nat.sub_add_cancel h).symm⟩
  simp [write, hn, List.range_succ_eq_map]

/-- A value of at least one byte has a first. -/
theorem CloudAttr.head_of_length {a : CloudAttr} (h : 1 ≤ a.uartByteLen.toNat)
    (hlen : a.uartByteLen.toNat ≤ a.value.length) : ∃ d, a.value.head? = some d := by
  cases hv : a.value with
  | nil =>
      rw [hv, List.length_nil] at hlen
      omega
  | cons d rest => exact ⟨d, rfl⟩

theorem CloudAttr.write_head {value : Nat → UInt8} {i : Nat} {a a' : CloudAttr}
    (hl : a'.uartByteLen = a.uartByteLen) (hh : a'.value.head? = a.value.head?) :
    (a'.write value i).value.head? = (a.write value i).value.head? := by
  simp only [write, hl]
  cases hn : a.uartByteLen.toNat with
  | zero => simpa using hh
  | succ n => simp [List.range_succ_eq_map]

theorem KeptAttr.write {value : Nat → UInt8} {i : Nat} {a a' : CloudAttr} (h : KeptAttr a a') :
    KeptAttr (a.write value i) (a'.write value i) where
  layout := by
    have hlen : (a'.write value i).value.length = (a.write value i).value.length := by
      simp [CloudAttr.write, CloudAttr.layout_uartByteLen h.layout,
        CloudAttr.layout_length h.layout]
    show ({ a' with value := _ } : CloudAttr) = { a with value := _ }
    simp only [hlen, CloudAttr.mk.injEq]
    exact ⟨CloudAttr.layout_cloudKey h.layout, CloudAttr.layout_cloudValueType h.layout,
      CloudAttr.layout_cloudFunType h.layout, CloudAttr.layout_uartCmd h.layout,
      CloudAttr.layout_uartByteLen h.layout, trivial⟩
  head hk := CloudAttr.write_head (CloudAttr.layout_uartByteLen h.layout) (h.head hk)
  value hk ht := by
    simp only [CloudAttr.write, CloudAttr.layout_uartByteLen h.layout, h.value hk ht]

theorem writeRecord_get {value : Nat → UInt8} {attr : List CloudAttr} {r : Nat × Nat} {k : Nat} :
    (writeRecord value attr r)[k]? =
      attr[k]?.map fun a => if r.2 = k then a.write value r.1 else a := by
  simp [writeRecord, List.getElem?_modify]

theorem nameAt_writeRecord {value : Nat → UInt8} {attr : List CloudAttr} {r : Nat × Nat} :
    nameAt (writeRecord value attr r) = nameAt attr := by
  have hk : (writeRecord value attr r).map CloudAttr.cloudKey = attr.map CloudAttr.cloudKey := by
    refine List.ext_getElem? fun k => ?_
    simp only [List.getElem?_map, writeRecord_get, Option.map_map]
    congr 1
    funext a
    by_cases hr : r.2 = k <;> simp [hr, CloudAttr.write]
  simpa [nameAt, getAttrPtr, List.findIdx?_map, Function.comp_def] using
    congrArg (List.findIdx? (· == cstr "CookbookName")) hk

theorem nameByte_writeRecord {value : Nat → UInt8} {t attr : List CloudAttr} {r : Nat × Nat}
    (h : Kept t attr) (hn : nameByte attr = nameByte t) :
    nameByte (writeRecord value attr r) = nameByte (writeRecord value t r) := by
  have hw : Kept (writeRecord value t r) (writeRecord value attr r) :=
    h.modify₂ fun _ _ => KeptAttr.write
  refine nameByte_congr hw.sameLayout fun q w w' hq hqw hqw' => ?_
  rw [nameAt_writeRecord] at hq
  obtain ⟨a, ha, -⟩ := getAttrPtr_some hq
  obtain ⟨a', ha', hk⟩ := h.get ha
  have hq' : nameAt attr = some q := (h.sameLayout.getAttrPtr _).trans hq
  have hhead : a'.value.head? = a.value.head? :=
    (nameByte_of_nameAt hq' ha').symm.trans (hn.trans (nameByte_of_nameAt hq ha))
  rw [writeRecord_get, ha] at hqw
  rw [writeRecord_get, ha'] at hqw'
  obtain rfl := Option.some.inj hqw
  obtain rfl := Option.some.inj hqw'
  by_cases hr : r.2 = q
  · simp only [hr, if_true]
    exact CloudAttr.write_head (CloudAttr.layout_uartByteLen hk.layout) hhead
  · simp only [hr, if_false]
    exact hhead

/-- A record that fits leaves the layout alone. -/
theorem sameLayout_writeRecord {value : Nat → UInt8} {attr : List CloudAttr} {r : Nat × Nat}
    (h : ∀ a, attr[r.2]? = some a → a.uartByteLen.toNat ≤ a.value.length) :
    SameLayout attr (writeRecord value attr r) := by
  refine List.ext_getElem? fun k => ?_
  simp only [List.getElem?_map, writeRecord_get, Option.map_map]
  refine Option.map_congr fun a ha => ?_
  by_cases hr : r.2 = k
  · have hlen : (a.write value r.1).value.length = a.value.length :=
      CloudAttr.write_length (h a (hr ▸ ha))
    simp only [Function.comp_apply, hr, if_true, CloudAttr.layout, hlen]
    rfl
  · simp [hr]

/-! ## Turns of a loop -/

/-- One turn of a report loop leads from `b` to `b'`, and the shadow of the table
from `t` to `t'`.  `looks` says that a recipe is looked up and found, `seen` which
attributes are put into the report besides. -/
structure Turn (t t' : List CloudAttr) (looks : Prop) (seen : Nat → Prop) (b b' : Board) :
    Prop where
  kept : Kept t' b'.dev.attr
  recipe : b'.db.recipe = b.db.recipe
  longer : b.db.historyList.length ≤ b'.db.historyList.length
  found : nameByte b.dev.attr = nameByte t → looks →
    b.db.historyList.length < b'.db.historyList.length
  quiet : nameByte b.dev.attr = nameByte t → ¬ looks →
    SameHistory b.db b'.db ∧ nameByte b'.dev.attr = nameByte t'
  reported : ∃ l, b'.reported = b.reported ++ l ∧ (∀ k, seen k → k ∈ l) ∧
    (∀ k ∈ l, seen k ∨ nameAt t = some k) ∧
    (nameByte b.dev.attr = nameByte t → ∀ k ∈ l, seen k ∨ looks) ∧
    (nameByte b.dev.attr = nameByte t → looks → ∀ k, nameAt t = some k → k ∈ l)
  requests : SameRequests b b'

/-- An attribute that is passed over. -/
theorem Turn.skip {t : List CloudAttr} {looks : Prop} {seen : Nat → Prop} {b : Board}
    (h : Kept t b.dev.attr) (hl : ¬ looks) (hs : ∀ k, ¬ seen k) : Turn t t looks seen b b where
  kept := h
  recipe := rfl
  longer := Nat.le_refl _
  found _ hlook := absurd hlook hl
  quiet hn _ := ⟨.refl _, hn⟩
  reported := ⟨[], by simp, by simp [hs], by simp, by simp, fun _ hlook => absurd hlook hl⟩
  requests := .refl _

/-- A report of one attribute, read against the shadow. -/
theorem Visit.turn {t : List CloudAttr} {j : Nat} {b b' : Board} (h : Kept t b.dev.attr)
    (hv : Visit j b b') :
    Turn t t (LooksUp b.db.recipe t j) (fun k => k = j ∧ Appears t j) b b' where
  kept := h.trans hv.kept
  recipe := hv.recipe
  longer := by
    by_cases hl : LooksUp b.db.recipe b.dev.attr j
    · exact (hv.found hl).le
    · rw [(hv.quiet hl).1.historyList]
  found hn hl := hv.found ((looksUp_congr h hn).mpr hl)
  quiet hn hl := by
    have hq := hv.quiet fun hl' => hl ((looksUp_congr h hn).mp hl')
    exact ⟨hq.1, hq.2.trans hn⟩
  reported := by
    obtain ⟨l, hl, hmem⟩ := hv.reported
    have happ : Appears b.dev.attr j ↔ Appears t j := appears_congr h.sameLayout
    have hat : nameAt b.dev.attr = nameAt t := h.sameLayout.getAttrPtr _
    simp only [happ, hat] at hmem
    refine ⟨l, hl, fun k hk => (hmem k).mpr (Or.inl hk), fun k hk => ?_, fun hn k hk => ?_,
      fun hn hlook k hk => (hmem k).mpr (Or.inr ⟨(looksUp_congr h hn).mpr hlook, hk⟩)⟩
    · exact ((hmem k).mp hk).imp_right And.right
    · exact ((hmem k).mp hk).imp_right fun hl => (looksUp_congr h hn).mp hl.1
  requests := hv.requests

/-- A second report behind the first, of an attribute that does not look up. -/
theorem Turn.andThen {t t' : List CloudAttr} {looks : Prop} {seen : Nat → Prop} {j : Nat}
    {b b' b'' : Board} (h : Turn t t' looks seen b b') (hv : Visit j b' b'')
    (hj : ∀ recipe attr, Kept t' attr → ¬ LooksUp recipe attr j) :
    Turn t t' looks (fun k => seen k ∨ (k = j ∧ Appears t' j)) b b'' where
  kept := h.kept.trans hv.kept
  recipe := hv.recipe.trans h.recipe
  longer := by
    rw [(hv.quiet (hj _ _ h.kept)).1.historyList]
    exact h.longer
  found hn hl := by
    rw [(hv.quiet (hj _ _ h.kept)).1.historyList]
    exact h.found hn hl
  quiet hn hl := by
    have hq := hv.quiet (hj _ _ h.kept)
    have hfirst := h.quiet hn hl
    exact ⟨hfirst.1.trans hq.1, hq.2.trans hfirst.2⟩
  reported := by
    obtain ⟨l, hl, hin, hout, hquiet, hlook⟩ := h.reported
    obtain ⟨l', hl', hmem⟩ := hv.reported
    have hmem' : ∀ k, k ∈ l' ↔ k = j ∧ Appears t' j := by
      intro k
      rw [hmem k, appears_congr h.kept.sameLayout]
      exact or_iff_left fun hk => hj _ _ h.kept hk.1
    refine ⟨l ++ l', by rw [hl', hl, List.append_assoc], ?_, ?_, ?_, ?_⟩
    · rintro k (hk | hk)
      · exact List.mem_append_left _ (hin k hk)
      · exact List.mem_append_right _ ((hmem' k).mpr hk)
    · intro k hk
      rcases List.mem_append.mp hk with hk | hk
      · exact (hout k hk).imp_left Or.inl
      · exact Or.inl (Or.inr ((hmem' k).mp hk))
    · intro hn k hk
      rcases List.mem_append.mp hk with hk | hk
      · exact (hquiet hn k hk).imp_left Or.inl
      · exact Or.inl (Or.inr ((hmem' k).mp hk))
    · intro hn hl k hk
      exact List.mem_append_left _ (hlook hn hl k hk)
  requests := h.requests.trans hv.requests

/-- The same turn, from a state with other reports and another shadow. -/
theorem Turn.from {t₀ t t' : List CloudAttr} {looks : Prop} {seen : Nat → Prop} {b₀ b b' : Board}
    (h : Turn t t' looks seen b b') (hdb : SameHistory b₀.db b.db)
    (hrecipe : b.db.recipe = b₀.db.recipe) (hrep : b.reported = b₀.reported)
    (hrec : SameRequests b₀ b)
    (hat : nameAt t = nameAt t₀)
    (hn : nameByte b₀.dev.attr = nameByte t₀ → nameByte b.dev.attr = nameByte t) :
    Turn t₀ t' looks seen b₀ b' where
  kept := h.kept
  recipe := h.recipe.trans hrecipe
  longer := hdb.historyList ▸ h.longer
  found hn₀ hl := hdb.historyList ▸ h.found (hn hn₀) hl
  quiet hn₀ hl := ⟨hdb.trans (h.quiet (hn hn₀) hl).1, (h.quiet (hn hn₀) hl).2⟩
  reported := by
    obtain ⟨l, hl, hin, hout, hquiet, hlook⟩ := h.reported
    exact ⟨l, hrep ▸ hl, hin, hat ▸ hout, fun h₀ => hquiet (hn h₀),
      fun h₀ => hat ▸ hlook (hn h₀)⟩
  requests := hrec.trans h.requests

/-! ## A turn of `send_data_to_cloud` -/

/-- The record turns the multi mode on. -/
def MultiModeOn (attr : List CloudAttr) (j : Nat) : Prop :=
  ∃ a ∈ attr[j]?, a.cloudKey = cstr "MultiMode" ∧ a.value.head? = some 1

instance (attr : List CloudAttr) (j : Nat) : Decidable (MultiModeOn attr j) :=
  inferInstanceAs (Decidable (∃ a ∈ attr[j]?, _ ∧ _))

/-- `CookbookName` is not `CookbookID`. -/
theorem not_looksUp_nameAt {recipe : RecipeTable} {attr : List CloudAttr} {q : Nat}
    (hq : nameAt attr = some q) : ¬ LooksUp recipe attr q := by
  obtain ⟨a, ha, hkey⟩ := getAttrPtr_some hq
  rintro ⟨a', ha', -, -, hid, -⟩
  obtain rfl := Option.some.inj (ha.symm.trans ha')
  rw [hkey] at hid
  exact absurd hid (by decide)

/-- The attributes a record puts into the report. -/
def RecordSeen (t' : List CloudAttr) (j k : Nat) : Prop :=
  (k = j ∧ Appears t' j) ∨ (MultiModeOn t' j ∧ nameAt t' = some k ∧ Appears t' k)

instance (t' : List CloudAttr) (j k : Nat) : Decidable (RecordSeen t' j k) :=
  inferInstanceAs (Decidable (_ ∨ _))

theorem multiModeOn_congr {t attr : List CloudAttr} (h : Kept t attr) {j : Nat} {a : CloudAttr}
    (ha : attr[j]? = some a) (hkey : a.cloudKey = cstr "MultiMode") :
    MultiModeOn t j ↔ a.value.head? = some 1 := by
  obtain ⟨a₀, ha₀, -⟩ := h.sameLayout.symm.get ha
  obtain ⟨a', ha', hk⟩ := h.get ha₀
  obtain rfl := Option.some.inj (ha.symm.trans ha')
  have hkey₀ : a₀.cloudKey = cstr "MultiMode" := (CloudAttr.layout_cloudKey hk.layout) ▸ hkey
  have hhead : a.value.head? = a₀.value.head? := hk.head (by rw [hkey₀]; decide)
  rw [hhead]
  constructor
  · rintro ⟨c, hc, -, hone⟩
    rwa [Option.some.inj (ha₀.symm.trans hc)]
  · exact fun hone => ⟨a₀, ha₀, hkey₀, hone⟩

theorem Turn.congr {t t' : List CloudAttr} {looks : Prop} {seen seen' : Nat → Prop}
    {b b' : Board} (h : Turn t t' looks seen b b') (hs : ∀ k, seen k ↔ seen' k) :
    Turn t t' looks seen' b b' := by
  have : seen = seen' := funext fun k => propext (hs k)
  exact this ▸ h

/-- How a record ends: where it turns the multi mode on, `CookbookName` is reported
behind it. -/
inductive RecordEnd (j : Nat) (a : CloudAttr) (mid : Board × Members) : Board × Members → Prop
  | other (hkey : a.cloudKey ≠ cstr "MultiMode") : RecordEnd j a mid mid
  | off {a' : CloudAttr} {c : UInt8} (hkey : a.cloudKey = cstr "MultiMode")
      (ha' : mid.1.dev.attr[j]? = some a') (hc : a'.value.head? = some c) (hoff : c ≠ 1) :
      RecordEnd j a mid mid
  | nameless (hno : nameAt mid.1.dev.attr = none) : RecordEnd j a mid mid
  | named {a' : CloudAttr} {q : Nat} {out : Board × Members}
      (hkey : a.cloudKey = cstr "MultiMode") (ha' : mid.1.dev.attr[j]? = some a')
      (hon : a'.value.head? = some 1) (hq : nameAt mid.1.dev.attr = some q)
      (hout : getAttrReportValue q mid.1 mid.2 = some out) : RecordEnd j a mid out

/-- A record is written, its attribute is reported, and then it ends. -/
theorem sendDataRecord_cases {value : Nat → UInt8} {i j : Nat} {b : Board} {root : Members}
    {out : Board × Members} (h : sendDataRecord value i j b root = some out) :
    ∃ a events mid, b.dev.attr[j]? = some a ∧
      getAttrReportEvent a (some (value (i + 1))) false = some events ∧
      a.uartByteLen.toNat ≤ a.value.length ∧
      getAttrReportValue j ((b.addOut events).setValue j (a.write value i).value) root = some mid ∧
      RecordEnd j a mid out := by
  obtain ⟨a, ha, h⟩ := Option.bind_eq_some_iff.mp h
  obtain ⟨events, hevents, h⟩ := Option.bind_eq_some_iff.mp h
  dsimp only at h
  split at h
  · cases h
  · rename_i hlen
    obtain ⟨mid, hmid, h⟩ := Option.bind_eq_some_iff.mp h
    refine ⟨a, events, mid, ha, hevents, Nat.not_lt.mp hlen, hmid, ?_⟩
    split at h
    · rename_i hkey
      obtain ⟨a', ha', h⟩ := Option.bind_eq_some_iff.mp h
      obtain ⟨c, hc, h⟩ := Option.bind_eq_some_iff.mp h
      split at h
      · rename_i hon
        subst hon
        split at h
        · rename_i hno
          obtain rfl := Option.some.inj h
          exact .nameless hno
        · rename_i q hq
          exact .named hkey ha' hc hq h
      · rename_i hoff
        obtain rfl := Option.some.inj h
        exact .off hkey ha' hc hoff
    · rename_i hkey
      obtain rfl := Option.some.inj h
      exact .other hkey

theorem record_written {value : Nat → UInt8} {r : Nat × Nat} {b : Board} {a : CloudAttr}
    {events : List Report} (ha : b.dev.attr[r.2]? = some a) :
    ((b.addOut events).setValue r.2 (a.write value r.1).value).dev.attr =
      writeRecord value b.dev.attr r := by
  refine List.ext_getElem? fun k => ?_
  simp only [Board.setValue, Board.addOut, List.getElem?_modify, writeRecord_get]
  by_cases hk : r.2 = k
  · subst hk
    simp [ha, CloudAttr.write]
  · simp [hk]

/-- The report of the record itself. -/
theorem record_turn {value : Nat → UInt8} {r : Nat × Nat} {t : List CloudAttr} {b : Board}
    {a : CloudAttr} {events : List Report} {root : Members} {mid : Board × Members}
    (h : Kept t b.dev.attr) (ha : b.dev.attr[r.2]? = some a)
    (hlen : a.uartByteLen.toNat ≤ a.value.length)
    (hmid : getAttrReportValue r.2
      ((b.addOut events).setValue r.2 (a.write value r.1).value) root = some mid) :
    Turn t (writeRecord value t r) (LooksUp b.db.recipe (writeRecord value t r) r.2)
        (fun k => k = r.2 ∧ Appears (writeRecord value t r) r.2) b mid.1 ∧
      SameLayout b.dev.attr mid.1.dev.attr := by
  have hattr : ((b.addOut events).setValue r.2 (a.write value r.1).value).dev.attr =
      writeRecord value b.dev.attr r := record_written ha
  have hvisit := getAttrReportValue_visit hmid
  have hkept : Kept (writeRecord value t r)
      ((b.addOut events).setValue r.2 (a.write value r.1).value).dev.attr :=
    hattr ▸ h.modify₂ fun _ _ => KeptAttr.write
  have hlayout : SameLayout b.dev.attr
      ((b.addOut events).setValue r.2 (a.write value r.1).value).dev.attr := by
    rw [hattr]
    refine sameLayout_writeRecord fun a' ha' => ?_
    obtain rfl := Option.some.inj (ha.symm.trans ha')
    exact hlen
  refine ⟨?_, hlayout.trans hvisit.kept.sameLayout⟩
  refine (hvisit.turn hkept).from ⟨rfl, rfl, rfl⟩ rfl rfl ⟨rfl, rfl, rfl⟩ nameAt_writeRecord ?_
  intro hn
  rw [hattr]
  exact nameByte_writeRecord h hn

/-- **One record of a payload.** -/
theorem sendDataRecord_turn {value : Nat → UInt8} {r : Nat × Nat} {t : List CloudAttr}
    {b : Board} {root : Members} {out : Board × Members} (h : Kept t b.dev.attr)
    (hout : sendDataRecord value r.1 r.2 b root = some out) :
    Turn t (writeRecord value t r) (LooksUp b.db.recipe (writeRecord value t r) r.2)
        (RecordSeen (writeRecord value t r) r.2) b out.1 ∧
      SameLayout b.dev.attr out.1.dev.attr := by
  obtain ⟨a, events, mid, ha, -, hlen, hmid, hend⟩ := sendDataRecord_cases hout
  obtain ⟨hfirst, hlayout⟩ := record_turn h ha hlen hmid
  have hat : nameAt mid.1.dev.attr = nameAt (writeRecord value t r) :=
    hfirst.kept.sameLayout.getAttrPtr _
  have hmulti : ∀ {a' : CloudAttr}, a.cloudKey = cstr "MultiMode" →
      mid.1.dev.attr[r.2]? = some a' →
      (MultiModeOn (writeRecord value t r) r.2 ↔ a'.value.head? = some 1) := by
    intro a' hkey ha'
    refine multiModeOn_congr hfirst.kept ha' ?_
    obtain ⟨a'', ha'', hl⟩ := hlayout.get ha
    obtain rfl := Option.some.inj (ha'.symm.trans ha'')
    exact (CloudAttr.layout_cloudKey hl).trans hkey
  cases hend with
  | other hkey =>
      refine ⟨hfirst.congr fun k => ?_, hlayout⟩
      have hno : ¬ MultiModeOn (writeRecord value t r) r.2 := by
        rintro ⟨c, hc, hmulti, -⟩
        obtain ⟨a₁, ha₁, hl⟩ := (hlayout.trans hfirst.kept.sameLayout.symm).get ha
        obtain rfl := Option.some.inj (ha₁.symm.trans hc)
        exact hkey ((CloudAttr.layout_cloudKey hl).symm.trans hmulti)
      simp [RecordSeen, hno]
  | off hkey ha' hc hoff =>
      refine ⟨hfirst.congr fun k => ?_, hlayout⟩
      simp [RecordSeen, hmulti hkey ha', hc, hoff]
  | nameless hno =>
      refine ⟨hfirst.congr fun k => ?_, hlayout⟩
      have hnone : nameAt (writeRecord value t r) = none := hat.symm.trans hno
      simp [RecordSeen, hnone]
  | @named a' q _ hkey ha' hon hq hout =>
      have hq' : nameAt (writeRecord value t r) = some q := hat.symm.trans hq
      have hsecond := getAttrReportValue_visit hout
      refine ⟨(hfirst.andThen hsecond fun recipe attr hk => ?_).congr fun k => ?_,
        hlayout.trans hsecond.kept.sameLayout⟩
      · exact not_looksUp_nameAt ((hk.sameLayout.getAttrPtr _).trans hq')
      · simp only [RecordSeen, hmulti hkey ha', hon, true_and, hq', Option.some.injEq]
        exact or_congr_right ⟨fun hk => ⟨hk.1.symm, hk.1 ▸ hk.2⟩,
          fun hk => ⟨hk.1.symm, hk.1 ▸ hk.2⟩⟩

/-- **The table a payload leaves**: what the loop keeps is what the records alone
would write. -/
theorem foldlM_sendDataRecord_kept {value : Nat → UInt8} {rs : List (Nat × Nat)}
    {t : List CloudAttr} {out out' : Board × Members} (h : Kept t out.1.dev.attr)
    (hout : rs.foldlM (fun out r => sendDataRecord value r.1 r.2 out.1 out.2) out = some out') :
    Kept (rs.foldl (writeRecord value) t) out'.1.dev.attr := by
  induction rs generalizing t out with
  | nil =>
      obtain rfl := Option.some.inj hout
      exact h
  | cons r rs ih =>
      obtain ⟨mid, hmid, hout⟩ := foldlM_cons_some.mp hout
      exact ih (sendDataRecord_turn h hmid).1.kept hout

/-- What records make of one attribute: those for it, one after the other. -/
theorem foldl_writeRecord_get {value : Nat → UInt8} {rs : List (Nat × Nat)} {t : List CloudAttr}
    {j : Nat} : (rs.foldl (writeRecord value) t)[j]? =
      t[j]?.map fun a => (rs.filter (·.2 == j)).foldl (fun a r => a.write value r.1) a := by
  induction rs generalizing t with
  | nil => simp
  | cons r rs ih =>
      rw [List.foldl_cons, ih, writeRecord_get, Option.map_map]
      refine Option.map_congr fun a _ => ?_
      by_cases hr : r.2 = j
      · simp [hr]
      · simp [hr]

/-! ## Loops -/

section Loop

variable {α : Type*} {f : Board × Members → α → Option (Board × Members)}
  {u : List CloudAttr → α → List CloudAttr} {recipe : RecipeTable}
  {looks : List CloudAttr → α → Prop} {seen : List CloudAttr → α → Nat → Prop}

/-- Every iteration of the loop is a turn. -/
def Turns (f : Board × Members → α → Option (Board × Members))
    (u : List CloudAttr → α → List CloudAttr) (recipe : RecipeTable)
    (looks : List CloudAttr → α → Prop) (seen : List CloudAttr → α → Nat → Prop) : Prop :=
  ∀ t out a out', Kept t out.1.dev.attr → out.1.db.recipe = recipe → f out a = some out' →
    Turn t (u t a) (looks t a) (seen t a) out.1 out'.1

/-- **A loop of turns and the history**: it survives exactly when no turn looks a
recipe up. -/
theorem loop_keeps_history_iff (hturn : Turns f u recipe looks seen) {t : List CloudAttr}
    {as : List α} {out out' : Board × Members} (h : Kept t out.1.dev.attr)
    (hn : nameByte out.1.dev.attr = nameByte t) (hr : out.1.db.recipe = recipe)
    (hout : as.foldlM f out = some out') :
    SameHistory out.1.db out'.1.db ↔ ¬ Triggers looks u t as := by
  let Good : List CloudAttr → Board × Members → Prop := fun t s =>
    Kept t s.1.dev.attr ∧ nameByte s.1.dev.attr = nameByte t ∧ s.1.db.recipe = recipe ∧
      SameHistory out.1.db s.1.db
  let Fired : Board × Members → Prop := fun s =>
    s.1.db.recipe = recipe ∧ out.1.db.historyList.length < s.1.db.historyList.length
  have hfire : ∀ t s a s', Good t s → f s a = some s' → looks t a → Fired s' := by
    rintro t s a s' ⟨hk, hn, hr, hsame⟩ hs hlook
    have hone := hturn t s a s' hk hr hs
    exact ⟨hone.recipe.trans hr, hsame.historyList ▸ hone.found hn hlook⟩
  have hquiet : ∀ t s a s', Good t s → f s a = some s' → ¬ looks t a → Good (u t a) s' := by
    rintro t s a s' ⟨hk, hn, hr, hsame⟩ hs hlook
    have hone := hturn t s a s' hk hr hs
    have hsame' := hone.quiet hn hlook
    exact ⟨hone.kept, hsame'.2, hone.recipe.trans hr, hsame.trans hsame'.1⟩
  have hstay : ∀ s a s', Fired s → f s a = some s' → Fired s' := by
    rintro s a s' ⟨hr, hlong⟩ hs
    have hone := hturn _ s a s' (Kept.refl _) hr hs
    exact ⟨hone.recipe.trans hr, lt_of_lt_of_le hlong hone.longer⟩
  have hstart : Good t out := ⟨h, hn, hr, .refl _⟩
  obtain ⟨hfired, hgood⟩ := foldlM_triggers hfire hquiet hstay hstart hout
  constructor
  · intro hsame ht
    have hlong := (hfired ht).2
    rw [hsame.historyList] at hlong
    exact absurd hlong (Nat.lt_irrefl _)
  · exact fun ht => (hgood ht).2.2.2

/-- A loop of turns writes nothing that a SET request writes. -/
theorem loop_requests (hturn : Turns f u recipe looks seen) {as : List α}
    {out out' : Board × Members} (hr : out.1.db.recipe = recipe)
    (hout : as.foldlM f out = some out') : SameRequests out.1 out'.1 := by
  let Same : Board × Members → Prop := fun s =>
    s.1.db.recipe = recipe ∧ SameRequests out.1 s.1
  have hstep : ∀ s a s', Same s → f s a = some s' → Same s' := by
    rintro s a s' ⟨hr, hrec⟩ hs
    have hone := hturn _ s a s' (Kept.refl _) hr hs
    exact ⟨hone.recipe.trans hr, hrec.trans hone.requests⟩
  exact (foldlM_keeps hstep ⟨hr, .refl _⟩ hout).2

/-- Nor does it change the layout, if no turn does. -/
theorem loop_sameLayout (hturn : Turns f u recipe looks seen)
    (hu : ∀ t a, SameLayout t (u t a)) {as : List α} {out out' : Board × Members}
    (hr : out.1.db.recipe = recipe) (hout : as.foldlM f out = some out') :
    SameLayout out.1.dev.attr out'.1.dev.attr := by
  let Same : Board × Members → Prop := fun s =>
    s.1.db.recipe = recipe ∧ SameLayout out.1.dev.attr s.1.dev.attr
  have hstep : ∀ s a s', Same s → f s a = some s' → Same s' := by
    rintro s a s' ⟨hr, hl⟩ hs
    have hone := hturn _ s a s' (Kept.refl _) hr hs
    exact ⟨hone.recipe.trans hr, hl.trans ((hu _ a).trans hone.kept.sameLayout)⟩
  exact (foldlM_keeps hstep ⟨hr, .refl _⟩ hout).2

/-- **A loop of turns and its reports**: an attribute that is bad gets into one
exactly when a turn puts it there. -/
theorem loop_reports_iff (hturn : Turns f u recipe looks seen) {bad : Nat → Prop}
    {P : List CloudAttr → α → Prop}
    (hP : ∀ t a, P t a ↔
      (∃ k, seen t a k ∧ bad k) ∨ (looks t a ∧ ∃ q, nameAt t = some q ∧ bad q))
    (hat : ∀ t a, nameAt (u t a) = nameAt t) {t : List CloudAttr} {as : List α}
    {out out' : Board × Members} (h : Kept t out.1.dev.attr)
    (hn : nameByte out.1.dev.attr = nameByte t) (hr : out.1.db.recipe = recipe)
    (hgood : ∀ k ∈ out.1.reported, ¬ bad k) (hout : as.foldlM f out = some out') :
    (∀ k ∈ out'.1.reported, ¬ bad k) ↔ ¬ Triggers P u t as := by
  let Good : List CloudAttr → Board × Members → Prop := fun t s =>
    Kept t s.1.dev.attr ∧ s.1.db.recipe = recipe ∧ (∀ k ∈ s.1.reported, ¬ bad k) ∧
      -- a lookup only matters as long as `CookbookName` must not be reported
      ∀ q, nameAt t = some q → bad q → nameByte s.1.dev.attr = nameByte t
  let Fired : Board × Members → Prop := fun s =>
    s.1.db.recipe = recipe ∧ ∃ k ∈ s.1.reported, bad k
  have hfire : ∀ t s a s', Good t s → f s a = some s' → P t a → Fired s' := by
    rintro t s a s' ⟨hk, hr, hs, hname⟩ hf hp
    have hone := hturn t s a s' hk hr hf
    obtain ⟨l, hl, hin, -, -, hlook⟩ := hone.reported
    refine ⟨hone.recipe.trans hr, ?_⟩
    rw [hl]
    rcases (hP t a).mp hp with ⟨k, hk, hbad⟩ | ⟨hlooks, q, hq, hbad⟩
    · exact ⟨k, List.mem_append_right _ (hin k hk), hbad⟩
    · exact ⟨q, List.mem_append_right _ (hlook (hname q hq hbad) hlooks q hq), hbad⟩
  have hquiet : ∀ t s a s', Good t s → f s a = some s' → ¬ P t a → Good (u t a) s' := by
    rintro t s a s' ⟨hk, hr, hs, hname⟩ hf hp
    have hone := hturn t s a s' hk hr hf
    obtain ⟨l, hl, -, hout, hnew, -⟩ := hone.reported
    have hno : ∀ q, nameAt t = some q → bad q → ¬ looks t a :=
      fun q hq hbad hlooks => hp ((hP t a).mpr (Or.inr ⟨hlooks, q, hq, hbad⟩))
    refine ⟨hone.kept, hone.recipe.trans hr, fun k hk hbad => ?_, fun q hq hbad => ?_⟩
    · rw [hl] at hk
      rcases List.mem_append.mp hk with hk | hk
      · exact hs k hk hbad
      · have hseen : ¬ seen t a k := fun hseen => hp ((hP t a).mpr (Or.inl ⟨k, hseen, hbad⟩))
        have hq : nameAt t = some k := (hout k hk).resolve_left hseen
        exact hno k hq hbad ((hnew (hname k hq hbad) k hk).resolve_left hseen)
    · rw [hat] at hq
      exact (hone.quiet (hname q hq hbad) (hno q hq hbad)).2
  have hstay : ∀ s a s', Fired s → f s a = some s' → Fired s' := by
    rintro s a s' ⟨hr, k, hk, hbad⟩ hf
    have hone := hturn _ s a s' (Kept.refl _) hr hf
    obtain ⟨l, hl, -⟩ := hone.reported
    exact ⟨hone.recipe.trans hr, k, hl ▸ List.mem_append_left _ hk, hbad⟩
  have hstart : Good t out := ⟨h, hr, hgood, fun _ _ _ => hn⟩
  obtain ⟨hfired, hkept⟩ := foldlM_triggers hfire hquiet hstay hstart hout
  constructor
  · intro hall ht
    obtain ⟨-, k, hk, hbad⟩ := hfired ht
    exact hall k hk hbad
  · exact fun ht => (hkept ht).2.2.1

end Loop

theorem recordsFrom_congr {value : Nat → UInt8} {valueLen : Nat} {attr attr' : List CloudAttr}
    (h : SameLayout attr attr') {fuel i : Nat} :
    recordsFrom value valueLen attr' fuel i = recordsFrom value valueLen attr fuel i := by
  induction fuel generalizing i with
  | zero => rfl
  | succ fuel ih =>
      simp only [recordsFrom, h.attrOfCmd]
      split
      · cases hj : attrOfCmd attr (value i) with
        | none => exact ih
        | some j =>
            have hlen : attr'[j]?.map (fun a => a.uartByteLen.toNat) =
                attr[j]?.map fun a => a.uartByteLen.toNat := by
              have := congrArg (fun l => l[j]?) (h.map_eq (fun a => a.uartByteLen.toNat) fun _ => rfl)
              simpa using this
            simp only [hlen, ih]
      · rfl

/-- A record keeps the layout, whatever the shadow. -/
theorem sendDataRecord_sameLayout {value : Nat → UInt8} {i j : Nat} {b : Board} {root : Members}
    {out : Board × Members} (hout : sendDataRecord value i j b root = some out) :
    SameLayout b.dev.attr out.1.dev.attr :=
  (sendDataRecord_turn (r := (i, j)) (Kept.refl _) hout).2

/-- The loop of `send_data_to_cloud` goes from record to record; its fuel is
enough. -/
theorem sendDataLoop_eq {value : Nat → UInt8} {valueLen fuel i : Nat} {b : Board} {root : Members}
    (hpos : 0 < fuel) (hfuel : valueLen < i + fuel) :
    sendDataLoop value valueLen fuel i b root =
      (recordsFrom value valueLen b.dev.attr fuel i).foldlM
        (fun out r => sendDataRecord value r.1 r.2 out.1 out.2) (b, root) := by
  induction fuel generalizing i b root with
  | zero => exact absurd hpos (Nat.lt_irrefl 0)
  | succ fuel ih =>
      simp only [sendDataLoop, recordsFrom]
      split
      · cases hj : attrOfCmd b.dev.attr (value i) with
        | none => exact ih (by omega) (by omega)
        | some j =>
            dsimp only
            rw [List.foldlM_cons]
            cases hout : sendDataRecord value i j b root with
            | none => rfl
            | some out =>
                have hlayout := sendDataRecord_sameLayout hout
                obtain ⟨a, ha, -⟩ := attrOfCmd_some hj
                obtain ⟨a', ha', hl⟩ := hlayout.get ha
                simp only [ha, ha', Option.map_some, Option.getD_some, Option.bind_eq_bind,
                  Option.bind_some, CloudAttr.layout_uartByteLen hl]
                rw [ih (by omega) (by omega), recordsFrom_congr hlayout]
      · rfl

end X50
