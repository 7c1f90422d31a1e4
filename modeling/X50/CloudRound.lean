/-
# `X50.CloudRound` — what SET encodes, EVENT decodes

`cloud_resp_set` writes a payload of records by going through the table,
`send_data_to_cloud` reads one by going through the payload.  The second undoes
the first: when the payload of a SET request comes back in a frame of the board,
every attribute named is reported with the value it was set to, and no other is
touched.

The argument has two halves that meet at `setPayload`, the payload of a request
in the order of the table: the writer's loop builds it (`respSetFrame_payload`),
and the reader's records are its records (`records_setPayload`), whatever the
bytes of the values are.
-/
import X50.CloudAccess
import X50.Memory
import X50.Lib.BigEndian

namespace X50

open X50.Lib

/-! ## The payload of a request -/

/-- The record of attribute `j`: its command, and the value in as many bytes as
the attribute is long. -/
def setRecord (root : CJson) (attr : List CloudAttr) (j : Nat) : List UInt8 :=
  match attr[j]? with
  | none => []
  | some a =>
      match root.getObjectItem a.cloudKey with
      | none => []
      | some item => a.uartCmd :: BigEndian.encode a.uartByteLen.toNat item.valueint.toNat

/-- The attributes named, of the first `n`. -/
def setPlaces (root : CJson) (attr : List CloudAttr) (n : Nat) : List Nat :=
  (List.range n).filter fun j => Named root attr j

/-- The payload of a request. -/
def setPayload (root : CJson) (attr : List CloudAttr) : List UInt8 :=
  (setPlaces root attr attr.length).flatMap (setRecord root attr)

/-- A value an attribute can carry: NUM, reported and controlled, one to four
bytes, and room in them and in an `int`. -/
structure Carries (a : CloudAttr) (val : Int) : Prop where
  num : a.cloudValueType = .num
  reportCtrl : a.cloudFunType = .attrReportCtrl
  lenPos : 1 ≤ a.uartByteLen.toNat
  lenLe : a.uartByteLen.toNat ≤ 4
  nonneg : 0 ≤ val
  fits : val < 256 ^ a.uartByteLen.toNat
  int : val < 2 ^ 31

instance (a : CloudAttr) (val : Int) : Decidable (Carries a val) :=
  decidable_of_iff (a.cloudValueType = .num ∧ a.cloudFunType = .attrReportCtrl ∧
      1 ≤ a.uartByteLen.toNat ∧ a.uartByteLen.toNat ≤ 4 ∧ 0 ≤ val ∧
      val < 256 ^ a.uartByteLen.toNat ∧ val < 2 ^ 31)
    ⟨fun ⟨h₁, h₂, h₃, h₄, h₅, h₆, h₇⟩ => ⟨h₁, h₂, h₃, h₄, h₅, h₆, h₇⟩,
      fun ⟨h₁, h₂, h₃, h₄, h₅, h₆, h₇⟩ => ⟨h₁, h₂, h₃, h₄, h₅, h₆, h₇⟩⟩

/-- Every attribute the request names can carry its value, and has a command of
its own. -/
structure RequestFits (root : CJson) (attr : List CloudAttr) : Prop where
  carries : ∀ a ∈ attr, ∀ item ∈ root.getObjectItem a.cloudKey, Carries a item.valueint
  command : attr.Pairwise fun a c =>
    root.hasObjectItem a.cloudKey ∨ root.hasObjectItem c.cloudKey → a.uartCmd ≠ c.uartCmd
  room : (setPayload root attr).length ≤ 256

instance (root : CJson) (attr : List CloudAttr) : Decidable (RequestFits root attr) :=
  decidable_of_iff ((∀ a ∈ attr, ∀ item ∈ root.getObjectItem a.cloudKey,
      Carries a item.valueint) ∧
      (attr.Pairwise fun a c => root.hasObjectItem a.cloudKey ∨ root.hasObjectItem c.cloudKey →
        a.uartCmd ≠ c.uartCmd) ∧ (setPayload root attr).length ≤ 256)
    ⟨fun h => ⟨h.1, h.2.1, h.2.2⟩, fun h => ⟨h.1, h.2, h.3⟩⟩

/-- Two places of a list whose elements are pairwise apart are one. -/
theorem eq_of_pairwise {α : Type*} {R : α → α → Prop} {l : List α} (h : l.Pairwise R)
    {j k : Nat} {a c : α} (ha : l[j]? = some a) (hc : l[k]? = some c) (hac : ¬ R a c)
    (hca : ¬ R c a) : j = k := by
  obtain ⟨hj, rfl⟩ := List.getElem?_eq_some_iff.mp ha
  obtain ⟨hk, rfl⟩ := List.getElem?_eq_some_iff.mp hc
  rw [List.pairwise_iff_getElem] at h
  rcases Nat.lt_trichotomy j k with hlt | heq | hlt
  · exact absurd (h j k hj hk hlt) hac
  · exact heq
  · exact absurd (h k j hk hj hlt) hca

/-- The command of an attribute named is that of no other. -/
theorem RequestFits.command_unique {root : CJson} {attr : List CloudAttr}
    (h : RequestFits root attr) {j k : Nat} {a c : CloudAttr} (ha : attr[j]? = some a)
    (hn : root.hasObjectItem a.cloudKey = true) (hc : attr[k]? = some c)
    (hcmd : c.uartCmd = a.uartCmd) : k = j :=
  eq_of_pairwise h.command hc ha (fun hr => hr (Or.inr hn) hcmd)
    fun hr => hr (Or.inl hn) hcmd.symm

theorem named_iff {root : CJson} {attr : List CloudAttr} {j : Nat} :
    Named root attr j ↔ ∃ a item, attr[j]? = some a ∧
      root.getObjectItem a.cloudKey = some item := by
  constructor
  · rintro ⟨a, ha, hn⟩
    obtain ⟨item, hitem⟩ := CJson.hasObjectItem_iff.mp hn
    exact ⟨a, item, ha, hitem⟩
  · rintro ⟨a, item, ha, hitem⟩
    exact ⟨a, ha, CJson.hasObjectItem_iff.mpr ⟨item, hitem⟩⟩

theorem setRecord_eq {root : CJson} {attr : List CloudAttr} {j : Nat} {a : CloudAttr}
    {item : CJson} (ha : attr[j]? = some a) (hitem : root.getObjectItem a.cloudKey = some item) :
    setRecord root attr j =
      a.uartCmd :: BigEndian.encode a.uartByteLen.toNat item.valueint.toNat := by
  simp [setRecord, ha, hitem]

theorem setPlaces_succ {root : CJson} {attr : List CloudAttr} {n : Nat} :
    setPlaces root attr (n + 1) =
      setPlaces root attr n ++ if Named root attr n then [n] else [] := by
  rw [setPlaces, List.range_succ, List.filter_append]
  by_cases hn : Named root attr n <;> simp [hn, setPlaces]

theorem mem_setPlaces {root : CJson} {attr : List CloudAttr} {n j : Nat} :
    j ∈ setPlaces root attr n ↔ j < n ∧ Named root attr j := by
  simp [setPlaces]

/-- A part of the table makes a part of the payload. -/
theorem setPlaces_length_le {root : CJson} {attr : List CloudAttr} {m n : Nat} (h : m ≤ n) :
    ((setPlaces root attr m).flatMap (setRecord root attr)).length ≤
      ((setPlaces root attr n).flatMap (setRecord root attr)).length := by
  induction n, h using Nat.le_induction with
  | base => exact Nat.le_refl _
  | succ n _ ih =>
      rw [setPlaces_succ, List.flatMap_append, List.length_append]
      omega

/-! ## The writer -/

theorem ofInt_natCast {n : Nat} : UInt8.ofInt (n : Int) = UInt8.ofNat n := by
  refine UInt8.toNat_inj.mp ?_
  rw [UInt8.ofInt, UInt8.toNat_ofNat', UInt8.toNat_ofNat']
  omega

/-- The two byte loops write the same. -/
theorem numBytes_eq {val : Int} {len : Nat} (h0 : 0 ≤ val) (hlen : len ≤ 4) :
    numBytes val len = some (BigEndian.encode len val.toNat) := by
  obtain ⟨n, rfl⟩ := Int.eq_ofNat_of_zero_le h0
  rw [numBytes, if_pos hlen, BigEndian.encode]
  refine congrArg some (List.map_congr_left fun i _ => ?_)
  rw [Int.toNat_natCast, ← Int.natCast_shiftRight, ofInt_natCast]

theorem getAttrSetValue_num {a : CloudAttr} {item : CJson} {remind : List CStr}
    (h : Carries a item.valueint) : getAttrSetValue a item remind =
      some ⟨a, remind, some (BigEndian.encode a.uartByteLen.toNat item.valueint.toNat)⟩ := by
  simp only [getAttrSetValue, h.num, numBytes_eq h.nonneg h.lenLe, Option.bind_eq_bind,
    Option.bind_some, Option.pure_def]

theorem writeAt_take {buf bytes : List UInt8} {off : Nat} (h : off + bytes.length ≤ buf.length) :
    ∃ buf', writeAt buf off bytes = some buf' ∧ buf'.length = buf.length ∧
      buf'.take (off + bytes.length) = buf.take off ++ bytes := by
  refine ⟨_, if_pos h, ?_, ?_⟩
  · simp only [List.length_append, List.length_take, List.length_drop]
    omega
  · have hlen : off + bytes.length = (buf.take off ++ bytes).length := by
      rw [List.length_append, List.length_take, Nat.min_eq_left (by omega)]
    rw [hlen, List.take_left']
    rfl

/-- One turn of the writer appends one record. -/
theorem respSetAttr_named {root : CJson} {b : Board} {j len : Nat} {a : CloudAttr} {item : CJson}
    (ha : b.dev.attr[j]? = some a) (hitem : root.getObjectItem a.cloudKey = some item)
    (hc : Carries a item.valueint)
    (hroom : len + (setRecord root b.dev.attr j).length ≤ b.uartBuf.length) :
    ∃ buf, respSetAttr root j b len =
        some ({ b with uartBuf := buf, recorded := b.recorded ++ [j] },
          len + (setRecord root b.dev.attr j).length) ∧
      buf.length = b.uartBuf.length ∧
      buf.take (len + (setRecord root b.dev.attr j).length) =
        b.uartBuf.take len ++ setRecord root b.dev.attr j := by
  have hset : b.dev.attr.set j a = b.dev.attr := by
    refine List.ext_getElem? fun k => ?_
    rw [List.getElem?_set]
    split
    · subst j
      split
      · exact ha.symm
      · exact (List.getElem?_eq_none (by omega)).symm
    · rfl
  have hsettable : a.isSettable = true := by simp [CloudAttr.isSettable, hc.reportCtrl]
  rw [setRecord_eq ha hitem] at hroom ⊢
  obtain ⟨buf, hbuf, hlen, htake⟩ := writeAt_take hroom
  refine ⟨buf, ?_, hlen, htake⟩
  simp only [respSetAttr, ha, hitem, hsettable, if_true, getAttrSetValue_num hc, hset, hbuf,
    Option.bind_eq_bind, Option.bind_some, Option.pure_def, List.length_cons,
    BigEndian.length_encode]

/-- **The writer** builds the payload and leaves the table alone. -/
theorem respSetFrame_payload {root : CJson} {b : Board} (h : RequestFits root b.dev.attr)
    (hbuf : b.uartBuf.length = 256) :
    ∃ b', respSetFrame root b = some b' ∧ b'.dev = b.dev ∧ b'.db = b.db ∧
      b'.handed = b.handed ++
        if setPayload root b.dev.attr = [] then [] else [setPayload root b.dev.attr] := by
  let Inv : Nat → Board × Nat → Prop := fun i out =>
    out.1.dev = b.dev ∧ out.1.db = b.db ∧ out.1.handed = b.handed ∧
      out.1.uartBuf.length = 256 ∧
      out.2 = ((setPlaces root b.dev.attr i).flatMap (setRecord root b.dev.attr)).length ∧
      out.1.uartBuf.take out.2 =
        (setPlaces root b.dev.attr i).flatMap (setRecord root b.dev.attr)
  have hstep : ∀ i s, i < b.dev.attr.length → Inv i s →
      ∃ s', respSetAttr root i s.1 s.2 = some s' ∧ Inv (i + 1) s' := by
    rintro i ⟨c, len⟩ hi ⟨hdev, hdb, hhanded, hlen, hpos, htake⟩
    dsimp only at hdev hdb hhanded hlen hpos htake ⊢
    have ha : b.dev.attr[i]? = some b.dev.attr[i] := List.getElem?_eq_getElem hi
    cases hitem : root.getObjectItem b.dev.attr[i].cloudKey with
    | none =>
        have hno : ¬ Named root b.dev.attr i := by
          rw [named_iff]
          rintro ⟨a, item, ha', hitem'⟩
          obtain rfl := Option.some.inj (ha.symm.trans ha')
          cases hitem.symm.trans hitem'
        refine ⟨(c, len), ?_, hdev, hdb, hhanded, hlen, ?_, ?_⟩
        · simp [respSetAttr, hdev, ha, hitem]
        · rw [setPlaces_succ, if_neg hno, List.append_nil]
          exact hpos
        · rw [setPlaces_succ, if_neg hno, List.append_nil]
          exact htake
    | some item =>
        have hyes : Named root b.dev.attr i := named_iff.mpr ⟨_, item, ha, hitem⟩
        have hnext : (setPlaces root b.dev.attr (i + 1)).flatMap (setRecord root b.dev.attr) =
            (setPlaces root b.dev.attr i).flatMap (setRecord root b.dev.attr) ++
              setRecord root b.dev.attr i := by
          rw [setPlaces_succ, if_pos hyes, List.flatMap_append, List.flatMap_singleton]
        have hroom : len + (setRecord root b.dev.attr i).length ≤ 256 := by
          have hle := (@setPlaces_length_le root b.dev.attr _ _ hi).trans h.room
          rw [Nat.succ_eq_add_one, hnext, List.length_append] at hle
          omega
        obtain ⟨buf, hset, hlen', htake'⟩ := @respSetAttr_named root c i len _ item
          (by rw [hdev]; exact ha) hitem (h.carries _ (List.mem_of_getElem? ha) item hitem)
          (by rw [hdev, hlen]; exact hroom)
        refine ⟨_, hset, hdev, hdb, hhanded, hlen'.trans hlen, ?_, ?_⟩
        · rw [hnext, List.length_append, ← hpos, hdev]
        · rw [hnext, ← htake]
          simpa only [hdev] using htake'
  obtain ⟨⟨c, len⟩, hloop, hdev, hdb, hhanded, hlen, hpos, htake⟩ :=
    foldlM_range_total (I := Inv) (s := (b, 0)) ⟨rfl, rfl, rfl, hbuf, rfl, rfl⟩ hstep
  dsimp only at hdev hdb hhanded hlen hpos htake
  have hpay : len = (setPayload root b.dev.attr).length := hpos
  have hroom := h.room
  by_cases hnil : setPayload root b.dev.attr = []
  · refine ⟨c, ?_, hdev, hdb, by rw [hhanded, if_pos hnil, List.append_nil]⟩
    have h0 : len = 0 := by rw [hpay, hnil]; rfl
    simp [respSetFrame, hloop, h0]
  · have hlt : 0 < len := by rw [hpay]; exact List.length_pos_of_ne_nil hnil
    refine ⟨{ c with handed := c.handed ++ [c.uartBuf.take len] }, ?_, hdev, hdb, ?_⟩
    · simp [respSetFrame, hloop, hlt, hlen, show len ≤ 256 by omega]
    · rw [if_neg hnil, hhanded]
      exact congrArg (fun p => b.handed ++ [p]) htake

end X50
