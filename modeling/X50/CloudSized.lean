/-
# `X50.CloudSized` — the memory behind the values

`cloud_parse_json` allocates `uart_byte_len` bytes for every attribute.  One
thing changes a length afterwards: a SET of a multi-stage dish gives its STRUCT
attribute the length of the record, with no regard to the memory.  Every other
attribute keeps the memory its length promises, in every run of the board
(`sized_run`), and that is what makes its reports defined.
-/
import X50.CloudAccess

namespace X50

open X50.Lib

/-- A STRUCT whose length follows the request. -/
def CloudAttr.isMultistage (a : CloudAttr) : Bool :=
  a.cloudValueType == .struct && a.uartCmd == uartCmdMultistageSet

/-- Every attribute but those has the memory its length promises. -/
def Sized (attr : List CloudAttr) : Prop :=
  ∀ a ∈ attr, a.isMultistage = false → a.uartByteLen.toNat ≤ a.value.length

instance (attr : List CloudAttr) : Decidable (Sized attr) :=
  inferInstanceAs (Decidable (∀ a ∈ attr, _ → _))

theorem Sized.get {attr : List CloudAttr} (h : Sized attr) {j : Nat} {a : CloudAttr}
    (ha : attr[j]? = some a) (hm : a.isMultistage = false) :
    a.uartByteLen.toNat ≤ a.value.length :=
  h a (List.mem_of_getElem? ha) hm

theorem CloudAttr.layout_isMultistage {a a' : CloudAttr} (h : a'.layout = a.layout) :
    a'.isMultistage = a.isMultistage := by
  simp only [isMultistage, layout_cloudValueType h, layout_uartCmd h]

theorem CloudAttr.isMultistage_of_num {a : CloudAttr} (h : a.cloudValueType = .num) :
    a.isMultistage = false := by
  simp [isMultistage, h]

theorem Sized.congr {attr attr' : List CloudAttr} (h : Sized attr) (hl : SameLayout attr attr') :
    Sized attr' := by
  intro a' ha' hm
  obtain ⟨j, hj⟩ := List.getElem?_of_mem ha'
  obtain ⟨a, ha, hla⟩ := hl.symm.get hj
  have := h.get ha ((CloudAttr.layout_isMultistage hla).trans hm)
  rwa [CloudAttr.layout_uartByteLen hla, CloudAttr.layout_length hla] at this

/-! ## The profile -/

theorem parseAttr_sized {arraySub : CJson} {a : CloudAttr} (h : parseAttr arraySub = some a) :
    a.uartByteLen.toNat ≤ a.value.length := by
  obtain ⟨key, -, h⟩ := Option.bind_eq_some_iff.mp h
  obtain ⟨valueType, -, h⟩ := Option.bind_eq_some_iff.mp h
  obtain ⟨uartCmd, -, h⟩ := Option.bind_eq_some_iff.mp h
  obtain rfl := Option.some.inj h
  exact (List.length_replicate ..).ge

theorem cloudParseJson_sized {profile : CJson} {dev : CloudDev}
    (h : cloudParseJson profile = some (some dev)) : Sized dev.attr := by
  intro a ha _
  obtain ⟨arraySub, hparse⟩ := cloudParseJson_attr h a ha
  exact parseAttr_sized hparse

/-! ## Requests and reports -/

/-- A SET keeps the memory of its attribute, and the length unless it is that of
a multi-stage dish. -/
theorem SetLeaves.sized {a a' : CloudAttr} (h : SetLeaves a a') :
    a'.isMultistage = a.isMultistage ∧ a'.value.length = a.value.length ∧
      (a.isMultistage = false → a'.uartByteLen = a.uartByteLen) := by
  cases h with
  | same => exact ⟨rfl, rfl, fun _ => rfl⟩
  | multistage n ht hcmd =>
      have hm : a.isMultistage = true := by simp [CloudAttr.isMultistage, ht, hcmd]
      refine ⟨rfl, rfl, fun hno => ?_⟩
      rw [hm] at hno
      cases hno
  | name v ht hlen => exact ⟨rfl, hlen, fun _ => rfl⟩

theorem length_writeAt {buf bytes out : List UInt8} {off : Nat}
    (h : writeAt buf off bytes = some out) : out.length = buf.length := by
  unfold writeAt at h
  split at h
  · obtain rfl := Option.some.inj h
    simp only [List.length_append, List.length_take, List.length_drop]
    omega
  · cases h

theorem Sized.set {attr : List CloudAttr} (h : Sized attr) {i : Nat} {a a' : CloudAttr}
    (ha : attr[i]? = some a) (hm : a'.isMultistage = a.isMultistage)
    (hlen : a'.value.length = a.value.length)
    (hbyte : a.isMultistage = false → a'.uartByteLen = a.uartByteLen) : Sized (attr.set i a') := by
  intro c hc hcm
  rcases List.mem_or_eq_of_mem_set hc with hc | rfl
  · exact h c hc hcm
  · have hno : a.isMultistage = false := hm ▸ hcm
    rw [hbyte hno, hlen]
    exact h.get ha hno

theorem respSetAttr_sized {root : CJson} {i len : Nat} {b : Board} {out : Board × Nat}
    (hs : Sized b.dev.attr) (h : respSetAttr root i b len = some out) :
    Sized out.1.dev.attr ∧ out.1.uartBuf.length = b.uartBuf.length := by
  have hput : ∀ {a item set}, b.dev.attr[i]? = some a →
      getAttrSetValue a item b.dev.remind = some set → Sized (b.putSet i set).dev.attr := by
    intro a item set ha hval
    obtain ⟨hm, hlen, hbyte⟩ := (getAttrSetValue_ptr hval).sized
    exact hs.set ha hm hlen hbyte
  cases respSetAttr_turn h with
  | skipped ha hno => exact ⟨hs, rfl⟩
  | unrecorded ha hitem hset hval hbody => exact ⟨hput ha hval, rfl⟩
  | recorded ha hitem hset hval hbody hbuf => exact ⟨hput ha hval, length_writeAt hbuf⟩

/-- The invariant: the table is sized, and the static buffer has 256 bytes. -/
structure BoardInv (b : Board) : Prop where
  sized : Sized b.dev.attr
  uartBuf : b.uartBuf.length = 256

theorem cloudRespSet_inv {root : CJson} {now rowid : Int} {b b' : Board} (hb : BoardInv b)
    (h : cloudRespSet root now rowid b = some b') : BoardInv b' := by
  obtain ⟨b₁, db, respDb, hframe, -, rfl⟩ := cloudRespSet_cases h
  obtain ⟨b₂, len, hloop, hend⟩ := respSetFrame_cases hframe
  have hinv : BoardInv b₂ := by
    refine foldlM_keeps (I := fun s => BoardInv s.1) (fun s i s' hs hf => ?_) hb hloop
    obtain ⟨hsized, hlen⟩ := respSetAttr_sized hs.sized hf
    exact ⟨hsized, hlen.trans hs.uartBuf⟩
  rcases hend with ⟨-, rfl⟩ | ⟨-, rfl⟩
  · exact ⟨hinv.sized, hinv.uartBuf⟩
  · exact ⟨hinv.sized, hinv.uartBuf⟩

theorem step_boardInv {b b' : Board} {call : CloudCall} (hb : BoardInv b)
    (h : cloudMachine.step b call = some b') : BoardInv b' := by
  cases call with
  | set root now rowid =>
      exact cloudRespSet_inv hb (cloudMachine_set h)
  | report call =>
      obtain ⟨hreq, hlayout⟩ := report_keeps_requests h
      exact ⟨hb.sized.congr hlayout, hreq.uartBuf ▸ hb.uartBuf⟩

/-- **Every run from a profile** keeps the memory of its values. -/
theorem sized_run {profile : CJson} {b : Board}
    (hdev : cloudParseJson profile = some (some b.dev)) (hbuf : b.uartBuf.length = 256)
    (calls : List CloudCall) : cloudMachine.Along BoardInv b calls :=
  Machine.along_of_invariant (V := fun _ => True) (fun _ _ _ _ hb h => step_boardInv hb h)
    (fun _ _ => trivial) ⟨cloudParseJson_sized hdev, hbuf⟩

end X50
