/-
# `X50.CloudTable` — what reports and frames keep of the attribute table

Every path of `cloud_platform_task.c` that reports runs over the attribute table
while it writes into it.  The layout of the table (keys, types, commands,
lengths, the memory behind every value) is fixed, so that which attribute a name
or a command byte means does not depend on when it is asked.  Of the values
themselves a report changes two only: `CookbookName`, and the last byte of a
string that fills its buffer.

`Kept` says so, and everything that is looked up in the table is shown to depend
on what `Kept` keeps.
-/
import X50.Cloud

namespace X50

/-! ## Layouts -/

/-- An attribute without its value: only the size of its memory is left. -/
def CloudAttr.layout (a : CloudAttr) : CloudAttr :=
  { a with value := List.replicate a.value.length 0 }

/-- Two tables are laid out alike. -/
def SameLayout (attr attr' : List CloudAttr) : Prop :=
  attr'.map CloudAttr.layout = attr.map CloudAttr.layout

namespace SameLayout

variable {attr attr' attr'' : List CloudAttr}

theorem refl (attr : List CloudAttr) : SameLayout attr attr := rfl

theorem trans (h : SameLayout attr attr') (h' : SameLayout attr' attr'') :
    SameLayout attr attr'' :=
  Eq.trans h' h

theorem symm (h : SameLayout attr attr') : SameLayout attr' attr := Eq.symm h

theorem length (h : SameLayout attr attr') : attr'.length = attr.length := by
  simpa using congrArg List.length h

/-- A function of the layout takes the same values on both tables. -/
theorem map_eq {β : Type*} (h : SameLayout attr attr') (f : CloudAttr → β)
    (hf : ∀ a : CloudAttr, f a.layout = f a) : attr'.map f = attr.map f := by
  have := congrArg (List.map f) h
  simpa [List.map_map, Function.comp_def, hf] using this

theorem get (h : SameLayout attr attr') {j : Nat} {a : CloudAttr} (ha : attr[j]? = some a) :
    ∃ a', attr'[j]? = some a' ∧ a'.layout = a.layout := by
  have := congrArg (fun l => l[j]?) h
  simp only [List.getElem?_map, ha, Option.map_some] at this
  obtain ⟨a', ha', hl⟩ := Option.map_eq_some_iff.mp this
  exact ⟨a', ha', hl⟩

theorem getAttrPtr (h : SameLayout attr attr') (name : CStr) :
    getAttrPtr name attr' = getAttrPtr name attr := by
  have hk := congrArg (List.findIdx? (· == name)) (h.map_eq CloudAttr.cloudKey fun _ => rfl)
  simpa [X50.getAttrPtr, List.findIdx?_map, Function.comp_def] using hk

theorem attrOfCmd (h : SameLayout attr attr') (cmd : UInt8) :
    attrOfCmd attr' cmd = attrOfCmd attr cmd := by
  have hk := congrArg (List.findIdx? (cmd == ·)) (h.map_eq CloudAttr.uartCmd fun _ => rfl)
  simpa [X50.attrOfCmd, List.findIdx?_map, Function.comp_def] using hk

end SameLayout

namespace CloudAttr

variable {a a' : CloudAttr} (h : a'.layout = a.layout)
include h

theorem layout_cloudKey : a'.cloudKey = a.cloudKey := by
  show a'.layout.cloudKey = a.layout.cloudKey
  rw [h]

theorem layout_cloudValueType : a'.cloudValueType = a.cloudValueType := by
  show a'.layout.cloudValueType = a.layout.cloudValueType
  rw [h]

theorem layout_cloudFunType : a'.cloudFunType = a.cloudFunType := by
  show a'.layout.cloudFunType = a.layout.cloudFunType
  rw [h]

theorem layout_uartCmd : a'.uartCmd = a.uartCmd := by
  show a'.layout.uartCmd = a.layout.uartCmd
  rw [h]

theorem layout_uartByteLen : a'.uartByteLen = a.uartByteLen := by
  show a'.layout.uartByteLen = a.layout.uartByteLen
  rw [h]

theorem layout_length : a'.value.length = a.value.length := by
  simpa [layout] using congrArg (fun a => a.value.length) h

theorem layout_isReported : a'.isReported = a.isReported := by
  simp only [isReported, layout_cloudFunType h, layout_cloudKey h]

end CloudAttr

/-! ## Places -/

theorem getAttrPtr_some {name : CStr} {attr : List CloudAttr} {q : Nat}
    (h : getAttrPtr name attr = some q) :
    ∃ a, attr[q]? = some a ∧ a.cloudKey = name := by
  obtain ⟨hq, hk, -⟩ := List.findIdx?_eq_some_iff_getElem.mp h
  exact ⟨attr[q], List.getElem?_eq_getElem hq, by simpa using hk⟩

theorem attrOfCmd_some {attr : List CloudAttr} {cmd : UInt8} {j : Nat}
    (h : attrOfCmd attr cmd = some j) : ∃ a, attr[j]? = some a ∧ a.uartCmd = cmd := by
  obtain ⟨hj, hc, -⟩ := List.findIdx?_eq_some_iff_getElem.mp h
  exact ⟨attr[j], List.getElem?_eq_getElem hj, (by simpa using hc : cmd = _).symm⟩

/-- The place of `CookbookName`. -/
def nameAt (attr : List CloudAttr) : Option Nat := getAttrPtr (cstr "CookbookName") attr

/-- The first byte stored for `CookbookName`. -/
def nameByte (attr : List CloudAttr) : Option UInt8 := do
  (← attr[← nameAt attr]?).value.head?

theorem nameByte_of_nameAt {attr : List CloudAttr} {q : Nat} {a : CloudAttr}
    (hq : nameAt attr = some q) (ha : attr[q]? = some a) : nameByte attr = a.value.head? := by
  simp [nameByte, hq, ha]

/-- No other attribute has to do with the first byte of `CookbookName`. -/
theorem nameByte_congr {attr attr' : List CloudAttr} (h : SameLayout attr attr')
    (hv : ∀ q a a', nameAt attr = some q → attr[q]? = some a → attr'[q]? = some a' →
      a'.value.head? = a.value.head?) : nameByte attr' = nameByte attr := by
  have hat : nameAt attr' = nameAt attr := h.getAttrPtr _
  cases hq : nameAt attr with
  | none => simp [nameByte, hat, hq]
  | some q =>
      obtain ⟨a, ha, -⟩ := getAttrPtr_some hq
      obtain ⟨a', ha', -⟩ := h.get ha
      rw [nameByte_of_nameAt (hat.trans hq) ha', nameByte_of_nameAt hq ha]
      exact hv q a a' hq ha ha'

/-! ## What is kept -/

/-- What a report keeps of an attribute. -/
structure KeptAttr (a a' : CloudAttr) : Prop where
  layout : a'.layout = a.layout
  head : a.cloudKey ≠ cstr "CookbookName" → a'.value.head? = a.value.head?
  value : a.cloudKey ≠ cstr "CookbookName" → a.cloudValueType ≠ .string → a'.value = a.value

namespace KeptAttr

variable {a a' a'' : CloudAttr}

theorem refl (a : CloudAttr) : KeptAttr a a := ⟨rfl, fun _ => rfl, fun _ _ => rfl⟩

theorem trans (h : KeptAttr a a') (h' : KeptAttr a' a'') : KeptAttr a a'' where
  layout := h'.layout.trans h.layout
  head hk := (h'.head (CloudAttr.layout_cloudKey h.layout ▸ hk)).trans (h.head hk)
  value hk ht := (h'.value (CloudAttr.layout_cloudKey h.layout ▸ hk)
    (CloudAttr.layout_cloudValueType h.layout ▸ ht)).trans (h.value hk ht)

end KeptAttr

/-- What a report keeps of the table. -/
def Kept (attr attr' : List CloudAttr) : Prop := List.Forall₂ KeptAttr attr attr'

namespace Kept

variable {attr attr' attr'' : List CloudAttr}

theorem refl (attr : List CloudAttr) : Kept attr attr := by
  induction attr with
  | nil => exact .nil
  | cons a attr ih => exact .cons (.refl a) ih

theorem trans (h : Kept attr attr') (h' : Kept attr' attr'') : Kept attr attr'' := by
  induction h generalizing attr'' with
  | nil => exact h'
  | cons ha _ ih =>
      cases h' with
      | cons ha' h' => exact .cons (ha.trans ha') (ih h')

theorem sameLayout (h : Kept attr attr') : SameLayout attr attr' := by
  induction h with
  | nil => rfl
  | cons ha _ ih => simp only [SameLayout, List.map_cons, ha.layout, show _ = _ from ih]

theorem get (h : Kept attr attr') {j : Nat} {a : CloudAttr} (ha : attr[j]? = some a) :
    ∃ a', attr'[j]? = some a' ∧ KeptAttr a a' := by
  induction h generalizing j with
  | nil => simp at ha
  | cons hab _ ih =>
      cases j with
      | zero =>
          obtain rfl := Option.some.inj ha
          exact ⟨_, rfl, hab⟩
      | succ j => exact ih ha

/-- A change of one attribute that keeps it. -/
theorem modify {j : Nat} {f : CloudAttr → CloudAttr}
    (h : ∀ a, attr[j]? = some a → KeptAttr a (f a)) : Kept attr (attr.modify j f) := by
  induction attr generalizing j with
  | nil => cases j <;> exact .nil
  | cons a attr ih =>
      cases j with
      | zero => exact .cons (h a rfl) (Kept.refl attr)
      | succ j => exact .cons (.refl a) (ih h)

/-- The same change of two tables that agree. -/
theorem modify₂ (h : Kept attr attr') {j : Nat} {f : CloudAttr → CloudAttr}
    (hf : ∀ a a', KeptAttr a a' → KeptAttr (f a) (f a')) :
    Kept (attr.modify j f) (attr'.modify j f) := by
  induction h generalizing j with
  | nil => cases j <;> exact .nil
  | cons ha h ih =>
      cases j with
      | zero => exact .cons (hf _ _ ha) h
      | succ j => exact .cons ha ih

end Kept

/-! ## Writing a value -/

@[simp] theorem Board.setValue_db {b : Board} {j : Nat} {v : List UInt8} :
    (b.setValue j v).db = b.db := rfl

@[simp] theorem Board.setValue_reported {b : Board} {j : Nat} {v : List UInt8} :
    (b.setValue j v).reported = b.reported := rfl

theorem Board.setValue_get_self {b : Board} {j : Nat} {v : List UInt8} {a : CloudAttr}
    (ha : b.dev.attr[j]? = some a) :
    (b.setValue j v).dev.attr[j]? = some { a with value := v } := by
  simp [Board.setValue, ha]

theorem Board.setValue_get_ne {b : Board} {j k : Nat} {v : List UInt8} (h : k ≠ j) :
    (b.setValue j v).dev.attr[k]? = b.dev.attr[k]? := by
  simp [Board.setValue, h.symm]

/-- A value of the same size leaves the layout alone. -/
theorem Board.setValue_sameLayout {b : Board} {j : Nat} {v : List UInt8} {a : CloudAttr}
    (ha : b.dev.attr[j]? = some a) (hv : v.length = a.value.length) :
    SameLayout b.dev.attr (b.setValue j v).dev.attr := by
  refine List.ext_getElem? fun k => ?_
  simp only [List.getElem?_map, Board.setValue, List.getElem?_modify]
  split
  · subst j
    simp [ha, CloudAttr.layout, hv]
  · simp

end X50
