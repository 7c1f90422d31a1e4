/-
# `X50.Lib.Tagged` — records whose tag tells their length

A string of records: a tag, then as many bytes as a table has for that tag; a
byte that is no tag is passed over.  A reader walks from tag to tag (`marks`) and
trusts the table, so that what it looks at for the last tag may lie behind the
string.

`Complete` is the grammar of the strings for which it does not, and
`complete_iff` says that these are all of them.
-/
import Mathlib.Data.List.Basic

namespace X50.Lib

/-- What a reader does at a tag: how many bytes it passes over behind the tag, and
how many it looks at. -/
structure Shape where
  skip : Nat
  look : Nat
  skip_le : skip ≤ look

variable {α : Type*}

/-- Where the reader finds a tag, from `i` on, in the `n` first bytes. -/
def marks (shape : α → Option Shape) (value : Nat → α) (n : Nat) : Nat → Nat → List Nat
  | 0, _ => []
  | fuel + 1, i =>
      if i < n then
        match shape (value i) with
        | none => marks shape value n fuel (i + 1)
        | some s => i :: marks shape value n fuel (i + s.skip + 1)
      else []

/-- A string in which every record is complete. -/
inductive Complete (shape : α → Option Shape) : List α → Prop
  | nil : Complete shape []
  | skip {c : α} {l : List α} : shape c = none → Complete shape l → Complete shape (c :: l)
  | record {c : α} {l : List α} {s : Shape} : shape c = some s → s.look ≤ l.length →
      Complete shape (l.drop s.skip) → Complete shape (c :: l)

section Tagged

variable {shape : α → Option Shape} {value value' : Nat → α} {n fuel i : Nat}

theorem complete_cons_none {c : α} {l : List α} (hc : shape c = none) :
    Complete shape (c :: l) ↔ Complete shape l := by
  constructor
  · intro h
    cases h with
    | skip _ h => exact h
    | record hs => cases hc.symm.trans hs
  · exact .skip hc

theorem complete_cons_some {c : α} {l : List α} {s : Shape} (hc : shape c = some s) :
    Complete shape (c :: l) ↔ s.look ≤ l.length ∧ Complete shape (l.drop s.skip) := by
  constructor
  · intro h
    cases h with
    | skip hn => cases hc.symm.trans hn
    | record hs hlook h =>
        obtain rfl := Option.some.inj (hc.symm.trans hs)
        exact ⟨hlook, h⟩
  · exact fun h => .record hc h.1 h.2

theorem mem_marks {k : Nat} (h : k ∈ marks shape value n fuel i) :
    k < n ∧ (shape (value k)).isSome := by
  induction fuel generalizing i with
  | zero => exact absurd h List.not_mem_nil
  | succ fuel ih =>
      rw [marks] at h
      split at h
      · rename_i hi
        split at h
        · exact ih h
        · rename_i s hs
          rcases List.mem_cons.mp h with rfl | h
          · exact ⟨hi, by rw [hs]; rfl⟩
          · exact ih h
      · exact absurd h List.not_mem_nil

/-- Where the tags are is decided by the string alone. -/
theorem marks_congr (h : ∀ k < n, value k = value' k) :
    marks shape value n fuel i = marks shape value' n fuel i := by
  induction fuel generalizing i with
  | zero => rfl
  | succ fuel ih =>
      simp only [marks, ih]
      split
      · rename_i hi
        rw [h i hi]
      · rfl

theorem complete_drop_iff {l : List α} (hv : ∀ k c, l[k]? = some c → value k = c)
    (hf : l.length < i + fuel) :
    Complete shape (l.drop i) ↔
      ∀ k ∈ marks shape value l.length fuel i, ∀ s ∈ shape (value k), k + s.look < l.length := by
  induction fuel generalizing i with
  | zero =>
      rw [List.drop_of_length_le (by omega)]
      exact iff_of_true .nil fun _ hk => absurd hk List.not_mem_nil
  | succ fuel ih =>
      by_cases hi : i < l.length
      · have hc : value i = l[i] := hv i _ (List.getElem?_eq_getElem hi)
        rw [List.drop_eq_getElem_cons hi, ← hc]
        rw [marks, if_pos hi]
        cases hs : shape (value i) with
        | none =>
            rw [complete_cons_none hs]
            exact ih (by omega)
        | some s =>
            rw [complete_cons_some hs, List.drop_drop, List.length_drop]
            rw [show i + 1 + s.skip = i + s.skip + 1 by omega, ih (by omega), List.forall_mem_cons]
            refine and_congr_left fun _ => ?_
            constructor
            · intro hlook t ht
              obtain rfl := Option.some.inj (hs.symm.trans ht)
              omega
            · intro hall
              have := hall s hs
              omega
      · rw [List.drop_of_length_le (by omega), marks, if_neg hi]
        exact iff_of_true .nil fun _ hk => absurd hk List.not_mem_nil

/-- **The reader stays inside exactly when every record is complete.** -/
theorem complete_iff {l : List α} (hv : ∀ k c, l[k]? = some c → value k = c) :
    Complete shape l ↔ ∀ k ∈ marks shape value l.length (l.length + 1) 0,
      ∀ s ∈ shape (value k), k + s.look < l.length := by
  have h := @complete_drop_iff _ shape value (l.length + 1) 0 l hv (by omega)
  rwa [List.drop_zero] at h

end Tagged

end X50.Lib
