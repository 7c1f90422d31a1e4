/-
# `X50.Lib.Slots` — arrays with free slots

An array whose entries are taken or free, filled at the first free entry and
cleared by value:

    putFirst ss a     `a` into the first free slot, if there is one
    clearFirst ss a   the first slot that holds `a`, freed

What the array holds is `ss.reduceOption`, and both operations are described by
what they do to it, up to its order (`reduceOption_putFirst`,
`reduceOption_clearFirst`).
-/
import Mathlib.Data.List.ReduceOption
import Mathlib.Data.List.Perm.Basic

namespace X50.Lib

variable {α : Type*}

/-- The first free slot is taken. -/
def putFirst : List (Option α) → α → Option (List (Option α))
  | [], _ => none
  | none :: ss, a => some (some a :: ss)
  | some b :: ss, a => (putFirst ss a).map (some b :: ·)

/-- The first slot that holds `a` is freed. -/
def clearFirst [DecidableEq α] : List (Option α) → α → List (Option α)
  | [], _ => []
  | s :: ss, a => if s = some a then none :: ss else s :: clearFirst ss a

/-! ## Taking a slot -/

theorem putFirst_eq_none {ss : List (Option α)} {a : α} :
    putFirst ss a = none ↔ ∀ s ∈ ss, s.isSome := by
  induction ss with
  | nil => simp [putFirst]
  | cons s ss ih => cases s <;> simp [putFirst, ih]

theorem reduceOption_putFirst {ss ss' : List (Option α)} {a : α} (h : putFirst ss a = some ss') :
    ss'.reduceOption.Perm (a :: ss.reduceOption) := by
  induction ss generalizing ss' with
  | nil => simp [putFirst] at h
  | cons s ss ih =>
      cases s with
      | none =>
          obtain rfl := Option.some.inj h
          rw [List.reduceOption_cons_of_some, List.reduceOption_cons_of_none]
      | some b =>
          obtain ⟨t, ht, rfl⟩ := Option.map_eq_some_iff.mp h
          rw [List.reduceOption_cons_of_some, List.reduceOption_cons_of_some]
          exact ((ih ht).cons b).trans (List.Perm.swap a b _)

theorem length_putFirst {ss ss' : List (Option α)} {a : α} (h : putFirst ss a = some ss') :
    ss'.length = ss.length := by
  induction ss generalizing ss' with
  | nil => simp [putFirst] at h
  | cons s ss ih =>
      cases s with
      | none =>
          obtain rfl := Option.some.inj h
          rfl
      | some b =>
          obtain ⟨t, ht, rfl⟩ := Option.map_eq_some_iff.mp h
          rw [List.length_cons, List.length_cons, ih ht]

/-- A slot that is taken stays as it is. -/
theorem getElem?_putFirst {ss ss' : List (Option α)} {a b : α} (h : putFirst ss a = some ss')
    {i : ℕ} (hi : ss[i]? = some (some b)) : ss'[i]? = some (some b) := by
  induction ss generalizing ss' i with
  | nil => simp [putFirst] at h
  | cons s ss ih =>
      cases s with
      | none =>
          obtain rfl := Option.some.inj h
          cases i with
          | zero => simp at hi
          | succ i => simpa using hi
      | some c =>
          obtain ⟨t, ht, rfl⟩ := Option.map_eq_some_iff.mp h
          cases i with
          | zero => simpa using hi
          | succ i => simpa using ih ht (by simpa using hi)

/-! ## Freeing a slot -/

section Clear

variable [DecidableEq α]

theorem reduceOption_clearFirst {ss : List (Option α)} {a : α} (h : a ∈ ss.reduceOption) :
    ss.reduceOption.Perm (a :: (clearFirst ss a).reduceOption) := by
  induction ss with
  | nil => simp at h
  | cons s ss ih =>
      rw [clearFirst]
      split
      · rename_i hs
        rw [hs, List.reduceOption_cons_of_some, List.reduceOption_cons_of_none]
      · rename_i hs
        cases s with
        | none =>
            rw [List.reduceOption_cons_of_none] at h
            rw [List.reduceOption_cons_of_none, List.reduceOption_cons_of_none]
            exact ih h
        | some b =>
            rw [List.reduceOption_cons_of_some] at h
            have hne : a ≠ b := fun hab => hs (by rw [hab])
            rw [List.reduceOption_cons_of_some, List.reduceOption_cons_of_some]
            exact ((ih (List.mem_of_ne_of_mem hne h)).cons b).trans (List.Perm.swap a b _)

theorem length_clearFirst (ss : List (Option α)) (a : α) :
    (clearFirst ss a).length = ss.length := by
  induction ss with
  | nil => rfl
  | cons s ss ih =>
      rw [clearFirst]
      split
      · rfl
      · rw [List.length_cons, List.length_cons, ih]

/-- A slot that holds something else stays as it is. -/
theorem getElem?_clearFirst {ss : List (Option α)} {a b : α} (hab : b ≠ a) {i : ℕ}
    (hi : ss[i]? = some (some b)) : (clearFirst ss a)[i]? = some (some b) := by
  induction ss generalizing i with
  | nil => simp at hi
  | cons s ss ih =>
      rw [clearFirst]
      cases i with
      | zero =>
          have hs : s = some b := by simpa using hi
          have hne : s ≠ some a := fun h => hab (Option.some.inj (hs.symm.trans h))
          rw [if_neg hne, hs]
          rfl
      | succ i =>
          have hi' : ss[i]? = some (some b) := by simpa using hi
          split
          · simpa using hi'
          · simpa using ih hi'

/-- What is left in a slot was there before. -/
theorem getElem?_of_clearFirst {ss : List (Option α)} {a b : α} {i : ℕ}
    (hi : (clearFirst ss a)[i]? = some (some b)) : ss[i]? = some (some b) := by
  induction ss generalizing i with
  | nil => simp [clearFirst] at hi
  | cons s ss ih =>
      rw [clearFirst] at hi
      split at hi
      · cases i with
        | zero => simp at hi
        | succ i => simpa using hi
      · cases i with
        | zero => simpa using hi
        | succ i => simpa using ih (by simpa using hi)

end Clear

/-- Two slots of an array without repetitions hold the same only if they are one. -/
theorem slot_unique {ss : List (Option α)} (h : ss.reduceOption.Nodup) {i j : ℕ} {a : α}
    (hi : ss[i]? = some (some a)) (hj : ss[j]? = some (some a)) : i = j := by
  induction ss generalizing i j with
  | nil => simp at hi
  | cons s ss ih =>
      have hmem : ∀ {k : ℕ}, ss[k]? = some (some a) → a ∈ ss.reduceOption := by
        intro k hk
        exact List.reduceOption_mem_iff.mpr (List.mem_of_getElem? hk)
      have htail : ss.reduceOption.Nodup := by
        cases s with
        | none => rwa [List.reduceOption_cons_of_none] at h
        | some b =>
            rw [List.reduceOption_cons_of_some] at h
            exact h.of_cons
      have hhead : s = some a → a ∉ ss.reduceOption := by
        rintro rfl
        rw [List.reduceOption_cons_of_some] at h
        exact (List.nodup_cons.mp h).1
      cases i with
      | zero =>
          cases j with
          | zero => rfl
          | succ j => exact absurd (hmem (by simpa using hj)) (hhead (by simpa using hi))
      | succ i =>
          cases j with
          | zero => exact absurd (hmem (by simpa using hi)) (hhead (by simpa using hj))
          | succ j => exact congrArg (· + 1) (ih htail (by simpa using hi) (by simpa using hj))

end X50.Lib
