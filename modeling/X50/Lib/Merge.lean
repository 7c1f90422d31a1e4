/-
# `X50.Lib.Merge` — copies made of entries

A copy gives some keys a value.  Entries are merged into it, one after the other,
and a later entry for a key replaces an earlier one.

Two rules are enough to follow one key through any number of merges: entries of
other keys do not count (`Silent.merge`), and an entry of the key does
(`merge_singleton`).
-/
import Mathlib.Logic.Function.Basic

namespace X50.Lib

variable {κ ν : Type*}

/-- The entries do not mention the key. -/
def Silent (k : κ) (entries : List (κ × ν)) : Prop := ∀ e ∈ entries, e.1 ≠ k

section

variable {l l' : List (κ × ν)} {k : κ}

theorem Silent.nil : Silent k ([] : List (κ × ν)) := fun _ he => absurd he List.not_mem_nil

theorem Silent.append (h : Silent k l) (h' : Silent k l') : Silent k (l ++ l') := by
  intro e he
  rcases List.mem_append.mp he with he | he
  · exact h e he
  · exact h' e he

theorem Silent.flatMap {α : Type*} {f : α → List (κ × ν)} {as : List α}
    (h : ∀ a ∈ as, Silent k (f a)) : Silent k (as.flatMap f) := by
  intro e he
  obtain ⟨a, ha, he⟩ := List.mem_flatMap.mp he
  exact h a ha e he

end

variable [DecidableEq κ]

/-- Merge entries into a copy: later ones win. -/
def merge (copy : κ → Option ν) (entries : List (κ × ν)) : κ → Option ν :=
  entries.foldl (fun c e => Function.update c e.1 (some e.2)) copy

section

variable {copy : κ → Option ν} {l l' : List (κ × ν)} {k : κ} {v : ν}

@[simp] theorem merge_nil : merge copy [] = copy := rfl

theorem merge_append : merge copy (l ++ l') = merge (merge copy l) l' :=
  List.foldl_append

theorem merge_singleton : merge copy [(k, v)] k = some v :=
  Function.update_self _ _ _

/-- **Other keys do not count.** -/
theorem Silent.merge (h : Silent k l) : merge copy l k = copy k := by
  induction l generalizing copy with
  | nil => rfl
  | cons e l ih =>
      have he : k ≠ e.1 := (h e List.mem_cons_self).symm
      calc X50.Lib.merge copy (e :: l) k
          = Function.update copy e.1 (some e.2) k := ih fun c hc => h c (List.mem_cons_of_mem _ hc)
        _ = copy k := Function.update_of_ne he _ _

end

end X50.Lib
