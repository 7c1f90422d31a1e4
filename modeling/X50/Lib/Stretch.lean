/-
# `X50.Lib.Stretch` — the stretches of a growing history

A history is cut at the elements that satisfy `p`; `List.splitOnP` gives the
stretches between them.  When the history grows by one element either a new
stretch begins (`splitOnP_concat_pos`) or the last one grows
(`splitOnP_concat_neg`), so what holds of every stretch can be carried along a
run.
-/
import Mathlib.Data.List.Basic

namespace X50.Lib

variable {α β : Type*} {p : α → Bool}

theorem splitOnP_concat_pos (xs : List α) {x : α} (h : p x = true) :
    (xs ++ [x]).splitOnP p = xs.splitOnP p ++ [[]] :=
  List.splitOnP_append_cons xs [] h

theorem splitOnP_concat_neg {xs : List α} {x : α} (h : p x = false) {before : List (List α)}
    {last : List α} (hxs : xs.splitOnP p = before ++ [last]) :
    (xs ++ [x]).splitOnP p = before ++ [last ++ [x]] := by
  induction xs generalizing before last with
  | nil =>
      have hnil : [] ++ [[]] = before ++ [last] := hxs
      obtain ⟨rfl, hlast⟩ := List.append_inj' hnil rfl
      obtain rfl := List.singleton_inj.mp hlast
      simp [List.splitOnP_cons_eq_if_modifyHead, h]
  | cons y ys ih =>
      obtain ⟨before', last', hys⟩ : ∃ before' last', ys.splitOnP p = before' ++ [last'] :=
        ⟨_, _, (List.dropLast_append_getLast (List.splitOnP_ne_nil p ys)).symm⟩
      rw [List.splitOnP_cons_eq_if_modifyHead, hys] at hxs
      rw [List.cons_append, List.splitOnP_cons_eq_if_modifyHead, ih hys]
      split at hxs
      · rename_i hy
        rw [← List.cons_append] at hxs
        obtain ⟨hb, hl⟩ := List.append_inj' hxs rfl
        rw [if_pos hy, ← hb, List.singleton_inj.mp hl, List.cons_append]
      · rename_i hy
        rw [if_neg hy]
        cases before' with
        | nil =>
            have hone : [] ++ [y :: last'] = before ++ [last] := hxs
            obtain ⟨hb, hl⟩ := List.append_inj' hone rfl
            rw [← hb, ← List.singleton_inj.mp hl]
            rfl
        | cons b before' =>
            have hmore : ((y :: b) :: before') ++ [last'] = before ++ [last] := hxs
            obtain ⟨hb, hl⟩ := List.append_inj' hmore rfl
            rw [← hb, ← List.singleton_inj.mp hl]
            rfl

end X50.Lib
