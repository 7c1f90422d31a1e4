/-
# `X50.Memory` — bytes behind a pointer

A function that is handed a pointer and a length may read on behind that length.
The model hands it the memory, from the pointer on, as a function.
-/
import Mathlib.Data.List.Basic

namespace X50

/-- The memory from `i` on. -/
def memFrom (data : Nat → UInt8) (i : Nat) : Nat → UInt8 := fun k => data (i + k)

/-- `len` bytes of memory, from `i` on. -/
def memBytes (data : Nat → UInt8) (i len : Nat) : List UInt8 :=
  (List.range len).map fun k => data (i + k)

@[simp] theorem length_memBytes (data : Nat → UInt8) (i len : Nat) :
    (memBytes data i len).length = len := by
  simp [memBytes]

theorem drop_memBytes (data : Nat → UInt8) (i len k : Nat) :
    (memBytes data i len).drop k = memBytes data (i + k) (len - k) := by
  refine List.ext_getElem (by simp) fun d hd hd' => ?_
  simp only [memBytes, List.getElem_drop, List.getElem_map, List.getElem_range, Nat.add_assoc]

/-- The bytes lie at `i` in memory. -/
def Reads (value : Nat → UInt8) (i : Nat) (bytes : List UInt8) : Prop :=
  ∀ k c, bytes[k]? = some c → value (i + k) = c

namespace Reads

variable {value : Nat → UInt8} {i : Nat} {c : UInt8} {l r : List UInt8}

theorem head (h : Reads value i (c :: l)) : value i = c := h 0 c rfl

theorem tail (h : Reads value i (c :: l)) : Reads value (i + 1) l := by
  intro k d hd
  rw [Nat.add_assoc, Nat.add_comm 1 k]
  exact h (k + 1) d hd

theorem left (h : Reads value i (l ++ r)) : Reads value i l := by
  intro k d hd
  have hk : k < l.length := (List.getElem?_eq_some_iff.mp hd).1
  exact h k d (by rwa [List.getElem?_append_left hk])

theorem right (h : Reads value i (l ++ r)) : Reads value (i + l.length) r := by
  intro k d hd
  rw [Nat.add_assoc]
  exact h (l.length + k) d (by rwa [List.getElem?_append_right (by omega), Nat.add_sub_cancel_left])

/-- Copying them out gives them back. -/
theorem map_range (h : Reads value i l) :
    (List.range l.length).map (fun k => value (i + k)) = l := by
  refine List.ext_getElem? fun k => ?_
  rw [List.getElem?_map]
  by_cases hk : k < l.length
  · rw [List.getElem?_range hk, Option.map_some, List.getElem?_eq_getElem hk]
    exact congrArg some (h k _ (List.getElem?_eq_getElem hk))
  · rw [List.getElem?_eq_none (by simpa using hk), List.getElem?_eq_none (by omega)]
    rfl

theorem memBytes (h : Reads value i l) : memBytes value i l.length = l := h.map_range

/-- Where the memory is looked at does not matter. -/
theorem memFrom (h : Reads value i l) : Reads (memFrom value i) 0 l := by
  intro k d hd
  rw [Nat.zero_add]
  exact h k d hd

end Reads

end X50
