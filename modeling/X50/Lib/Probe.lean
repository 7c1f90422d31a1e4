/-
# `X50.Lib.Probe` — programs that look at memory

A `Probe` is a program that looks at cells of a memory, one after the other, and
goes on as it finds them.  What it computes (`run`) and where it looks (`looks`)
are both read off the program, so a statement about its accesses is a statement
about the same program as the one about its result.

`run_congr` is the point of it: memories that agree where a program looks give
the same result, and are looked at in the same places.
-/
import Mathlib.Data.List.Basic

namespace X50.Lib

inductive Probe (β α : Type) where
  | done (a : α)
  | look (i : Nat) (next : β → Probe β α)

namespace Probe

variable {β α γ : Type}

/-- What the program computes on the memory `m`. -/
def run (m : Nat → β) : Probe β α → α
  | done a => a
  | look i next => (next (m i)).run m

/-- Where it looks, in order. -/
def looks (m : Nat → β) : Probe β α → List Nat
  | done _ => []
  | look i next => i :: (next (m i)).looks m

/-- One program after the other. -/
def bind (p : Probe β α) (f : α → Probe β γ) : Probe β γ :=
  match p with
  | done a => f a
  | look i next => look i fun b => (next b).bind f

/-- `n` cells from `i` on. -/
def lookAll (i : Nat) : Nat → Probe β (List β)
  | 0 => done []
  | n + 1 => look i fun b => (lookAll (i + 1) n).bind fun bs => done (b :: bs)

variable {m m' : Nat → β}

@[simp] theorem run_done (a : α) : (done a : Probe β α).run m = a := rfl

@[simp] theorem run_look (i : Nat) (next : β → Probe β α) :
    (look i next).run m = (next (m i)).run m := rfl

@[simp] theorem looks_done (a : α) : (done a : Probe β α).looks m = [] := rfl

@[simp] theorem looks_look (i : Nat) (next : β → Probe β α) :
    (look i next).looks m = i :: (next (m i)).looks m := rfl

@[simp] theorem run_bind (p : Probe β α) (f : α → Probe β γ) :
    (p.bind f).run m = (f (p.run m)).run m := by
  induction p with
  | done a => rfl
  | look i next ih => exact ih (m i)

@[simp] theorem looks_bind (p : Probe β α) (f : α → Probe β γ) :
    (p.bind f).looks m = p.looks m ++ (f (p.run m)).looks m := by
  induction p with
  | done a => rfl
  | look i next ih => exact congrArg (i :: ·) (ih (m i))

@[simp] theorem run_lookAll (i n : Nat) :
    (lookAll i n : Probe β (List β)).run m = (List.range n).map fun k => m (i + k) := by
  induction n generalizing i with
  | zero => rfl
  | succ n ih =>
      have hshift : ∀ k, m (i + 1 + k) = m (i + (k + 1)) := fun k =>
        congrArg m (by omega)
      simp [lookAll, ih, List.range_succ_eq_map, List.map_map, Function.comp_def, hshift]

@[simp] theorem looks_lookAll (i n : Nat) :
    (lookAll i n : Probe β (List β)).looks m = (List.range n).map fun k => i + k := by
  induction n generalizing i with
  | zero => rfl
  | succ n ih =>
      have hshift : ∀ k, i + 1 + k = i + (k + 1) := fun k => by omega
      simp [lookAll, ih, List.range_succ_eq_map, List.map_map, Function.comp_def, hshift]

/-- **What a program computes depends on where it looks.** -/
theorem run_congr (p : Probe β α) (h : ∀ i ∈ p.looks m, m i = m' i) :
    p.run m' = p.run m ∧ p.looks m' = p.looks m := by
  induction p with
  | done a => exact ⟨rfl, rfl⟩
  | look i next ih =>
      have hi : m i = m' i := h i List.mem_cons_self
      obtain ⟨hrun, hlooks⟩ := ih (m i) fun k hk => h k (List.mem_cons_of_mem _ hk)
      simp only [run_look, looks_look, ← hi]
      exact ⟨hrun, congrArg (i :: ·) hlooks⟩

end Probe

end X50.Lib
