/-
# `X50.Lib.Simulation` — one machine over another

`M` computes what `N` says, action by action, as long as the surroundings keep a
promise `C`.  Where `Meets` reads a promise off the steps that are defined,
`Grants` asks for it before the step is taken; so it can be what makes the step
defined.

    simulation       a relation between the states, kept by every step
    trace_simulation the same, where a step of `M` is any number of steps of `N`
    run_measure      a measure that grows with every action by what the action adds
-/
import X50.Lib.Machine
import Mathlib.Algebra.BigOperators.Group.List.Basic

namespace X50.Lib

namespace Machine

variable {σ τ α β : Type*} (M : Machine σ α)

/-- `C` holds before every step of the run. -/
def Grants (C : σ → α → Prop) : σ → List α → Prop
  | _, [] => True
  | s, a :: as => C s a ∧ ∀ s', M.step s a = some s' → Grants C s' as

instance decGrants {C : σ → α → Prop} [∀ s a, Decidable (C s a)] :
    ∀ s as, Decidable (M.Grants C s as)
  | _, [] => isTrue trivial
  | s, a :: as =>
      match h : M.step s a with
      | none =>
          decidable_of_iff (C s a)
            ⟨fun hc => ⟨hc, fun s' hs => by cases h.symm.trans hs⟩, fun hc => hc.1⟩
      | some t =>
          have : Decidable (M.Grants C t as) := decGrants t as
          decidable_of_iff (C s a ∧ M.Grants C t as)
            ⟨fun hc => ⟨hc.1, fun s' hs => Option.some.inj (h.symm.trans hs) ▸ hc.2⟩,
              fun hc => ⟨hc.1, hc.2 t h⟩⟩

variable {M} {N : Machine τ β} {C : σ → α → Prop} {R : σ → τ → Prop} {f : α → β}

/-- **The simulation rule.**  Both runs are defined to their end, and the states they
end in are related. -/
theorem simulation
    (hstep : ∀ s t a, C s a → R s t →
      ∃ s' t', M.step s a = some s' ∧ N.step t (f a) = some t' ∧ R s' t')
    {s : σ} {t : τ} {as : List α} (hC : M.Grants C s as) (hR : R s t) :
    ∃ s' t', M.run s as = some s' ∧ N.run t (as.map f) = some t' ∧ R s' t' := by
  induction as generalizing s t with
  | nil => exact ⟨s, t, rfl, rfl, hR⟩
  | cons a as ih =>
      obtain ⟨s₁, t₁, hs, ht, hR₁⟩ := hstep s t a hC.1 hR
      obtain ⟨s', t', hs', ht', hR'⟩ := ih (hC.2 s₁ hs) hR₁
      exact ⟨s', t', run_cons.mpr ⟨s₁, hs, hs'⟩, run_cons.mpr ⟨t₁, ht, ht'⟩, hR'⟩

/-- What is seen of a run: `out s a s'` of each step. -/
def trace (M : Machine σ α) (out : σ → α → σ → List β) : σ → List α → List β
  | _, [] => []
  | s, a :: as => (M.step s a).elim [] fun s' => out s a s' ++ trace M out s' as

/-- **The simulation rule**, where `N` takes the steps that are seen of `M`. -/
theorem trace_simulation {out : σ → α → σ → List β}
    (hstep : ∀ s t a s', R s t → M.step s a = some s' → ∃ t', N.run t (out s a s') = some t' ∧ R s' t')
    {s s' : σ} {t : τ} {as : List α} (hR : R s t) (hr : M.run s as = some s') :
    ∃ t', N.run t (M.trace out s as) = some t' ∧ R s' t' := by
  induction as generalizing s t with
  | nil =>
      obtain rfl := Option.some.inj hr
      exact ⟨t, rfl, hR⟩
  | cons a as ih =>
      obtain ⟨s₁, hs, hr'⟩ := run_cons.mp hr
      obtain ⟨t₁, ht, hR₁⟩ := hstep s t a s₁ hR hs
      obtain ⟨t', ht', hR'⟩ := ih hR₁ hr'
      refine ⟨t', ?_, hR'⟩
      rw [trace, hs, Option.elim_some]
      exact run_append.mpr ⟨t₁, ht, ht'⟩

/-- What each action adds is added up. -/
theorem run_measure {A : Type*} [AddMonoid A] {size : σ → A} {adds : α → A}
    (hstep : ∀ s a s', M.step s a = some s' → size s' = size s + adds a)
    {s s' : σ} {as : List α} (hr : M.run s as = some s') :
    size s' = size s + (as.map adds).sum := by
  induction as generalizing s with
  | nil =>
      obtain rfl := Option.some.inj hr
      simp
  | cons a as ih =>
      obtain ⟨t, ht, hr'⟩ := run_cons.mp hr
      rw [ih hr', hstep s a t ht, List.map_cons, List.sum_cons, add_assoc]

end Machine

end X50.Lib
