/-
# `X50.Lib.Trigger` — loops that something sets off

A partial loop `as.foldlM f` keeps what is good about its state until an element
comes that sets it off, and cannot undo that afterwards.  Which element does is
decided by a SHADOW of the state, a value that is computed without running the
loop:

    P t a   the element `a` sets the loop off when the shadow is `t`
    u t a   the shadow behind `a`

`foldlM_triggers` reads the loop's effect off the shadow alone, exactly.
-/
import Mathlib.Data.List.Basic

namespace X50.Lib

variable {σ τ α : Type*}

/-- Some element of the list sets the loop off. -/
def Triggers (P : τ → α → Prop) (u : τ → α → τ) : τ → List α → Prop
  | _, [] => False
  | t, a :: as => P t a ∨ Triggers P u (u t a) as

instance decTriggers (P : τ → α → Prop) (u : τ → α → τ) [∀ t a, Decidable (P t a)] :
    ∀ t as, Decidable (Triggers P u t as)
  | _, [] => inferInstanceAs (Decidable False)
  | t, a :: as =>
      have := decTriggers P u (u t a) as
      inferInstanceAs (Decidable (_ ∨ _))

/-- With a shadow that stands still, some element does by itself. -/
theorem triggers_const {P : τ → α → Prop} {t : τ} {as : List α} :
    Triggers P (fun t _ => t) t as ↔ ∃ a ∈ as, P t a := by
  induction as with
  | nil => simp [Triggers]
  | cons a as ih => simp [Triggers, ih]

theorem foldlM_cons_some {f : σ → α → Option σ} {s s' : σ} {a : α} {as : List α} :
    (a :: as).foldlM f s = some s' ↔ ∃ m, f s a = some m ∧ as.foldlM f m = some s' := by
  rw [List.foldlM_cons]
  exact Option.bind_eq_some_iff

/-- Whatever a partial map yields, it yields of some element. -/
theorem exists_of_mem_mapM {f : α → Option σ} {as : List α} {ss : List σ}
    (h : as.mapM f = some ss) : ∀ s ∈ ss, ∃ a ∈ as, f a = some s := by
  induction as generalizing ss with
  | nil =>
      obtain rfl := Option.some.inj h
      exact fun s hs => absurd hs List.not_mem_nil
  | cons a as ih =>
      rw [List.mapM_cons] at h
      obtain ⟨s, hs, h⟩ := Option.bind_eq_some_iff.mp h
      obtain ⟨rest, hrest, h⟩ := Option.bind_eq_some_iff.mp h
      obtain rfl := Option.some.inj h
      intro t ht
      rcases List.mem_cons.mp ht with rfl | ht
      · exact ⟨a, List.mem_cons_self, hs⟩
      · obtain ⟨c, hc, hct⟩ := ih hrest t ht
        exact ⟨c, List.mem_cons_of_mem _ hc, hct⟩

/-- What every turn keeps, the loop keeps. -/
theorem foldlM_keeps {f : σ → α → Option σ} {I : σ → Prop}
    (hstep : ∀ s a s', I s → f s a = some s' → I s') {s s' : σ} {as : List α}
    (hs : I s) (h : as.foldlM f s = some s') : I s' := by
  induction as generalizing s with
  | nil =>
      obtain rfl := Option.some.inj h
      exact hs
  | cons a as ih =>
      obtain ⟨m, hm, h⟩ := foldlM_cons_some.mp h
      exact ih (hstep s a m hs hm) h

/-- Two loops whose turns agree, as long as an invariant holds, agree. -/
theorem foldlM_congr_keeps {f g : σ → α → Option σ} {I : σ → Prop} {as : List α}
    (hstep : ∀ s a s', I s → f s a = some s' → I s')
    (hfg : ∀ s, ∀ a ∈ as, I s → f s a = g s a) {s : σ} (hs : I s) :
    as.foldlM f s = as.foldlM g s := by
  induction as generalizing s with
  | nil => rfl
  | cons a as ih =>
      rw [List.foldlM_cons, List.foldlM_cons, ← hfg s a List.mem_cons_self hs]
      cases hm : f s a with
      | none => rfl
      | some m =>
          exact ih (fun s b hb => hfg s b (List.mem_cons_of_mem _ hb)) (hstep s a m hs hm)

/-- **The counting rule**, for a loop over `0, …, n - 1`: an invariant that counts
the turns. -/
theorem foldlM_range {f : σ → Nat → Option σ} {I : Nat → σ → Prop} {n : Nat} {s s' : σ}
    (h0 : I 0 s) (hstep : ∀ i s s', i < n → I i s → f s i = some s' → I (i + 1) s')
    (h : (List.range n).foldlM f s = some s') : I n s' := by
  induction n generalizing s' with
  | zero =>
      obtain rfl := Option.some.inj h
      exact h0
  | succ n ih =>
      rw [List.range_succ, List.foldlM_append] at h
      obtain ⟨m, hm, h⟩ := Option.bind_eq_some_iff.mp h
      obtain ⟨m', hm', h⟩ := foldlM_cons_some.mp h
      obtain rfl := Option.some.inj h
      have hmid : I n m := ih (fun i s s' hi => hstep i s s' (by omega)) hm
      exact hstep n m m' (Nat.lt_succ_self n) hmid hm'

/-- The counting rule for a loop that cannot fail. -/
theorem foldlM_range_total {f : σ → Nat → Option σ} {I : Nat → σ → Prop} {n : Nat} {s : σ}
    (h0 : I 0 s) (hstep : ∀ i s, i < n → I i s → ∃ s', f s i = some s' ∧ I (i + 1) s') :
    ∃ s', (List.range n).foldlM f s = some s' ∧ I n s' := by
  induction n with
  | zero => exact ⟨s, rfl, h0⟩
  | succ n ih =>
      obtain ⟨m, hm, hmid⟩ := ih fun i s hi => hstep i s (by omega)
      obtain ⟨s', hs', hlast⟩ := hstep n m (Nat.lt_succ_self n) hmid
      refine ⟨s', ?_, hlast⟩
      rw [List.range_succ, List.foldlM_append, hm]
      exact foldlM_cons_some.mpr ⟨s', hs', rfl⟩

/-- **The trigger rule.**  `Good` relates the shadow to the state, `Fired` holds
of a state that has been set off. -/
theorem foldlM_triggers {f : σ → α → Option σ} {P : τ → α → Prop} {u : τ → α → τ}
    {Good : τ → σ → Prop} {Fired : σ → Prop}
    (hfire : ∀ t s a s', Good t s → f s a = some s' → P t a → Fired s')
    (hquiet : ∀ t s a s', Good t s → f s a = some s' → ¬ P t a → Good (u t a) s')
    (hstay : ∀ s a s', Fired s → f s a = some s' → Fired s')
    {t : τ} {s s' : σ} {as : List α} (hs : Good t s) (h : as.foldlM f s = some s') :
    (Triggers P u t as → Fired s') ∧ (¬ Triggers P u t as → Good (as.foldl u t) s') := by
  induction as generalizing t s with
  | nil =>
      obtain rfl := Option.some.inj h
      exact ⟨False.elim, fun _ => hs⟩
  | cons a as ih =>
      obtain ⟨m, hm, h⟩ := foldlM_cons_some.mp h
      by_cases hp : P t a
      · have hf : Fired s' := foldlM_keeps hstay (hfire t s a m hs hm hp) h
        exact ⟨fun _ => hf, fun hn => absurd (Or.inl hp) hn⟩
      · have hrest := ih (hquiet t s a m hs hm hp) h
        refine ⟨fun ht => hrest.1 (ht.resolve_left hp), fun hn => hrest.2 fun ht => ?_⟩
        exact hn (Or.inr ht)

end X50.Lib
