/-
# `X50.Lib.Machine` — partial deterministic machines and their runs

A machine has a partial step: `none` means that the program has no defined
behaviour from there on.  Over it, the three things a development says about
runs:

    run     the state a list of actions leads to
    Along   a state predicate holds in every state the run passes through
    Meets   an action condition holds at every step the run takes

Each induction over a run is done here once.  A user of the module proves a
statement about ONE step and obtains the statement about runs from
`run_invariant`, `along_of_invariant`, `along_iff_meets` or `along_iff_meets_of`.
-/
import Mathlib.Data.List.Infix

namespace X50.Lib

/-- A deterministic machine whose step may be undefined. -/
structure Machine (σ α : Type*) where
  step : σ → α → Option σ

namespace Machine

variable {σ α : Type*} (M : Machine σ α)

/-- The state reached by a list of actions, if every step is defined. -/
def run : σ → List α → Option σ
  | s, [] => some s
  | s, a :: as => (M.step s a).bind fun s' => run s' as

/-- `P` holds in every state the run passes through, the first included. -/
def Along (P : σ → Prop) : σ → List α → Prop
  | s, [] => P s
  | s, a :: as => P s ∧ ∀ s', M.step s a = some s' → Along P s' as

/-- `C` holds of every step the run takes: of its action, in the state it is
taken in. -/
def Meets (C : σ → α → Prop) : σ → List α → Prop
  | _, [] => True
  | s, a :: as => ∀ s', M.step s a = some s' → C s a ∧ Meets C s' as

instance decMeets {C : σ → α → Prop} [∀ s a, Decidable (C s a)] :
    ∀ s as, Decidable (M.Meets C s as)
  | _, [] => isTrue trivial
  | s, a :: as =>
      match h : M.step s a with
      | none => isTrue fun s' hs => by cases h.symm.trans hs
      | some t =>
          have : Decidable (M.Meets C t as) := decMeets t as
          decidable_of_iff (C s a ∧ M.Meets C t as)
            ⟨fun hc s' hs => Option.some.inj (h.symm.trans hs) ▸ hc, fun hc => hc t h⟩

variable {M} {P Q : σ → Prop} {C : σ → α → Prop} {V : α → Prop}

@[simp] theorem run_nil {s : σ} : M.run s [] = some s := rfl

theorem run_cons {s s' : σ} {a : α} {as : List α} :
    M.run s (a :: as) = some s' ↔
      ∃ t, M.step s a = some t ∧ M.run t as = some s' := by
  simp only [run, Option.bind_eq_some_iff]

theorem run_append {s s' : σ} {as bs : List α} :
    M.run s (as ++ bs) = some s' ↔
      ∃ t, M.run s as = some t ∧ M.run t bs = some s' := by
  induction as generalizing s with
  | nil => simp
  | cons a as ih =>
      simp only [List.cons_append, run_cons, ih]
      constructor
      · rintro ⟨t, ht, u, hu, hs⟩
        exact ⟨u, ⟨t, ht, hu⟩, hs⟩
      · rintro ⟨u, ⟨t, ht, hu⟩, hs⟩
        exact ⟨t, ht, u, hu, hs⟩

theorem Along.head {s : σ} {as : List α} (h : M.Along P s as) : P s := by
  cases as with
  | nil => exact h
  | cons a as => exact h.1

/-- `Along`, read over the prefixes of the action list. -/
theorem along_iff {s : σ} {as : List α} :
    M.Along P s as ↔ ∀ pre, pre <+: as → ∀ s', M.run s pre = some s' → P s' := by
  induction as generalizing s with
  | nil =>
      simp only [Along, List.prefix_nil]
      constructor
      · rintro h pre rfl s' hr
        exact (Option.some.inj hr) ▸ h
      · intro h
        exact h [] rfl s rfl
  | cons a as ih =>
      simp only [Along, ih]
      constructor
      · rintro ⟨hs, h⟩ pre hpre s' hr
        cases pre with
        | nil => exact (Option.some.inj hr) ▸ hs
        | cons b bs =>
            obtain ⟨rfl, hbs⟩ := List.cons_prefix_cons.mp hpre
            obtain ⟨t, ht, hr'⟩ := run_cons.mp hr
            exact h t ht bs hbs s' hr'
      · intro h
        refine ⟨h [] List.nil_prefix s rfl, fun t ht bs hbs s' hr => ?_⟩
        exact h (a :: bs) (List.cons_prefix_cons.mpr ⟨rfl, hbs⟩) s'
          (run_cons.mpr ⟨t, ht, hr⟩)

theorem Along.last {s s' : σ} {as : List α} (h : M.Along P s as)
    (hr : M.run s as = some s') : P s' :=
  along_iff.mp h as List.prefix_rfl s' hr

theorem Along.mono {s : σ} {as : List α} (hPQ : ∀ s, P s → Q s)
    (h : M.Along P s as) : M.Along Q s as :=
  along_iff.mpr fun pre hpre s' hr => hPQ s' (along_iff.mp h pre hpre s' hr)

theorem along_and {s : σ} {as : List α} :
    M.Along (fun s => P s ∧ Q s) s as ↔ M.Along P s as ∧ M.Along Q s as := by
  simp only [along_iff]
  exact ⟨fun h => ⟨fun p hp t ht => (h p hp t ht).1, fun p hp t ht => (h p hp t ht).2⟩,
    fun h p hp t ht => ⟨h.1 p hp t ht, h.2 p hp t ht⟩⟩

/-- **The invariant rule.**  `V` restricts the actions a run may use. -/
theorem along_of_invariant (hstep : ∀ s a s', V a → P s → M.step s a = some s' → P s')
    {s : σ} {as : List α} (hV : ∀ a ∈ as, V a) (hs : P s) : M.Along P s as := by
  induction as generalizing s with
  | nil => exact hs
  | cons a as ih =>
      have ha : V a := hV a List.mem_cons_self
      refine ⟨hs, fun t ht => ?_⟩
      exact ih (fun b hb => hV b (List.mem_cons_of_mem _ hb)) (hstep s a t ha hs ht)

theorem run_invariant (hstep : ∀ s a s', V a → P s → M.step s a = some s' → P s')
    {s s' : σ} {as : List α} (hV : ∀ a ∈ as, V a) (hs : P s)
    (hr : M.run s as = some s') : P s' :=
  (along_of_invariant hstep hV hs).last hr

/-- The invariant rule, where the actions are restricted by the state they are
taken in. -/
theorem along_of_meets (hstep : ∀ s a s', C s a → P s → M.step s a = some s' → P s')
    {s : σ} {as : List α} (hC : M.Meets C s as) (hs : P s) : M.Along P s as := by
  induction as generalizing s with
  | nil => exact hs
  | cons a as ih =>
      refine ⟨hs, fun t ht => ?_⟩
      obtain ⟨hc, hm⟩ := hC t ht
      exact ih hm (hstep s a t hc hs ht)

theorem Meets.of_append {s t : σ} {as bs : List α} (h : M.Meets C s (as ++ bs))
    (hr : M.run s as = some t) : M.Meets C t bs := by
  induction as generalizing s with
  | nil => exact Option.some.inj hr ▸ h
  | cons a as ih =>
      obtain ⟨u, hu, hr'⟩ := run_cons.mp hr
      exact ih (h u hu).2 hr'

theorem meets_of_forall {s : σ} {as : List α} (hV : ∀ a ∈ as, V a) :
    M.Meets (fun _ => V) s as := by
  induction as generalizing s with
  | nil => trivial
  | cons a as ih =>
      intro t _
      exact ⟨hV a List.mem_cons_self, ih fun b hb => hV b (List.mem_cons_of_mem _ hb)⟩

/-- Two conditions on steps that say the same in the states of an invariant, which
the steps that meet the first one keep.  `U` restricts the actions by the state they
are taken in. -/
theorem meets_congr_of {U D : σ → α → Prop}
    (hstep : ∀ s a s', U s a → C s a → P s → M.step s a = some s' → P s')
    (hiff : ∀ s a s', U s a → P s → M.step s a = some s' → (C s a ↔ D s a))
    {s : σ} {as : List α} (hU : M.Meets U s as) (hs : P s) :
    M.Meets C s as ↔ M.Meets D s as := by
  induction as generalizing s with
  | nil => exact Iff.rfl
  | cons a as ih =>
      simp only [Meets]
      refine forall₂_congr fun t ht => ?_
      obtain ⟨ha, hU'⟩ := hU t ht
      constructor
      · rintro ⟨hc, hm⟩
        exact ⟨(hiff s a t ha hs ht).mp hc, (ih hU' (hstep s a t ha hc hs ht)).mp hm⟩
      · rintro ⟨hd, hm⟩
        have hc := (hiff s a t ha hs ht).mpr hd
        exact ⟨hc, (ih hU' (hstep s a t ha hc hs ht)).mpr hm⟩

theorem meets_congr {D : σ → α → Prop}
    (hstep : ∀ s a s', V a → C s a → P s → M.step s a = some s' → P s')
    (hiff : ∀ s a s', V a → P s → M.step s a = some s' → (C s a ↔ D s a))
    {s : σ} {as : List α} (hV : ∀ a ∈ as, V a) (hs : P s) : M.Meets C s as ↔ M.Meets D s as :=
  meets_congr_of (U := fun _ => V) hstep hiff (meets_of_forall hV) hs

/-- **The totality rule.**  A run is defined to its end if every step from a state
of an invariant is, and keeps the invariant. -/
theorem run_total (hstep : ∀ s a, V a → P s → ∃ s', M.step s a = some s' ∧ P s')
    {s : σ} {as : List α} (hV : ∀ a ∈ as, V a) (hs : P s) :
    ∃ s', M.run s as = some s' ∧ P s' := by
  induction as generalizing s with
  | nil => exact ⟨s, rfl, hs⟩
  | cons a as ih =>
      obtain ⟨t, ht, hpt⟩ := hstep s a (hV a List.mem_cons_self) hs
      obtain ⟨s', hr, hps⟩ := ih (fun b hb => hV b (List.mem_cons_of_mem _ hb)) hpt
      exact ⟨s', run_cons.mpr ⟨t, ht, hr⟩, hps⟩

/-- **The exact-condition rule**, for a property that is seen through an invariant:
from a state of `I` a step that meets `C` leads to a state of `I`, and only such a
step leads to a state of `P`. -/
theorem along_iff_meets_of {I : σ → Prop} (hI : ∀ s, I s → P s)
    (hstep : ∀ s a s', V a → I s → M.step s a = some s' → (C s a → I s') ∧ (P s' → C s a))
    {s : σ} {as : List α} (hV : ∀ a ∈ as, V a) (hs : I s) : M.Along P s as ↔ M.Meets C s as := by
  induction as generalizing s with
  | nil => exact ⟨fun _ => trivial, fun _ => hI s hs⟩
  | cons a as ih =>
      have ha : V a := hV a List.mem_cons_self
      have hV' : ∀ b ∈ as, V b := fun b hb => hV b (List.mem_cons_of_mem _ hb)
      simp only [Along, Meets]
      constructor
      · rintro ⟨-, h⟩ t ht
        obtain ⟨hkeep, honly⟩ := hstep s a t ha hs ht
        have hc : C s a := honly (h t ht).head
        exact ⟨hc, (ih hV' (hkeep hc)).mp (h t ht)⟩
      · intro h
        refine ⟨hI s hs, fun t ht => ?_⟩
        obtain ⟨hc, hm⟩ := h t ht
        exact (ih hV' ((hstep s a t ha hs ht).1 hc)).mpr hm

/-- If, in the states of an invariant `Q`, one step from a good state leads to a good
state exactly when the action meets `C`, then a run passes through good states only
exactly when it meets `C` at every step. -/
theorem along_iff_meets
    (hQ : ∀ s a s', V a → Q s → M.step s a = some s' → Q s')
    (hstep : ∀ s a s', V a → Q s → P s → M.step s a = some s' → (P s' ↔ C s a))
    {s : σ} {as : List α} (hV : ∀ a ∈ as, V a) (hq : Q s) (hp : P s) :
    M.Along P s as ↔ M.Meets C s as := by
  refine along_iff_meets_of (I := fun s => Q s ∧ P s) (fun s hs => hs.2) ?_ hV ⟨hq, hp⟩
  rintro t a t' ha ⟨hqt, hpt⟩ ht
  have hiff := hstep t a t' ha hqt hpt ht
  exact ⟨fun hc => ⟨hQ t a t' ha hqt ht, hiff.mpr hc⟩, hiff.mp⟩

end Machine

end X50.Lib
