/-
# `X50.Lib.Follow` — followers of a log

A machine reports what it does by appending to a log.  A follower takes a copy of
the machine's state at some moment, and from then on applies every report to its
copy, in order.

`along_follow_iff` is the rule for such a pair.  If in the states of an invariant
one step leaves a good copy good exactly when the step meets `C`, then the copy is
good in every state of a run exactly when all steps of the run meet `C`.
-/
import X50.Lib.Machine

namespace X50.Lib

variable {σ α ε κ : Type*}

/-- The copy of a follower that has seen `seen` entries when it took `copy`. -/
def follow (apply : κ → ε → κ) (copy : κ) (seen : Nat) (log : List ε) : κ :=
  (log.drop seen).foldl apply copy

section

variable {apply : κ → ε → κ} {copy : κ} {seen : Nat} {log new : List ε}

@[simp] theorem follow_self : follow apply copy log.length log = copy := by
  simp [follow]

/-- New entries are applied to the copy there is. -/
theorem follow_append (h : seen ≤ log.length) :
    follow apply copy seen (log ++ new) = new.foldl apply (follow apply copy seen log) := by
  rw [follow, follow, List.drop_append_of_le_length h, List.foldl_append]

end

/-- **The follower rule.** -/
theorem Machine.along_follow_iff {M : Machine σ α} {log : σ → List ε} {apply : κ → ε → κ}
    {Q : σ → Prop} {Good : σ → κ → Prop} {C : σ → α → Prop} {V : α → Prop}
    (hlog : ∀ s a s', V a → Q s → M.step s a = some s' → log s <+: log s')
    (hQ : ∀ s a s', V a → Q s → M.step s a = some s' → Q s')
    (hstep : ∀ s a s' copy new, V a → Q s → Good s copy → M.step s a = some s' →
      log s' = log s ++ new → (Good s' (new.foldl apply copy) ↔ C s a))
    {s : σ} {as : List α} {copy : κ} (hV : ∀ a ∈ as, V a) (hq : Q s) (hg : Good s copy) :
    M.Along (fun t => Good t (follow apply copy (log s).length (log t))) s as ↔
      M.Meets C s as := by
  refine along_iff_meets (V := V) (Q := fun t => Q t ∧ (log s).length ≤ (log t).length)
    ?_ ?_ hV ⟨hq, le_refl _⟩ (by rwa [follow_self])
  · rintro t a t' ha ⟨hqt, hle⟩ ht
    exact ⟨hQ t a t' ha hqt ht, hle.trans (hlog t a t' ha hqt ht).length_le⟩
  · rintro t a t' ha ⟨hqt, hle⟩ hgt ht
    obtain ⟨new, hnew⟩ := hlog t a t' ha hqt ht
    rw [← hnew, follow_append hle]
    exact hstep t a t' _ new ha hqt hgt ht hnew.symm

end X50.Lib
