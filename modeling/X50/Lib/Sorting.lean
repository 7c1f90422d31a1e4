/-
# `X50.Lib.Sorting` — a sort, and the order it asks for

A sort that is given a comparison promises a result only where the comparison is a
strict weak order, and it has to be one only on the members of the list.
`StrictWeakOn` is that condition; `strictWeakOn_iff` decides it by the two laws a
comparison can break:

    asymmetry    not both of two come before the other
    separation   what comes before another does not stand level with all that
                 the other stands level with

Under it the sort leaves no two members the wrong way round.
-/
import Mathlib.Data.List.Sort

namespace X50.Lib

variable {α : Type*} {lt : α → α → Bool} {l m : List α}

/-- `lt` is a strict weak order on the members of `l`. -/
def StrictWeakOn (lt : α → α → Bool) (l : List α) : Prop :=
  IsStrictWeakOrder {a // a ∈ l} fun a b => lt a b = true

theorem strictWeakOn_iff : StrictWeakOn lt l ↔
    (∀ a ∈ l, ∀ b ∈ l, lt a b = true → lt b a = false) ∧
      ∀ a ∈ l, ∀ b ∈ l, lt a b = true → ∀ c ∈ l, lt a c = true ∨ lt c b = true := by
  constructor
  · intro h
    have hasymm : ∀ a ∈ l, ∀ b ∈ l, lt a b = true → lt b a = false := by
      intro a ha b hb hab
      by_contra hba
      have hba : lt b a = true := by simpa using hba
      exact h.irrefl ⟨a, ha⟩ (h.trans ⟨a, ha⟩ ⟨b, hb⟩ ⟨a, ha⟩ hab hba)
    refine ⟨hasymm, fun a ha b hb hab c hc => ?_⟩
    by_contra hno
    obtain ⟨hac, hcb⟩ := not_or.mp hno
    -- then `c` stands level with both, and they would with each other
    have hca : ¬ lt c a = true := fun hca => hcb (h.trans ⟨c, hc⟩ ⟨a, ha⟩ ⟨b, hb⟩ hca hab)
    have hbc : ¬ lt b c = true := fun hbc => hac (h.trans ⟨a, ha⟩ ⟨b, hb⟩ ⟨c, hc⟩ hab hbc)
    exact (h.incomp_trans ⟨a, ha⟩ ⟨c, hc⟩ ⟨b, hb⟩ ⟨hac, hca⟩ ⟨hcb, hbc⟩).1 hab
  · rintro ⟨hasymm, hsep⟩
    exact
      { irrefl := fun a haa => by simpa [haa] using hasymm a a.2 a a.2 haa
        trans := fun a b c hab hbc => by
          rcases hsep a a.2 b b.2 hab c c.2 with hac | hcb
          · exact hac
          · simp [hasymm b b.2 c c.2 hbc] at hcb
        incomp_trans := fun a b c hab hbc => by
          refine ⟨fun hac => ?_, fun hca => ?_⟩
          · rcases hsep a a.2 c c.2 hac b b.2 with hab' | hbc'
            · exact hab.1 hab'
            · exact hbc.1 hbc'
          · rcases hsep c c.2 a a.2 hca b b.2 with hcb | hba
            · exact hbc.2 hcb
            · exact hab.2 hba }

instance : Decidable (StrictWeakOn lt l) := decidable_of_iff' _ strictWeakOn_iff

theorem StrictWeakOn.subset (h : StrictWeakOn lt l) (hsub : m ⊆ l) : StrictWeakOn lt m := by
  obtain ⟨hasymm, hsep⟩ := strictWeakOn_iff.mp h
  refine strictWeakOn_iff.mpr ⟨fun a ha b hb => ?_, fun a ha b hb hab c hc => ?_⟩
  · exact hasymm a (hsub ha) b (hsub hb)
  · exact hsep a (hsub ha) b (hsub hb) hab c (hsub hc)

/-- A relation that is total and transitive on the members arranges them. -/
theorem pairwise_insertionSort_of_mem {r : α → α → Prop} [DecidableRel r]
    (htotal : ∀ a ∈ l, ∀ b ∈ l, r a b ∨ r b a)
    (htrans : ∀ a ∈ l, ∀ b ∈ l, ∀ c ∈ l, r a b → r b c → r a c) :
    (l.insertionSort r).Pairwise r := by
  let rl : {a // a ∈ l} → {a // a ∈ l} → Prop := fun a b => r a b
  have : Std.Total rl := ⟨fun a b => htotal a a.2 b b.2⟩
  have : IsTrans {a // a ∈ l} rl := ⟨fun a b c => htrans a a.2 b b.2 c c.2⟩
  have hmap : (l.attach.insertionSort rl).map Subtype.val = l.insertionSort r := by
    rw [List.map_insertionSort rl r Subtype.val l.attach fun _ _ _ _ => Iff.rfl,
      List.attach_map_subtype_val]
  rw [← hmap, List.pairwise_map]
  exact List.pairwise_insertionSort rl l.attach

/-- **Sorting by a strict weak order** leaves no member behind one it comes before. -/
theorem StrictWeakOn.pairwise_insertionSort (h : StrictWeakOn lt l) :
    (l.insertionSort fun a b => lt b a = false).Pairwise fun a b => lt b a = false := by
  obtain ⟨hasymm, hsep⟩ := strictWeakOn_iff.mp h
  refine pairwise_insertionSort_of_mem (fun a ha b hb => ?_) fun a ha b hb c hc hab hbc => ?_
  · by_cases hlt : lt a b = true
    · exact Or.inl (hasymm a ha b hb hlt)
    · exact Or.inr (by simpa using hlt)
  · by_contra hca
    have hca : lt c a = true := by simpa using hca
    rcases hsep c hc a ha hca b hb with hcb | hba
    · simp [hbc] at hcb
    · simp [hab] at hba

end X50.Lib
