/-
# `X50.Lib.Output` — appending to a block of memory

A program writes a text from left to right into a block that it makes larger
when it has to.  Three things about this are general:

    storeAt block i l       a write that must lie in the block
    resized found n block   the block made larger or smaller
    O.Emits text f          a step that appends `text`, or has a reason to fail

A write is described by what lies in front of its end (`storeAt_spec`), and
appending steps compose along `++` (`Emits.comp`), so the code above them is
about texts only.
-/
import Mathlib.Data.List.Basic

namespace X50.Lib

/-! ## Blocks -/

section Block

variable {α : Type*} {block block' l : List α} {i k : Nat}

/-- Writes `l` from `i` on; `none` if it does not lie in the block. -/
def storeAt (block : List α) (i : Nat) (l : List α) : Option (List α) :=
  if i + l.length ≤ block.length then
    some (block.take i ++ l ++ block.drop (i + l.length))
  else none

/-- A write inside the block: what is behind it stays, and so does the size. -/
theorem storeAt_spec (h : i + l.length ≤ block.length) :
    ∃ block', storeAt block i l = some block' ∧ block'.length = block.length ∧
      block'.take (i + l.length) = block.take i ++ l := by
  have hfront : (block.take i).length = i := by
    rw [List.length_take]
    omega
  refine ⟨_, if_pos h, ?_, ?_⟩
  · simp only [List.length_append, List.length_drop, hfront]
    omega
  · have hlen : (block.take i ++ l).length = i + l.length := by
      rw [List.length_append, hfront]
    rw [← hlen, List.take_left]

/-- Less of the front is there too. -/
theorem take_of_take (h : block'.take k = l) (hi : i ≤ k) : block'.take i = l.take i := by
  rw [← h, List.take_take, Nat.min_eq_left hi]

/-- The block with another size; where it is new it holds what is found there. -/
def resized (found : Nat → α) (n : Nat) (block : List α) : List α :=
  (List.range n).map fun i => block.getD i (found i)

@[simp] theorem length_resized (found : Nat → α) (n : Nat) (block : List α) :
    (resized found n block).length = n := by
  simp [resized]

theorem take_resized {found : Nat → α} {n : Nat} (hn : k ≤ n) (hk : k ≤ block.length) :
    (resized found n block).take k = block.take k := by
  refine List.ext_getElem (by simp [hn, hk]) fun i hi hi' => ?_
  have hlt : i < block.length := by
    rw [List.length_take] at hi'
    omega
  simp [resized, List.getElem?_eq_getElem hlt]

/-- A smaller block is the front of the old one. -/
theorem resized_eq_take {found : Nat → α} {n : Nat} (hn : n ≤ block.length) :
    resized found n block = block.take n := by
  rw [← take_resized (Nat.le_refl n) hn]
  exact (List.take_of_length_le (by simp)).symm

end Block

/-! ## Steps that append -/

/-- An output: its good states, what is written in one, and which errors there is a reason
for once so much is to be written. -/
structure Output (σ ε α : Type*) where
  Good : σ → Prop
  written : σ → List α
  Refuses : Nat → ε → Prop
  mono : ∀ {m n : Nat} {e : ε}, Refuses m e → m ≤ n → Refuses n e

namespace Output

variable {σ ε α : Type*} {O : Output σ ε α} {a b : List α} {P Q : σ → σ → Prop}
  {f g : σ → Except ε σ}

/-- The step is after `text`: it ends as `P` says, or that much is refused. -/
structure Writes (O : Output σ ε α) (text : List α) (P : σ → σ → Prop) (f : σ → Except ε σ) :
    Prop where
  ok : ∀ {s s'}, O.Good s → f s = .ok s' → P s s'
  error : ∀ {s e}, O.Good s → f s = .error e → O.Refuses ((O.written s).length + text.length) e

/-- The step appends `text`. -/
def Emits (O : Output σ ε α) (text : List α) (f : σ → Except ε σ) : Prop :=
  O.Writes text (fun s s' => O.Good s' ∧ O.written s' = O.written s ++ text) f

@[simp] theorem ok_bind.{u, v} {ε : Type u} {σ τ : Type v} (s : σ) (f : σ → Except ε τ) :
    ((.ok s : Except ε σ) >>= f) = f s := rfl

/-- A step behind that cannot fail. -/
theorem Writes.andThen (hf : O.Writes a P f)
    (hg : ∀ s s', O.Good s → P s s' → ∃ s'', g s' = .ok s'' ∧ Q s s'') :
    O.Writes a Q (fun s => f s >>= g) where
  ok := by
    intro s s'' hs h
    cases hfs : f s with
    | error e =>
        rw [hfs] at h
        cases h
    | ok s' =>
        rw [hfs] at h
        obtain ⟨r, hr, hpost⟩ := hg s s' hs (hf.ok hs hfs)
        cases hr.symm.trans h
        exact hpost
  error := by
    intro s e hs h
    cases hfs : f s with
    | error e' =>
        rw [hfs] at h
        cases h
        exact hf.error hs hfs
    | ok s' =>
        rw [hfs] at h
        obtain ⟨r, hr, -⟩ := hg s s' hs (hf.ok hs hfs)
        cases hr.symm.trans h

/-- A step behind one that appends. -/
theorem Emits.bind (hf : O.Emits a f) (hg : O.Writes b Q g)
    (hpost : ∀ {s s' s''}, O.Good s → O.Good s' → O.written s' = O.written s ++ a →
      Q s' s'' → P s s'') : O.Writes (a ++ b) P (fun s => f s >>= g) where
  ok := by
    intro s s'' hs h
    cases hfs : f s with
    | error e =>
        rw [hfs] at h
        cases h
    | ok s' =>
        rw [hfs] at h
        obtain ⟨hs', hwritten⟩ := hf.ok hs hfs
        exact hpost hs hs' hwritten (hg.ok hs' h)
  error := by
    intro s e hs h
    cases hfs : f s with
    | error e' =>
        rw [hfs] at h
        cases h
        refine O.mono (hf.error hs hfs) ?_
        rw [List.length_append]
        omega
    | ok s' =>
        rw [hfs] at h
        obtain ⟨hs', hwritten⟩ := hf.ok hs hfs
        have hrefuses := hg.error hs' h
        rw [hwritten, List.length_append, Nat.add_assoc, ← List.length_append] at hrefuses
        exact hrefuses

/-- **Appending composes.** -/
theorem Emits.comp (hf : O.Emits a f) (hg : O.Emits b g) :
    O.Emits (a ++ b) (fun s => f s >>= g) := by
  refine hf.bind hg ?_
  rintro s s' s'' - - hwritten ⟨hgood, hwritten'⟩
  exact ⟨hgood, by rw [hwritten', hwritten, List.append_assoc]⟩

theorem Emits.nil : O.Emits [] .ok where
  ok := by
    rintro s s' hs h
    cases h
    exact ⟨hs, (List.append_nil _).symm⟩
  error := by
    intro s e _ h
    cases h

end Output

end X50.Lib
