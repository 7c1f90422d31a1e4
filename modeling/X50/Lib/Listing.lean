/-
# `X50.Lib.Listing` — items in brackets, read one after the other

A loop reads an item, skips what stands behind it, and goes on as long as it finds a
separator there; a bracket is such a loop with a closing mark behind it.  Over any
alphabet and any reader of one item: the loop reads back what was joined
(`each_joined`, `bracketed_joined`), everything it lists was read by the reader
(`each_mem`), and nothing is given back that was not there (`each_le`).
-/
import Mathlib.Data.List.Basic

namespace X50.Lib

variable {α β : Type*} [DecidableEq β]

/-- Reads the front of a text: what stood there, and what is left. -/
abbrev Reader (β α : Type*) := List β → Option (α × List β)

namespace Listing

/-! ## Writing -/

/-- Items with a separator between them. -/
def joined (sep : β) (enc : α → List β) : List α → List β
  | [] => []
  | [a] => enc a
  | a :: b :: as => enc a ++ sep :: joined sep enc (b :: as)

omit [DecidableEq β] in
theorem length_le_joined {sep : β} {enc : α → List β} {as : List α}
    (hpos : ∀ a ∈ as, 0 < (enc a).length) : as.length ≤ (joined sep enc as).length := by
  induction as with
  | nil => exact Nat.le_refl _
  | cons a as ih =>
      have ha : 0 < (enc a).length := hpos a List.mem_cons_self
      have htail := ih fun b hb => hpos b (List.mem_cons_of_mem _ hb)
      cases as with
      | nil => exact ha
      | cons b as =>
          simp only [joined, List.length_append, List.length_cons] at htail ⊢
          omega

omit [DecidableEq β] in
theorem mem_joined {sep c : β} {enc : α → List β} {as : List α} (h : c ∈ joined sep enc as) :
    c = sep ∨ ∃ a ∈ as, c ∈ enc a := by
  induction as with
  | nil => cases h
  | cons a as ih =>
      cases as with
      | nil => exact .inr ⟨a, List.mem_cons_self, h⟩
      | cons b as =>
          rcases List.mem_append.mp h with ha | hrest
          · exact .inr ⟨a, List.mem_cons_self, ha⟩
          · rcases List.mem_cons.mp hrest with hsep | htail
            · exact .inl hsep
            · refine (ih htail).imp_right ?_
              rintro ⟨d, hd, hc⟩
              exact ⟨d, List.mem_cons_of_mem _ hd, hc⟩

/-! ## Reading -/

/-- The loop, for at most so many rounds: an item, and behind a separator another. -/
def each (skip : List β → List β) (sep : β) (read : Reader β α) : Nat → Reader β (List α)
  | 0, _ => none
  | rounds + 1, s =>
      (read (skip s)).bind fun r =>
        if (skip r.2).head? = some sep then
          (each skip sep read rounds (skip r.2).tail).map fun more => (r.1 :: more.1, more.2)
        else some ([r.1], skip r.2)

/-- A bracket, from behind its opening mark: nothing, or the loop, then the closing mark. -/
def bracketed (skip : List β → List β) (close : β) (loop : Reader β (List α)) :
    Reader β (List α) := fun s =>
  if skip s = [] then none
  else if (skip s).head? = some close then some ([], (skip s).tail)
  else (loop (skip s)).bind fun r =>
    if r.2.head? = some close then some (r.1, r.2.tail) else none

section

variable {skip : List β → List β} {sep close : β} {read : Reader β α} {enc : α → List β}

/-- The loop goes on behind a separator. -/
theorem each_more {rounds : Nat} {s rest : List β} {a : α}
    (hread : read (skip s) = some (a, sep :: rest)) (hsep : skip (sep :: rest) = sep :: rest) :
    each skip sep read (rounds + 1) s =
      (each skip sep read rounds rest).map fun more => (a :: more.1, more.2) := by
  simp [each, hread, hsep]

/-- The loop ends in front of anything else. -/
theorem each_last {rounds : Nat} {s rest : List β} {a : α}
    (hread : read (skip s) = some (a, rest)) (hlast : (skip rest).head? ≠ some sep) :
    each skip sep read (rounds + 1) s = some ([a], skip rest) := by
  simp [each, hread, hlast]

/-- What a reader and a writer of items share with the marks around them: an item is
read back in front of a mark, and neither items nor marks are skipped. -/
structure Marked (skip : List β → List β) (sep close : β) (read : Reader β α)
    (enc : α → List β) (as : List α) : Prop where
  item : ∀ a ∈ as, ∀ rest, skip (enc a ++ rest) = enc a ++ rest
  mark : ∀ c rest, c = sep ∨ c = close → skip (c :: rest) = c :: rest
  readBack : ∀ a ∈ as, ∀ c rest, c = sep ∨ c = close →
    read (enc a ++ c :: rest) = some (a, c :: rest)
  differ : close ≠ sep

omit [DecidableEq β] in
theorem Marked.tail {a : α} {as : List α} (h : Marked skip sep close read enc (a :: as)) :
    Marked skip sep close read enc as :=
  { h with
    item := fun b hb => h.item b (List.mem_cons_of_mem _ hb)
    readBack := fun b hb => h.readBack b (List.mem_cons_of_mem _ hb) }

/-- **The loop reads back** what was joined, up to the closing mark. -/
theorem each_joined {as : List α} {rounds : Nat} {rest : List β}
    (h : Marked skip sep close read enc as) (hne : as ≠ []) (hrounds : as.length ≤ rounds) :
    each skip sep read rounds (joined sep enc as ++ close :: rest) =
      some (as, close :: rest) := by
  induction as generalizing rounds with
  | nil => exact absurd rfl hne
  | cons a as ih =>
      obtain ⟨rounds, rfl⟩ : ∃ n, rounds = n + 1 :=
        ⟨rounds - 1, by simp only [List.length_cons] at hrounds; omega⟩
      cases as with
      | nil =>
          have hread : read (skip (enc a ++ close :: rest)) = some (a, close :: rest) := by
            rw [h.item a List.mem_cons_self]
            exact h.readBack a List.mem_cons_self close rest (.inr rfl)
          have hclose := h.mark close rest (.inr rfl)
          have hlast : (skip (close :: rest)).head? ≠ some sep := by
            rw [hclose]
            simpa using h.differ
          rw [joined, each_last hread hlast, hclose]
      | cons b as =>
          have hread : read (skip (enc a ++ sep :: (joined sep enc (b :: as) ++ close :: rest)))
              = some (a, sep :: (joined sep enc (b :: as) ++ close :: rest)) := by
            rw [h.item a List.mem_cons_self]
            exact h.readBack a List.mem_cons_self sep _ (.inl rfl)
          have hmore : each skip sep read rounds (joined sep enc (b :: as) ++ close :: rest) =
              some (b :: as, close :: rest) :=
            ih h.tail (List.cons_ne_nil b as) (Nat.le_of_succ_le_succ hrounds)
          rw [joined, List.append_assoc, List.cons_append,
            each_more hread (h.mark sep _ (.inl rfl)), hmore]
          rfl

/-- Everything the loop lists was read by the reader of one item. -/
theorem each_mem {rounds : Nat} {s rest : List β} {as : List α}
    (h : each skip sep read rounds s = some (as, rest)) :
    ∀ a ∈ as, ∃ s' rest', read s' = some (a, rest') := by
  induction rounds generalizing s as with
  | zero => cases h
  | succ rounds ih =>
      obtain ⟨r, hr, hloop⟩ := Option.bind_eq_some_iff.mp h
      split at hloop
      · obtain ⟨more, hmore, heq⟩ := Option.map_eq_some_iff.mp hloop
        cases heq
        intro a ha
        rcases List.mem_cons.mp ha with rfl | ha
        · exact ⟨_, _, hr⟩
        · exact ih hmore a ha
      · cases hloop
        intro a ha
        obtain rfl := List.mem_singleton.mp ha
        exact ⟨_, _, hr⟩

/-- **A bracket reads back** what was joined in it. -/
theorem bracketed_joined {as : List α} {rounds : Nat} {rest : List β}
    (h : Marked skip sep close read enc as) (hrounds : as.length ≤ rounds)
    (hopen : ∀ a ∈ as, ∃ c l, enc a = c :: l ∧ c ≠ close) :
    bracketed skip close (each skip sep read rounds) (joined sep enc as ++ close :: rest) =
      some (as, rest) := by
  cases as with
  | nil => simp [bracketed, joined, h.mark close rest (.inr rfl)]
  | cons a as =>
      obtain ⟨c, l, hc, hne⟩ := hopen a List.mem_cons_self
      have hhead : ∃ l', joined sep enc (a :: as) ++ close :: rest = enc a ++ l' := by
        cases as with
        | nil => exact ⟨_, rfl⟩
        | cons b as => exact ⟨_, by rw [joined, List.append_assoc]⟩
      obtain ⟨l', hl'⟩ := hhead
      have hskip : skip (joined sep enc (a :: as) ++ close :: rest) =
          joined sep enc (a :: as) ++ close :: rest := by
        rw [hl']
        exact h.item a List.mem_cons_self l'
      have hfront : (joined sep enc (a :: as) ++ close :: rest).head? = some c := by
        rw [hl', hc]
        rfl
      have hnil : joined sep enc (a :: as) ++ close :: rest ≠ [] := by
        intro hnil
        rw [hnil] at hfront
        cases hfront
      have hcne : ¬ some c = some close := fun heq => hne (Option.some.inj heq)
      rw [bracketed, hskip, if_neg hnil, hfront, if_neg hcne,
        each_joined h (List.cons_ne_nil a as) hrounds]
      simp

/-- Everything in a bracket was listed by its loop. -/
theorem bracketed_mem {loop : Reader β (List α)} {s rest : List β} {as : List α}
    (h : bracketed skip close loop s = some (as, rest)) :
    as = [] ∨ ∃ s' rest', loop s' = some (as, rest') := by
  unfold bracketed at h
  split at h
  · cases h
  · split at h
    · cases h
      exact .inl rfl
    · obtain ⟨r, hr, hclose⟩ := Option.bind_eq_some_iff.mp h
      split at hclose
      · cases hclose
        exact .inr ⟨_, _, hr⟩
      · cases hclose

/-- The loop gives nothing back that it was not given. -/
theorem each_le {rounds : Nat} {s rest : List β} {as : List α}
    (hskip : ∀ s, (skip s).length ≤ s.length)
    (hread : ∀ s a rest, read s = some (a, rest) → rest.length ≤ s.length)
    (h : each skip sep read rounds s = some (as, rest)) : rest.length ≤ s.length := by
  induction rounds generalizing s as with
  | zero => cases h
  | succ rounds ih =>
      obtain ⟨r, hr, hloop⟩ := Option.bind_eq_some_iff.mp h
      have hlen : (skip r.2).length ≤ s.length :=
        Nat.le_trans (hskip _) (Nat.le_trans (hread _ _ _ hr) (hskip s))
      split at hloop
      · obtain ⟨more, hmore, heq⟩ := Option.map_eq_some_iff.mp hloop
        cases heq
        have htail := List.length_tail (l := skip r.2)
        have := ih hmore
        omega
      · cases hloop
        exact hlen

/-- Nor does a bracket. -/
theorem bracketed_le {loop : Reader β (List α)} {s rest : List β} {as : List α}
    (hskip : ∀ s, (skip s).length ≤ s.length)
    (hloop : ∀ s as rest, loop s = some (as, rest) → rest.length ≤ s.length)
    (h : bracketed skip close loop s = some (as, rest)) : rest.length ≤ s.length := by
  have hs := hskip s
  unfold bracketed at h
  split at h
  · cases h
  · split at h
    · cases h
      have := List.length_tail (l := skip s)
      omega
    · obtain ⟨r, hr, hclose⟩ := Option.bind_eq_some_iff.mp h
      have hlen := hloop _ _ _ hr
      split at hclose
      · cases hclose
        have := List.length_tail (l := r.2)
        omega
      · cases hclose

end

end Listing

end X50.Lib
