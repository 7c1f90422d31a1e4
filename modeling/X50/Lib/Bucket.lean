/-
# `X50.Lib.Bucket` — a table of rows, each searched up to its first free slot

A hash table whose rows are short arrays of slots.  The row of a key is the one its hash
names, and it is searched from its front until the key or a free slot is found:

    rowGet k row        what the key has in the row
    rowPut k v row      the key's slot, or else the free one that ends the search
    rowRemove k row     the slots of the key that the search passes, freed

The search is right for a row without a gap (`Packed`).  Only removing can make one:
`Youngest k row` says that no used slot is behind that of the key, and it is exactly when
removing the key leaves the others in reach (`youngest_iff`).

`Rep` says that such a table holds a partial map.
-/
import Mathlib.Data.List.ReduceOption
import Mathlib.Data.Set.Card
import Mathlib.Logic.Function.Basic

namespace X50.Lib

variable {κ ν : Type*} [DecidableEq κ]

/-! ## The operations -/

def rowGet (k : κ) : List (Option (κ × ν)) → Option ν
  | [] => none
  | none :: _ => none
  | some e :: row => if k = e.1 then some e.2 else rowGet k row

def rowPut (k : κ) (v : ν) : List (Option (κ × ν)) → Option (List (Option (κ × ν)))
  | [] => none
  | none :: row => some (some (k, v) :: row)
  | some e :: row =>
      if k = e.1 then some (some (k, v) :: row) else (rowPut k v row).map (some e :: ·)

def rowRemove (k : κ) : List (Option (κ × ν)) → List (Option (κ × ν))
  | [] => []
  | none :: row => none :: row
  | some e :: row => (if k = e.1 then none else some e) :: rowRemove k row

variable (hash : κ → Nat)

def tableGet (rows : List (List (Option (κ × ν)))) (k : κ) : Option ν :=
  rows[hash k]?.bind (rowGet k)

def tablePut (rows : List (List (Option (κ × ν)))) (k : κ) (v : ν) :
    Option (List (List (Option (κ × ν)))) :=
  rows[hash k]?.bind fun row => (rowPut k v row).map (rows.set (hash k) ·)

def tableRemove (rows : List (List (Option (κ × ν)))) (k : κ) :
    Option (List (List (Option (κ × ν)))) :=
  rows[hash k]?.map fun row => rows.set (hash k) (rowRemove k row)

/-! ## Rows -/

/-- The keys in a row. -/
def rowKeys (row : List (Option (κ × ν))) : List κ := row.reduceOption.map (·.1)

/-- No used slot is behind a free one. -/
def Packed : List (Option (κ × ν)) → Prop
  | [] => True
  | none :: row => ∀ s ∈ row, s = none
  | some _ :: row => Packed row

/-- No used slot is behind that of the key. -/
def Youngest (k : κ) : List (Option (κ × ν)) → Prop
  | [] => True
  | none :: _ => True
  | some e :: row => if k = e.1 then ∀ s ∈ row, s = none else Youngest k row

instance decYoungest (k : κ) : ∀ row : List (Option (κ × ν)), Decidable (Youngest k row)
  | [] => isTrue trivial
  | none :: _ => isTrue trivial
  | some e :: row =>
      have : Decidable (∀ s ∈ row, s = none) :=
        decidable_of_iff (row.all Option.isNone) (by simp)
      have : Decidable (Youngest k row) := decYoungest k row
      inferInstanceAs (Decidable (if k = e.1 then ∀ s ∈ row, s = none else Youngest k row))

section Rows

variable {k k' : κ} {v : ν} {e : κ × ν} {row row' : List (Option (κ × ν))}

omit [DecidableEq κ] in
@[simp] theorem rowKeys_nil : rowKeys ([] : List (Option (κ × ν))) = [] := rfl

omit [DecidableEq κ] in
@[simp] theorem rowKeys_none : rowKeys (none :: row) = rowKeys row := by
  rw [rowKeys, List.reduceOption_cons_of_none, rowKeys]

omit [DecidableEq κ] in
@[simp] theorem rowKeys_some : rowKeys (some e :: row) = e.1 :: rowKeys row := by
  rw [rowKeys, List.reduceOption_cons_of_some, List.map_cons, rowKeys]

omit [DecidableEq κ] in
theorem rowKeys_of_free (h : ∀ s ∈ row, s = none) : rowKeys row = [] := by
  induction row with
  | nil => rfl
  | cons s row ih =>
      obtain rfl := h s List.mem_cons_self
      rw [rowKeys_none, ih fun t ht => h t (List.mem_cons_of_mem _ ht)]

omit [DecidableEq κ] in
theorem packed_of_free (h : ∀ s ∈ row, s = none) : Packed row := by
  cases row with
  | nil => trivial
  | cons s row =>
      obtain rfl := h s List.mem_cons_self
      exact fun t ht => h t (List.mem_cons_of_mem _ ht)

/-- The search finds nothing but keys of the row. -/
theorem rowGet_of_not_mem (h : k ∉ rowKeys row) : rowGet k row = none := by
  induction row with
  | nil => rfl
  | cons s row ih =>
      cases s with
      | none => rfl
      | some e =>
          rw [rowKeys_some, List.mem_cons, not_or] at h
          rw [rowGet, if_neg h.1, ih h.2]

/-- In a row without a gap it finds them all. -/
theorem rowGet_eq_none (hrow : Packed row) : rowGet k row = none ↔ k ∉ rowKeys row := by
  induction row with
  | nil => simp [rowGet]
  | cons s row ih =>
      cases s with
      | none => simp [rowGet, rowKeys_of_free hrow]
      | some e =>
          rw [rowGet, rowKeys_some, List.mem_cons]
          split
          · simp [*]
          · simp [*, ih hrow]

/-- There is no slot for a key if all are used, by others. -/
theorem rowPut_eq_none :
    rowPut k v row = none ↔ (∀ s ∈ row, s.isSome) ∧ k ∉ rowKeys row := by
  induction row with
  | nil => simp [rowPut]
  | cons s row ih =>
      cases s with
      | none => simp [rowPut]
      | some e =>
          rw [rowPut, rowKeys_some, List.mem_cons]
          split
          · simp [*]
          · simp [*, Option.map_eq_none_iff]

omit [DecidableEq κ] in
/-- A row is full when it has as many keys as slots. -/
theorem forall_isSome_iff : (∀ s ∈ row, s.isSome) ↔ row.length ≤ (rowKeys row).length := by
  induction row with
  | nil => simp
  | cons s row ih =>
      have hle : (rowKeys row).length ≤ row.length := by
        rw [rowKeys, List.length_map]
        exact List.reduceOption_length_le row
      cases s with
      | none =>
          simp only [List.forall_mem_cons, Option.isSome_none, rowKeys_none, List.length_cons]
          constructor
          · rintro ⟨h, -⟩
            cases h
          · intro h
            omega
      | some e => simp [ih]

/-- A key that is stored is put behind the others, if it is not there. -/
theorem rowKeys_rowPut (hrow : Packed row) (h : rowPut k v row = some row') :
    rowKeys row' = if k ∈ rowKeys row then rowKeys row else rowKeys row ++ [k] := by
  induction row generalizing row' with
  | nil => cases h
  | cons s row ih =>
      cases s with
      | none =>
          obtain rfl := Option.some.inj h
          simp [rowKeys_of_free hrow]
      | some e =>
          rw [rowPut] at h
          split at h
          · rename_i hk
            obtain rfl := Option.some.inj h
            simp [hk]
          · rename_i hk
            obtain ⟨rest, hrest, rfl⟩ := Option.map_eq_some_iff.mp h
            rw [rowKeys_some, rowKeys_some, ih hrow hrest]
            by_cases hmem : k ∈ rowKeys row <;> simp [hk, hmem]

theorem length_rowPut (h : rowPut k v row = some row') : row'.length = row.length := by
  induction row generalizing row' with
  | nil => cases h
  | cons s row ih =>
      cases s with
      | none =>
          obtain rfl := Option.some.inj h
          rfl
      | some e =>
          rw [rowPut] at h
          split at h
          · obtain rfl := Option.some.inj h
            rfl
          · obtain ⟨rest, hrest, rfl⟩ := Option.map_eq_some_iff.mp h
            rw [List.length_cons, List.length_cons, ih hrest]

theorem packed_rowPut (hrow : Packed row) (h : rowPut k v row = some row') : Packed row' := by
  induction row generalizing row' with
  | nil => cases h
  | cons s row ih =>
      cases s with
      | none =>
          obtain rfl := Option.some.inj h
          show Packed row
          exact packed_of_free hrow
      | some e =>
          rw [rowPut] at h
          split at h
          · obtain rfl := Option.some.inj h
            exact hrow
          · obtain ⟨rest, hrest, rfl⟩ := Option.map_eq_some_iff.mp h
            show Packed rest
            exact ih hrow hrest

theorem rowGet_of_free (h : ∀ s ∈ row, s = none) : rowGet k row = none :=
  rowGet_of_not_mem (by simp [rowKeys_of_free h])

theorem rowGet_rowPut (hrow : Packed row) (h : rowPut k v row = some row') :
    rowGet k' row' = if k' = k then some v else rowGet k' row := by
  induction row generalizing row' with
  | nil => cases h
  | cons s row ih =>
      cases s with
      | none =>
          obtain rfl := Option.some.inj h
          show (if k' = k then some v else rowGet k' row) = if k' = k then some v else none
          rw [rowGet_of_free hrow]
      | some e =>
          rw [rowPut] at h
          split at h
          · rename_i hk
            obtain rfl := Option.some.inj h
            rw [rowGet, rowGet, ← hk]
            split <;> rfl
          · rename_i hk
            obtain ⟨rest, hrest, rfl⟩ := Option.map_eq_some_iff.mp h
            rw [rowGet, rowGet, ih hrow hrest]
            by_cases hke : k' = e.1
            · rw [if_pos hke, if_pos hke, if_neg (hke ▸ Ne.symm hk)]
            · rw [if_neg hke, if_neg hke]

/-! ### Removing -/

theorem length_rowRemove : (rowRemove k row).length = row.length := by
  induction row with
  | nil => rfl
  | cons s row ih =>
      cases s with
      | none => rfl
      | some e => rw [rowRemove, List.length_cons, List.length_cons, ih]

/-- The search for a key stops at its own slot, and that is freed. -/
theorem rowGet_rowRemove_self : rowGet k (rowRemove k row) = none := by
  induction row with
  | nil => rfl
  | cons s row ih =>
      cases s with
      | none => rfl
      | some e =>
          rw [rowRemove]
          split
          · rfl
          · rename_i hk
            rw [rowGet, if_neg hk, ih]

theorem rowRemove_of_free (h : ∀ s ∈ row, s = none) : rowRemove k row = row := by
  cases row with
  | nil => rfl
  | cons s row =>
      obtain rfl := h s List.mem_cons_self
      rfl

theorem packed_rowRemove (hrow : Packed row) (hk : Youngest k row) : Packed (rowRemove k row) := by
  induction row with
  | nil => trivial
  | cons s row ih =>
      cases s with
      | none => exact hrow
      | some e =>
          rw [Youngest] at hk
          rw [rowRemove]
          split at hk
          · rw [if_pos ‹_›, rowRemove_of_free hk]
            exact hk
          · rw [if_neg ‹_›]
            exact ih hrow hk

theorem rowKeys_rowRemove (hn : (rowKeys row).Nodup) (hrow : Packed row) :
    rowKeys (rowRemove k row) = (rowKeys row).erase k := by
  induction row with
  | nil => rfl
  | cons s row ih =>
      cases s with
      | none => simp [rowRemove, rowKeys_of_free hrow]
      | some e =>
          rw [rowKeys_some] at hn ⊢
          obtain ⟨hnot, hn⟩ := List.nodup_cons.mp hn
          rw [rowRemove]
          split
          · rename_i hk
            rw [rowKeys_none, ih hn hrow, ← hk, List.erase_cons_head,
              List.erase_of_not_mem (hk ▸ hnot)]
          · rename_i hk
            rw [rowKeys_some, ih hn hrow, List.erase_cons_tail (by simpa using Ne.symm hk)]

theorem rowGet_rowRemove (hk : Youngest k row) (hne : k' ≠ k) :
    rowGet k' (rowRemove k row) = rowGet k' row := by
  induction row with
  | nil => rfl
  | cons s row ih =>
      cases s with
      | none => rfl
      | some e =>
          rw [Youngest] at hk
          rw [rowRemove]
          split at hk
          · rename_i hke
            rw [if_pos hke, rowGet, rowGet, if_neg (hke ▸ hne), rowGet_of_free hk]
          · rename_i hke
            rw [if_neg hke, rowGet, rowGet, ih hk]

/-- **The gap.**  Removing a key leaves the others in reach if and only if it is the
youngest of its row. -/
theorem youngest_iff (hrow : Packed row) (hn : (rowKeys row).Nodup) :
    Youngest k row ↔ ∀ k', k' ≠ k → rowGet k' (rowRemove k row) = rowGet k' row := by
  constructor
  · intro hk k' hne
    exact rowGet_rowRemove hk hne
  · intro h
    induction row with
    | nil => trivial
    | cons s row ih =>
        cases s with
        | none => trivial
        | some e =>
            rw [rowKeys_some] at hn
            obtain ⟨hnot, hn⟩ := List.nodup_cons.mp hn
            rw [Youngest]
            split
            · rename_i hk
              -- the slot behind is the first to be out of reach
              cases row with
              | nil => exact fun _ hs => absurd hs List.not_mem_nil
              | cons s row =>
                  cases s with
                  | none =>
                      intro t ht
                      rcases List.mem_cons.mp ht with rfl | ht
                      · rfl
                      · exact hrow t ht
                  | some e' =>
                      have hne : e'.1 ≠ k := fun he => hnot (by simp [← hk, ← he])
                      have hlost := h e'.1 hne
                      rw [rowRemove, if_pos hk, rowGet, rowGet, if_neg (hk ▸ hne), rowGet,
                        if_pos rfl] at hlost
                      cases hlost
            · rename_i hk
              refine ih hrow hn fun k' hne => ?_
              by_cases hke : k' = e.1
              · have hnot' : k' ∉ rowKeys row := hke ▸ hnot
                have hgone : k' ∉ rowKeys (rowRemove k row) := by
                  rw [rowKeys_rowRemove hn hrow]
                  exact fun hmem => hnot' (List.mem_of_mem_erase hmem)
                rw [rowGet_of_not_mem hnot', rowGet_of_not_mem hgone]
              · have h' := h k' hne
                rw [rowRemove, if_neg hk, rowGet, rowGet, if_neg hke, if_neg hke] at h'
                exact h'

end Rows

/-! ## Tables -/

/-- The table holds the partial map `m`. -/
structure Rep (width : Nat) (rows : List (List (Option (κ × ν)))) (m : κ → Option ν) : Prop where
  length : ∀ row ∈ rows, row.length = width
  packed : ∀ row ∈ rows, Packed row
  nodup : ∀ row ∈ rows, (rowKeys row).Nodup
  home : ∀ i row, rows[i]? = some row → ∀ k ∈ rowKeys row, hash k = i
  get : ∀ k, m k = tableGet hash rows k

/-- A key has a place: the one it has, or one of the `width` that the keys of its row, one of
the first `n`, share. -/
def Fits (n width : Nat) (m : κ → Option ν) (k : κ) : Prop :=
  hash k < n ∧ (m k ≠ none ∨ {k' | hash k' = hash k ∧ m k' ≠ none}.ncard < width)

section Tables

variable {hash} {width : Nat} {rows rows' : List (List (Option (κ × ν)))} {m m' : κ → Option ν}
  {k : κ} {v : ν} {row row' : List (Option (κ × ν))}

theorem tableGet_set (hrow : rows[hash k]? = some row) (k' : κ) :
    tableGet hash (rows.set (hash k) row') k' =
      if hash k' = hash k then rowGet k' row' else tableGet hash rows k' := by
  have hlt : hash k < rows.length := (List.getElem?_eq_some_iff.mp hrow).1
  rw [tableGet, List.getElem?_set]
  by_cases h : hash k' = hash k
  · rw [if_pos h, if_pos h.symm, if_pos (h ▸ hlt)]
    rfl
  · rw [if_neg h, if_neg (Ne.symm h), tableGet]

/-- The keys of a row are those of the map that belong there. -/
theorem Rep.keys (h : Rep hash width rows m) (hrow : rows[hash k]? = some row) (k' : κ) :
    hash k' = hash k ∧ m k' ≠ none ↔ k' ∈ rowKeys row := by
  have hmem := List.mem_of_getElem? hrow
  constructor
  · rintro ⟨hk', hm⟩
    rw [h.get, tableGet, hk', hrow, Option.bind_some, Ne, rowGet_eq_none (h.packed row hmem),
      not_not] at hm
    exact hm
  · intro hk'
    have hhome := h.home _ row hrow k' hk'
    refine ⟨hhome, ?_⟩
    rw [h.get, tableGet, hhome, hrow, Option.bind_some, Ne, rowGet_eq_none (h.packed row hmem),
      not_not]
    exact hk'

theorem Rep.ncard (h : Rep hash width rows m) (hrow : rows[hash k]? = some row) :
    {k' | hash k' = hash k ∧ m k' ≠ none}.ncard = (rowKeys row).length := by
  have hset : {k' | hash k' = hash k ∧ m k' ≠ none} = ((rowKeys row).toFinset : Set κ) := by
    ext k'
    rw [List.coe_toFinset]
    exact h.keys hrow k'
  rw [hset, Set.ncard_coe_finset,
    List.toFinset_card_of_nodup (h.nodup row (List.mem_of_getElem? hrow))]

/-- One row is replaced, and the map changes as it does. -/
theorem Rep.set (h : Rep hash width rows m) (hrow : rows[hash k]? = some row)
    (hlength : row'.length = row.length) (hpacked : Packed row') (hnodup : (rowKeys row').Nodup)
    (hhome : ∀ k' ∈ rowKeys row', hash k' = hash k)
    (hget : ∀ k', m' k' = if hash k' = hash k then rowGet k' row' else m k') :
    Rep hash width (rows.set (hash k) row') m' := by
  have hmem := List.mem_of_getElem? hrow
  refine ⟨?_, ?_, ?_, ?_, fun k' => ?_⟩
  · intro r hr
    rcases List.mem_or_eq_of_mem_set hr with hr | rfl
    · exact h.length r hr
    · rw [hlength, h.length row hmem]
  · intro r hr
    rcases List.mem_or_eq_of_mem_set hr with hr | rfl
    · exact h.packed r hr
    · exact hpacked
  · intro r hr
    rcases List.mem_or_eq_of_mem_set hr with hr | rfl
    · exact h.nodup r hr
    · exact hnodup
  · intro i r hr k' hk'
    rw [List.getElem?_set] at hr
    split at hr
    · rename_i hi
      split at hr
      · obtain rfl := Option.some.inj hr
        rw [← hi]
        exact hhome k' hk'
      · cases hr
    · exact h.home i r hr k' hk'
  · rw [hget, tableGet_set hrow, h.get]

/-- Storing goes through if the key has a place. -/
theorem Rep.put_isSome (h : Rep hash width rows m) :
    (tablePut hash rows k v).isSome ↔ Fits hash rows.length width m k := by
  have hlt : hash k < rows.length ↔ rows[hash k]? ≠ none := by
    rw [Ne, List.getElem?_eq_none_iff, Nat.not_le]
  rw [Fits, hlt]
  cases hrow : rows[hash k]? with
  | none => simp [tablePut, hrow]
  | some row =>
      have hmem := List.mem_of_getElem? hrow
      have hnone : rowPut k v row = none ↔ _ := rowPut_eq_none
      rw [forall_isSome_iff, h.length row hmem] at hnone
      have hk := h.keys hrow k
      rw [tablePut, hrow, Option.bind_some, Option.isSome_map, h.ncard hrow,
        ← Option.ne_none_iff_isSome, Ne, hnone, ← hk]
      simp only [ne_eq, reduceCtorEq, not_false_eq_true, true_and]
      constructor
      · intro hfits
        by_cases hm : m k ≠ none
        · exact Or.inl hm
        · exact Or.inr (by by_contra hle; exact hfits ⟨by omega, fun hm' => hm hm'⟩)
      · rintro (hm | hlt) ⟨hle, hnot⟩
        · exact hnot hm
        · omega

/-- And then the map has the value. -/
theorem Rep.put (h : Rep hash width rows m) (hput : tablePut hash rows k v = some rows') :
    Rep hash width rows' (Function.update m k (some v)) ∧ rows'.length = rows.length := by
  obtain ⟨row, hrow, hput⟩ := Option.bind_eq_some_iff.mp hput
  obtain ⟨row', hrow', rfl⟩ := Option.map_eq_some_iff.mp hput
  have hmem := List.mem_of_getElem? hrow
  have hpacked := h.packed row hmem
  have hkeys := rowKeys_rowPut hpacked hrow'
  refine ⟨h.set hrow (length_rowPut hrow') (packed_rowPut hpacked hrow') ?_ ?_ ?_,
    List.length_set⟩
  · rw [hkeys]
    split
    · exact h.nodup row hmem
    · rename_i hk
      refine List.nodup_append.mpr ⟨h.nodup row hmem, List.nodup_singleton _, ?_⟩
      intro a ha b hb hab
      obtain rfl := List.mem_singleton.mp hb
      exact hk (hab ▸ ha)
  · intro k' hk'
    rw [hkeys] at hk'
    split at hk'
    · exact h.home _ row hrow k' hk'
    · rcases List.mem_append.mp hk' with hk' | hk'
      · exact h.home _ row hrow k' hk'
      · rw [List.mem_singleton.mp hk']
  · intro k'
    rw [rowGet_rowPut hpacked hrow', Function.update_apply]
    by_cases hk : k' = k
    · rw [if_pos hk, if_pos (congrArg hash hk), if_pos hk]
    · rw [if_neg hk, if_neg hk]
      split
      · rename_i hhash
        rw [h.get, tableGet, hhash, hrow, Option.bind_some]
      · rfl

/-- **Removing.**  The map loses the key and nothing else if and only if the key is the
youngest of its row. -/
theorem Rep.remove_iff (h : Rep hash width rows m) (hrow : rows[hash k]? = some row) :
    (∀ k', Function.update m k none k' = tableGet hash (rows.set (hash k) (rowRemove k row)) k') ↔
      Youngest k row := by
  have hmem := List.mem_of_getElem? hrow
  rw [youngest_iff (h.packed row hmem) (h.nodup row hmem)]
  constructor
  · intro hget k' hne
    have h' := hget k'
    rw [Function.update_of_ne hne, tableGet_set hrow, h.get, tableGet] at h'
    by_cases hhash : hash k' = hash k
    · rw [if_pos hhash, hhash, hrow, Option.bind_some] at h'
      exact h'.symm
    · have hnot : k' ∉ rowKeys row := fun hk' => hhash (h.home _ row hrow k' hk')
      have hgone : k' ∉ rowKeys (rowRemove k row) := by
        rw [rowKeys_rowRemove (h.nodup row hmem) (h.packed row hmem)]
        exact fun hk' => hnot (List.mem_of_mem_erase hk')
      rw [rowGet_of_not_mem hnot, rowGet_of_not_mem hgone]
  · intro hrest k'
    rw [tableGet_set hrow, Function.update_apply]
    by_cases hk : k' = k
    · subst hk
      rw [if_pos rfl, if_pos rfl, rowGet_rowRemove_self]
    · rw [if_neg hk, h.get, tableGet]
      split
      · rename_i hhash
        rw [hhash, hrow, Option.bind_some, hrest k' hk]
      · rfl

theorem Rep.remove (h : Rep hash width rows m) (hrow : rows[hash k]? = some row)
    (hk : Youngest k row) :
    Rep hash width (rows.set (hash k) (rowRemove k row)) (Function.update m k none) := by
  have hmem := List.mem_of_getElem? hrow
  have hkeys := rowKeys_rowRemove (k := k) (h.nodup row hmem) (h.packed row hmem)
  refine h.set hrow length_rowRemove (packed_rowRemove (h.packed row hmem) hk) ?_ ?_ fun k' => ?_
  · rw [hkeys]
    exact (h.nodup row hmem).erase k
  · intro k' hk'
    rw [hkeys] at hk'
    exact h.home _ row hrow k' (List.mem_of_mem_erase hk')
  · rw [(h.remove_iff hrow).mpr hk k', tableGet_set hrow, h.get]

/-- A key that has a value has a place. -/
theorem Rep.fits (h : Rep hash width rows m) (hm : m k ≠ none) :
    Fits hash rows.length width m k := by
  refine ⟨?_, Or.inl hm⟩
  by_contra hlt
  rw [h.get, tableGet, List.getElem?_eq_none (Nat.not_lt.mp hlt), Option.bind_none] at hm
  exact hm rfl

/-- Places do not come back when another key is stored. -/
theorem Rep.fits_of_update {k' : κ} (h : Rep hash width rows (Function.update m k (some v)))
    (hne : k' ≠ k) (hfits : Fits hash rows.length width (Function.update m k (some v)) k') :
    Fits hash rows.length width m k' := by
  obtain ⟨hlt, hplace⟩ := hfits
  refine ⟨hlt, ?_⟩
  rw [Function.update_of_ne hne] at hplace
  refine hplace.imp_right fun hcard => ?_
  have hrow : rows[hash k']? = some rows[hash k'] := List.getElem?_eq_getElem hlt
  have hfinite : {j | hash j = hash k' ∧ Function.update m k (some v) j ≠ none}.Finite := by
    refine (List.finite_toSet (rowKeys rows[hash k'])).subset fun j hj => ?_
    exact (h.keys hrow j).mp hj
  refine lt_of_le_of_lt (Set.ncard_le_ncard ?_ hfinite) hcard
  rintro j ⟨hj, hmj⟩
  refine ⟨hj, ?_⟩
  rw [Function.update_apply]
  split
  · exact Option.some_ne_none v
  · exact hmj

end Tables

end X50.Lib
