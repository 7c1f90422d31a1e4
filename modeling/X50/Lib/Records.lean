/-
# `X50.Lib.Records` — lists of keyed records, and two stores that agree

A store is a list of records with a key.  Three operations address a record by
its key (`updateAt`, `updateFirst`, `deleteAt`); they are what
`UPDATE … WHERE`, a searching loop with a `break` and `DELETE … WHERE` do.

`AgreeUpTo f l m`: the stores `l` and `m` hold the same records up to order, as
far as the observation `f` can see.  With `f = id` they hold the same records.
An operation applied to both sides keeps the agreement as soon as what it does
to a record is visible through `f` (Mathlib's `Function.FactorsThrough`).
-/
import Mathlib.Data.List.Nodup
import Mathlib.Data.List.Pairwise
import Mathlib.Data.List.Perm.Basic
import Mathlib.Logic.Function.Basic

namespace X50.Lib

section Keyed

variable {α κ : Type*} [DecidableEq κ] (key : α → κ)

/-- Apply `u` to every record with key `k`. -/
def updateAt (k : κ) (u : α → α) (l : List α) : List α :=
  l.map fun r => if key r = k then u r else r

/-- Apply `u` to the first record with key `k`. -/
def updateFirst (k : κ) (u : α → α) : List α → List α
  | [] => []
  | r :: rs => if key r = k then u r :: rs else r :: updateFirst k u rs

/-- Remove every record with key `k`. -/
def deleteAt (k : κ) (l : List α) : List α :=
  l.filter fun r => decide (key r ≠ k)

variable {key} {k : κ} {u : α → α} {l : List α}

theorem mem_deleteAt {r : α} : r ∈ deleteAt key k l ↔ r ∈ l ∧ key r ≠ k := by
  simp [deleteAt]

theorem mem_updateAt {r : α} :
    r ∈ updateAt key k u l ↔ ∃ s ∈ l, (if key s = k then u s else s) = r := by
  simp [updateAt]

theorem mem_updateFirst {r : α} (hr : r ∈ updateFirst key k u l) : r ∈ l ∨ ∃ q ∈ l, r = u q := by
  induction l with
  | nil => cases hr
  | cons q qs ih =>
      simp only [updateFirst] at hr
      split at hr
      · rcases List.mem_cons.mp hr with rfl | hr
        · exact Or.inr ⟨q, List.mem_cons_self, rfl⟩
        · exact Or.inl (List.mem_cons_of_mem _ hr)
      · rcases List.mem_cons.mp hr with rfl | hr
        · exact Or.inl List.mem_cons_self
        · rcases ih hr with hr | ⟨p, hp, rfl⟩
          · exact Or.inl (List.mem_cons_of_mem _ hr)
          · exact Or.inr ⟨p, List.mem_cons_of_mem _ hp, rfl⟩

/-- Deleting at one key after the other. -/
theorem foldl_deleteAt (ks : List κ) (l : List α) :
    ks.foldl (fun l k => deleteAt key k l) l = l.filter fun r => decide (key r ∉ ks) := by
  induction ks generalizing l with
  | nil => simp
  | cons k ks ih =>
      rw [List.foldl_cons, ih, deleteAt, List.filter_filter]
      refine List.filter_congr fun r _ => ?_
      simp [Bool.and_comm]

theorem length_deleteAt_lt {r : α} (hr : r ∈ l) :
    (deleteAt key (key r) l).length < l.length := by
  rw [deleteAt, List.length_filter_lt_length_iff_exists]
  exact ⟨r, hr, by simp⟩

/-- An update, seen through an observation that knows the key. -/
theorem map_updateAt {β : Type*} {g : α → β} {key' : β → κ} {v : β → β}
    (hkey : ∀ r, key' (g r) = key r) (hu : ∀ r, g (u r) = v (g r)) :
    (updateAt key k u l).map g = updateAt key' k v (l.map g) := by
  simp only [updateAt, List.map_map]
  refine List.map_congr_left fun r _ => ?_
  simp only [Function.comp_apply, hkey]
  split
  · exact hu r
  · rfl

theorem deleteAt_sublist : (deleteAt key k l).Sublist l := List.filter_sublist

theorem updateAt_of_forall_ne (h : ∀ r ∈ l, key r ≠ k) : updateAt key k u l = l := by
  unfold updateAt
  calc l.map (fun r => if key r = k then u r else r) = l.map id :=
        List.map_congr_left fun r hr => by simp [h r hr]
    _ = l := List.map_id l

/-- Two updates of the same record are one. -/
theorem updateAt_updateAt {v : α → α} (hv : ∀ r, key (v r) = key r) :
    updateAt key k u (updateAt key k v l) = updateAt key k (fun r => u (v r)) l := by
  simp only [updateAt, List.map_map]
  refine List.map_congr_left fun r _ => ?_
  by_cases h : key r = k
  · simp [h, hv]
  · simp [h]

theorem updateAt_self : updateAt key k (fun r => r) l = l := by
  simp [updateAt]

theorem deleteAt_of_forall_ne (h : ∀ r ∈ l, key r ≠ k) : deleteAt key k l = l :=
  List.filter_eq_self.mpr fun r hr => by simpa using h r hr

/-- With distinct keys the first match is the only one. -/
theorem updateFirst_eq_updateAt (hn : (l.map key).Nodup) :
    updateFirst key k u l = updateAt key k u l := by
  induction l with
  | nil => rfl
  | cons r rs ih =>
      obtain ⟨hr, hrs⟩ := List.nodup_cons.mp hn
      by_cases hk : key r = k
      · have hne : ∀ s ∈ rs, key s ≠ k := fun s hs hsk =>
          hr (List.mem_map.mpr ⟨s, hs, hsk.trans hk.symm⟩)
        have htail : updateAt key k u rs = rs := updateAt_of_forall_ne hne
        simp only [updateAt] at htail
        simp only [updateFirst, updateAt, List.map_cons, if_pos hk, htail]
      · have htail := ih hrs
        simp only [updateAt] at htail
        simp only [updateFirst, updateAt, List.map_cons, if_neg hk, htail]

/-- An update that does not move the column `g` leaves it as it was. -/
theorem map_updateAt_of_eq {β : Type*} {g : α → β} (h : ∀ r, g (u r) = g r) :
    (updateAt key k u l).map g = l.map g := by
  simp only [updateAt, List.map_map]
  refine List.map_congr_left fun r _ => ?_
  simp only [Function.comp_apply]
  split
  · exact h r
  · rfl

/-- A column that the update sets to a value no other record has stays
duplicate-free. -/
theorem nodup_map_updateAt {β : Type*} {g : α → β} {v : β} (hkeys : (l.map key).Nodup)
    (hn : (l.map g).Nodup) (hu : ∀ r, g (u r) = v)
    (hv : ∀ r ∈ l, key r ≠ k → g r ≠ v) : ((updateAt key k u l).map g).Nodup := by
  induction l with
  | nil => exact List.nodup_nil
  | cons r rs ih =>
      obtain ⟨hr, hrs⟩ := List.nodup_cons.mp hn
      obtain ⟨hkr, hkrs⟩ := List.nodup_cons.mp hkeys
      have hv' : ∀ s ∈ rs, key s ≠ k → g s ≠ v := fun s hs =>
        hv s (List.mem_cons_of_mem _ hs)
      refine List.nodup_cons.mpr ⟨?_, ih hkrs hrs hv'⟩
      intro hmem
      obtain ⟨t, ht, hgt⟩ := List.mem_map.mp hmem
      obtain ⟨s, hs, rfl⟩ := mem_updateAt.mp ht
      by_cases hk : key r = k
      · -- then `s` is another record and keeps its own value
        have hsk : key s ≠ k := fun h =>
          hkr (List.mem_map.mpr ⟨s, hs, h.trans hk.symm⟩)
        simp only [if_pos hk, if_neg hsk, hu] at hgt
        exact hv' s hs hsk hgt
      · by_cases hsk : key s = k
        · simp only [if_neg hk, if_pos hsk, hu] at hgt
          exact hv r List.mem_cons_self hk hgt.symm
        · simp only [if_neg hk, if_neg hsk] at hgt
          exact hr (List.mem_map.mpr ⟨s, hs, hgt⟩)

theorem nodup_map_deleteAt {β : Type*} {g : α → β} (h : (l.map g).Nodup) :
    ((deleteAt key k l).map g).Nodup :=
  h.sublist (deleteAt_sublist.map g)

/-- The record with a key, and what the three operations do around it. -/
theorem exists_perm_cons {r : α} (hn : (l.map key).Nodup) (hr : r ∈ l) :
    ∃ rest, l.Perm (r :: rest) ∧ (∀ q ∈ rest, key q ≠ key r) ∧
      deleteAt key (key r) l = rest ∧
      ∀ u : α → α, (updateAt key (key r) u l).Perm (u r :: rest) := by
  obtain ⟨pre, post, rfl⟩ := List.append_of_mem hr
  have hperm : (pre ++ r :: post).Perm (r :: (pre ++ post)) := List.perm_middle
  have hne : ∀ q ∈ pre ++ post, key q ≠ key r := by
    have hn' := (List.Perm.nodup_iff (hperm.map key)).mp hn
    intro q hq hqr
    exact (List.nodup_cons.mp hn').1 (List.mem_map.mpr ⟨q, hq, hqr⟩)
  have hpre : ∀ q ∈ pre, key q ≠ key r := fun q hq => hne q (List.mem_append_left _ hq)
  have hpost : ∀ q ∈ post, key q ≠ key r := fun q hq => hne q (List.mem_append_right _ hq)
  refine ⟨pre ++ post, hperm, hne, ?_, fun u => ?_⟩
  · calc deleteAt key (key r) (pre ++ r :: post)
        = deleteAt key (key r) pre ++ deleteAt key (key r) post := by simp [deleteAt]
      _ = pre ++ post := by rw [deleteAt_of_forall_ne hpre, deleteAt_of_forall_ne hpost]
  · have hsplit : updateAt key (key r) u (pre ++ r :: post) =
        updateAt key (key r) u pre ++ u r :: updateAt key (key r) u post := by
      simp [updateAt]
    rw [hsplit, updateAt_of_forall_ne hpre, updateAt_of_forall_ne hpost]
    exact List.perm_middle

theorem countP_deleteAt_le (p : α → Bool) : (deleteAt key k l).countP p ≤ l.countP p :=
  deleteAt_sublist.countP_le

/-- Deleting a record leaves fewer records of its class. -/
theorem countP_deleteAt_lt {p : α → Bool} {r : α} (hn : (l.map key).Nodup) (hr : r ∈ l)
    (hp : p r = true) : (deleteAt key (key r) l).countP p < l.countP p := by
  obtain ⟨rest, hperm, -, hdel, -⟩ := exists_perm_cons hn hr
  rw [hdel, hperm.countP_eq p, List.countP_cons_of_pos hp]
  exact Nat.lt_succ_self _

/-- Of the outputs of all records, those of one record, where every output
carries the key of its record. -/
theorem filter_flatMap_key {β : Type*} {f : α → List β} {out : β → κ}
    (hout : ∀ r, ∀ b ∈ f r, out b = key r) (hn : (l.map key).Nodup) {r : α} (hr : r ∈ l) :
    (l.flatMap f).filter (fun b => out b == key r) = f r := by
  have hself : ∀ r, (f r).filter (fun b => out b == key r) = f r := fun r =>
    List.filter_eq_self.mpr fun b hb => by simp [hout r b hb]
  have hother : ∀ r s, key s ≠ key r → (f s).filter (fun b => out b == key r) = [] := fun r s hne =>
    List.filter_eq_nil_iff.mpr fun b hb => by simpa [hout s b hb] using hne
  induction l with
  | nil => cases hr
  | cons s rs ih =>
      obtain ⟨hs, hrs⟩ := List.nodup_cons.mp hn
      rw [List.flatMap_cons, List.filter_append]
      rcases List.mem_cons.mp hr with rfl | hr'
      · have hrest : (rs.flatMap f).filter (fun b => out b == key r) = [] := by
          refine List.filter_eq_nil_iff.mpr fun b hb hkey => ?_
          obtain ⟨t, ht, hbt⟩ := List.mem_flatMap.mp hb
          have hkt : key t = key r := (hout t b hbt).symm.trans (by simpa using hkey)
          exact hs (hkt ▸ List.mem_map_of_mem ht)
        rw [hself, hrest, List.append_nil]
      · have hne : key s ≠ key r := fun h => hs (h ▸ List.mem_map_of_mem hr')
        rw [hother r s hne, ih hrs hr', List.nil_append]

/-- No record of a key, no output. -/
theorem filter_flatMap_key_nil {β : Type*} {f : α → List β} {out : β → κ}
    (hout : ∀ r, ∀ b ∈ f r, out b = key r) (h : ∀ r ∈ l, key r ≠ k) :
    (l.flatMap f).filter (fun b => out b == k) = [] := by
  refine List.filter_eq_nil_iff.mpr fun b hb hkey => ?_
  obtain ⟨r, hr, hbr⟩ := List.mem_flatMap.mp hb
  exact h r hr ((hout r b hbr).symm.trans (by simpa using hkey))

/-! ## Storing over the same key -/

variable (key) in
/-- The record is stored last, and those that had its key are gone. -/
def upsert (l : List α) (r : α) : List α := deleteAt key (key r) l ++ [r]

theorem pwFilter_concat (l : List α) (r : α) :
    (l ++ [r]).pwFilter (fun a b => key a ≠ key b) =
      upsert key (l.pwFilter fun a b => key a ≠ key b) r := by
  induction l with
  | nil => rfl
  | cons a l ih =>
      have hlast : ∀ m : List α, (∀ b ∈ upsert key m r, key a ≠ key b) ↔
          key a ≠ key r ∧ ∀ b ∈ m, key a ≠ key b := by
        intro m
        simp only [upsert, List.mem_append, mem_deleteAt, List.mem_singleton]
        constructor
        · intro h
          refine ⟨h r (Or.inr rfl), fun b hb hab => ?_⟩
          by_cases hbr : key b = key r
          · exact h r (Or.inr rfl) (hab.trans hbr)
          · exact h b (Or.inl ⟨hb, hbr⟩) hab
        · rintro ⟨hr, h⟩ b (hb | rfl)
          · exact h b hb.1
          · exact hr
      rw [List.cons_append]
      by_cases har : key a = key r
      · rw [List.pwFilter_cons_of_neg (by rw [ih, hlast]; exact fun h => h.1 har), ih]
        by_cases h : ∀ b ∈ l.pwFilter (fun a b => key a ≠ key b), key a ≠ key b
        · rw [List.pwFilter_cons_of_pos h]
          simp [upsert, deleteAt, har]
        · rw [List.pwFilter_cons_of_neg h]
      · by_cases h : ∀ b ∈ l.pwFilter (fun a b => key a ≠ key b), key a ≠ key b
        · rw [List.pwFilter_cons_of_pos (by rw [ih, hlast]; exact ⟨har, h⟩), ih,
            List.pwFilter_cons_of_pos h]
          simp [upsert, deleteAt, har]
        · rw [List.pwFilter_cons_of_neg (by rw [ih, hlast]; exact fun h' => h h'.2), ih,
            List.pwFilter_cons_of_neg h]

end Keyed

/-! ## Agreement of two stores -/

section Agree

variable {α β γ : Type*} {f : α → β} {l m : List α}

/-- `l` and `m` hold the same records, as far as `f` can see. -/
def AgreeUpTo (f : α → β) (l m : List α) : Prop := (l.map f).Perm (m.map f)

theorem agreeUpTo_id : AgreeUpTo (fun r : α => r) l m ↔ l.Perm m := by
  simp [AgreeUpTo]

theorem AgreeUpTo.symm (h : AgreeUpTo f l m) : AgreeUpTo f m l := List.Perm.symm h

theorem AgreeUpTo.of_perm (h : l.Perm m) : AgreeUpTo f l m := h.map f

theorem AgreeUpTo.perm_left {l' : List α} (hp : l'.Perm l) (h : AgreeUpTo f l m) :
    AgreeUpTo f l' m :=
  (hp.map f).trans h

/-- A coarser observation sees an agreement too. -/
theorem AgreeUpTo.coarser [Nonempty γ] {g : α → γ} (hg : g.FactorsThrough f)
    (h : AgreeUpTo f l m) : AgreeUpTo g l m := by
  obtain ⟨c⟩ := ‹Nonempty γ›
  have hg' : ∀ k : List α, k.map g = (k.map f).map (Function.extend f g fun _ => c) := by
    intro k
    rw [List.map_map]
    exact List.map_congr_left fun r _ => (hg.extend_apply _ r).symm
  simpa only [AgreeUpTo, hg'] using List.Perm.map _ h

theorem AgreeUpTo.map [Nonempty β] {u : α → α} (hu : (f ∘ u).FactorsThrough f)
    (h : AgreeUpTo f l m) : AgreeUpTo f (l.map u) (m.map u) := by
  have hfu := h.coarser hu
  simpa only [AgreeUpTo, List.map_map] using hfu

theorem AgreeUpTo.updateAt [Nonempty β] {κ : Type*} [DecidableEq κ] {key : α → κ} {k : κ}
    {u : α → α} (hkey : key.FactorsThrough f) (hu : (f ∘ u).FactorsThrough f)
    (h : AgreeUpTo f l m) : AgreeUpTo f (updateAt key k u l) (updateAt key k u m) := by
  refine h.map fun r s hrs => ?_
  simp only [Function.comp_apply, hkey hrs]
  split
  · exact hu hrs
  · exact hrs

theorem AgreeUpTo.filter {p : α → Bool} (hp : p.FactorsThrough f) (h : AgreeUpTo f l m) :
    AgreeUpTo f (l.filter p) (m.filter p) := by
  have hp' : p = (Function.extend f p fun _ => false) ∘ f := by
    funext r
    exact (hp.extend_apply _ r).symm
  rw [hp']
  simpa only [AgreeUpTo, List.filter_map] using List.Perm.filter _ h

theorem AgreeUpTo.deleteAt {κ : Type*} [DecidableEq κ] {key : α → κ} {k : κ}
    (hkey : key.FactorsThrough f) (h : AgreeUpTo f l m) :
    AgreeUpTo f (deleteAt key k l) (deleteAt key k m) :=
  h.filter fun r s hrs => by simp only [hkey hrs]

theorem AgreeUpTo.countP {p : α → Bool} (hp : p.FactorsThrough f) (h : AgreeUpTo f l m) :
    l.countP p = m.countP p := by
  have := List.Perm.length_eq (h.filter hp)
  simpa only [List.length_map, ← List.countP_eq_length_filter] using this

theorem AgreeUpTo.length_eq (h : AgreeUpTo f l m) : l.length = m.length := by
  simpa only [List.length_map] using List.Perm.length_eq h

/-- The new record goes to the front of one store and to the end of the other. -/
theorem AgreeUpTo.cons_concat {x : α} (h : AgreeUpTo f l m) :
    AgreeUpTo f (x :: l) (m ++ [x]) := by
  simp only [AgreeUpTo, List.map_cons, List.map_append, List.map_nil]
  exact (List.Perm.cons _ h).trans (List.perm_append_singleton _ _).symm

theorem AgreeUpTo.exists_mem (h : AgreeUpTo f l m) {r : α} (hr : r ∈ l) :
    ∃ s ∈ m, f s = f r := by
  have hmem : f r ∈ m.map f := List.Perm.subset h (List.mem_map_of_mem hr)
  exact List.mem_map.mp hmem

end Agree

end X50.Lib
