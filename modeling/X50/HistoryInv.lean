/-
# `X50.HistoryInv` — what every command keeps

One lemma says what each callback does to both stores at once, in one
vocabulary: both delete at an id, both overwrite at an id, both gain the new
record.  From these, the invariant of the machine:

    agree   the list and the rows hold the same records, up to their
            timestamps
    bound   no row has a seqid above `g_history_seqid`

Timestamps are left out on purpose.  `compareHistoryCollect` writes one into the
list on a path that writes none into the table; that is the subject of
`X50.HistoryMirror`.  Everything else of a record agrees in every run, and
that is what the quotas and the updates need.
-/
import X50.History

namespace X50

open X50.Lib

/-! ## Sorting and searching keep the records -/

theorem sortHistory_perm (l : List History) : (sortHistory l).Perm l :=
  List.perm_insertionSort _ l

/-- `compareHistoryCollect` stops at a collected record of the same dish. -/
def stopsAt (single r : History) : Bool := !(r.collect == 0) && sameDish r single

/-- The collected record `compareHistoryCollect` stops at. -/
def matchCollect (single : History) (l : List History) : Option History :=
  l.find? (stopsAt single)

theorem matchCollect_cons (single q : History) (qs : List History) :
    matchCollect single (q :: qs) =
      if stopsAt single q then some q else matchCollect single qs := by
  simp only [matchCollect, List.find?_cons]
  cases stopsAt single q <;> rfl

theorem compareHistoryCollect_cons (single q : History) (qs : List History) :
    compareHistoryCollect single (q :: qs) =
      if stopsAt single q then ({ q with timestamp := single.timestamp } :: qs, q.id)
      else (q :: (compareHistoryCollect single qs).1, (compareHistoryCollect single qs).2) := by
  by_cases hc : q.collect = 0
  · simp [compareHistoryCollect, stopsAt, hc]
  · simp [compareHistoryCollect, stopsAt, hc]

theorem compareHistoryCollect_none {single : History} {l : List History}
    (h : matchCollect single l = none) : compareHistoryCollect single l = (l, -1) := by
  induction l with
  | nil => rfl
  | cons q qs ih =>
      rw [matchCollect_cons] at h
      rw [compareHistoryCollect_cons]
      by_cases hq : stopsAt single q = true
      · rw [if_pos hq] at h
        cases h
      · rw [if_neg hq] at h ⊢
        rw [ih h]

theorem compareHistoryCollect_some {single r : History} {l : List History}
    (h : matchCollect single l = some r) :
    ∃ pre post, l = pre ++ r :: post ∧
      compareHistoryCollect single l =
        (pre ++ { r with timestamp := single.timestamp } :: post, r.id) := by
  induction l with
  | nil => cases h
  | cons q qs ih =>
      rw [matchCollect_cons] at h
      rw [compareHistoryCollect_cons]
      by_cases hq : stopsAt single q = true
      · rw [if_pos hq] at h ⊢
        obtain rfl := Option.some.inj h
        exact ⟨[], qs, rfl, rfl⟩
      · rw [if_neg hq] at h ⊢
        obtain ⟨pre, post, hl, hcmp⟩ := ih h
        refine ⟨q :: pre, post, by rw [hl]; rfl, ?_⟩
        rw [hcmp]
        rfl

theorem matchCollect_some {single r : History} {l : List History}
    (h : matchCollect single l = some r) :
    r ∈ l ∧ r.collect ≠ 0 ∧ sameDish r single = true := by
  refine ⟨List.mem_of_find?_eq_some h, ?_⟩
  have hstop : stopsAt single r = true := List.find?_some h
  simpa [stopsAt] using hstop

theorem lastHistoryId_mem {c : Int} {l : List History} (h : 0 ≤ lastHistoryId c l) :
    ∃ r ∈ l, r.collect = c ∧ r.id = lastHistoryId c l := by
  unfold lastHistoryId at h ⊢
  cases hf : l.reverse.find? (fun r => r.collect == c) with
  | none => simp [hf] at h
  | some r =>
      refine ⟨r, List.mem_reverse.mp (List.mem_of_find?_eq_some hf), ?_, rfl⟩
      simpa using List.find?_some hf

/-! ## The observations used -/

/-- A record without its timestamp. -/
def forgetTimestamp (r : History) : History := { r with timestamp := 0 }

/-- An observation of records that sees the fields the history is managed by,
and sees an overwritten record as an overwritten observation. -/
structure Observes (f : History → History) : Prop where
  id : Function.FactorsThrough (fun r : History => r.id) f
  seqid : Function.FactorsThrough (fun r : History => r.seqid) f
  collect : Function.FactorsThrough (fun r : History => r.collect) f
  dish : ∀ single, Function.FactorsThrough (fun r : History => sameDish r single) f
  overwrite : ∀ single, Function.FactorsThrough (f ∘ overwrite single) f

theorem observes_all : Observes fun r => r where
  id _ _ h := congrArg History.id h
  seqid _ _ h := congrArg History.seqid h
  collect _ _ h := congrArg History.collect h
  dish single _ _ h := congrArg (fun r => sameDish r single) h
  overwrite single _ _ h := congrArg (X50.overwrite single) h

theorem forgetTimestamp_eq {r s : History} (h : forgetTimestamp r = forgetTimestamp s) :
    s = { r with timestamp := s.timestamp } := by
  cases r
  cases s
  simp only [forgetTimestamp, History.mk.injEq] at h
  obtain ⟨rfl, rfl, rfl, rfl, rfl, rfl, -, rfl, rfl, rfl, rfl⟩ := h
  rfl

theorem observes_forgetTimestamp : Observes forgetTimestamp where
  id r s h := by rw [forgetTimestamp_eq h]
  seqid r s h := by rw [forgetTimestamp_eq h]
  collect r s h := by rw [forgetTimestamp_eq h]
  dish single r s h := by rw [forgetTimestamp_eq h]; rfl
  overwrite single r s h := by rw [forgetTimestamp_eq h]; rfl

/-! ## The callbacks, on both stores -/

/-- What `updateColumns` does to a row. -/
def overwriteColumns (single r : History) : History :=
  { overwrite single r with seqid := r.seqid }

theorem rows_ite {c : Prop} [Decidable c] {t t' : Table} {id : Int} {u : History → History}
    (h : t'.rows = updateAt (·.id) id u t.rows) :
    (if c then t' else t).rows = updateAt (·.id) id (fun r => if c then u r else r) t.rows := by
  by_cases hc : c
  · simp only [if_pos hc, h]
  · simp only [if_neg hc, updateAt_self]

theorem rows_updateColumns (single : History) (t : Table) :
    (updateColumns single t).rows =
      updateAt (·.id) single.id (overwriteColumns single) t.rows := by
  have hset : ∀ (key : IntColumn), key ≠ .seqid → ∀ (val id : Int) (t : Table),
      (updateKeyToTable key val id t).rows = updateAt (·.id) id (key.set val) t.rows :=
    fun key hkey val id t => rows_updateKeyToTable (not_seqidTaken_of_ne hkey t val id)
  have hcollect := fun t : Table =>
    rows_ite (c := 0 ≤ single.collect) (hset .collect (by decide) single.collect single.id t)
  have htime := fun t : Table =>
    rows_ite (c := 0 < single.timestamp) (hset .timestamp (by decide) single.timestamp single.id t)
  have hkeep : ∀ {c : Prop} [Decidable c] {u : History → History} (r : History),
      (u r).id = r.id → (if c then u r else r).id = r.id := by
    intro c _ u r hu
    split
    · exact hu
    · rfl
  simp only [updateColumns]
  rw [rows_ite (rows_updateKeyStringTable _ _ _), htime, hcollect,
    updateAt_updateAt (fun r => hkeep r rfl),
    updateAt_updateAt (fun r => hkeep r rfl)]
  refine congrArg (fun u => updateAt _ _ u t.rows) (funext fun r => ?_)
  simp only [overwriteColumns, overwrite, IntColumn.set, History.setDishName]
  split <;> split <;> split <;> rfl

/-- No row has the seqid the next write will use. -/
def SeqidBound (s : HistoryState) : Prop := ∀ r ∈ s.history.rows, r.seqid ≤ s.gHistorySeqid

/-- The seqid an update writes is taken by no row. -/
theorem not_seqidTaken_updateColumns {s : HistoryState} (hb : SeqidBound s) (single : History) :
    ¬ (updateColumns single s.history).seqidTaken .seqid (s.gHistorySeqid + 1) single.id := by
  rintro ⟨-, r, hr, -, hseq⟩
  rw [rows_updateColumns] at hr
  obtain ⟨q, hq, rfl⟩ := mem_updateAt.mp hr
  have hle := hb q hq
  have hsame : (if q.id = single.id then overwriteColumns single q else q).seqid = q.seqid := by
    split <;> rfl
  omega

/-- `wrapper_history_update_cb` overwrites the row and the list entry with the
request's id, by the same values. -/
theorem rows_wrapperHistoryUpdateCb {single : History} {s : HistoryState} (hb : SeqidBound s) :
    (wrapperHistoryUpdateCb single s).history.rows =
      updateAt (·.id) single.id (overwrite { single with seqid := s.gHistorySeqid + 1 })
        s.history.rows := by
  have hfree := not_seqidTaken_updateColumns hb single
  simp only [wrapperHistoryUpdateCb, rows_updateKeyToTable hfree, rows_updateColumns]
  rw [updateAt_updateAt (v := overwriteColumns single) (fun r => rfl)]
  rfl

theorem list_wrapperHistoryUpdateCb {single : History} {s : HistoryState}
    (hn : (s.historyList.map (·.id)).Nodup) :
    (wrapperHistoryUpdateCb single s).historyList =
      sortHistory (updateAt (·.id) single.id
        (overwrite { single with seqid := s.gHistorySeqid + 1 }) s.historyList) := by
  simp only [wrapperHistoryUpdateCb, reportUpdateHistory]
  rw [updateFirst_eq_updateAt hn]

/-- `wrapper_history_insert_cb` adds one record to both stores, changes no other,
and reports the record. -/
theorem wrapperHistoryInsertCb_spec {single : History} {rowid : Int} {s s' : HistoryState}
    (hb : SeqidBound s) (h : wrapperHistoryInsertCb single rowid s = some s') :
    let row := { single with seqid := s.gHistorySeqid + 1, id := rowid }
    s'.historyList = sortHistory (row :: s.historyList) ∧
      s'.history.rows = s.history.rows ++ [row] ∧
      s'.gHistorySeqid = s.gHistorySeqid + 1 ∧ s'.recipe = s.recipe ∧
      (0 < rowid ∧ ∀ r ∈ s.history.rows, r.id ≠ rowid) ∧
      s'.out = s.out ++
        [.platform (.object [(cstr "InsertHistory", .object (selectSeqidMembers row))])] := by
  intro row
  simp only [wrapperHistoryInsertCb, Option.bind_eq_bind, Option.bind_eq_some_iff,
    Option.pure_def] at h
  obtain ⟨t, ht, h⟩ := h
  obtain ⟨hid, hrows⟩ := insertReplaceRowToTable_eq_some ht
  have hne : ∀ r ∈ s.history.rows, r.seqid ≠ s.gHistorySeqid + 1 := fun r hr => by
    have := hb r hr
    omega
  have hrows' : t.rows = s.history.rows ++ [row] := by
    rw [hrows, deleteAt_of_forall_ne hne]
  have hsel : selectSeqidFromTable (s.gHistorySeqid + 1) t = [row] := by
    rw [selectSeqidFromTable, hrows', List.filter_append,
      List.filter_eq_nil_iff.mpr fun r hr => by simpa using hne r hr]
    simp [row]
  rw [hsel] at h
  simp only [selectSeqidRows, List.foldl_cons, List.foldl_nil, histroySelectSeqidFunc,
    List.nil_append, selectSeqidMembers, CJson.isNull, Bool.false_eq_true, if_false,
    Option.some.injEq] at h
  subst h
  refine ⟨rfl, hrows', ?_, rfl, hid, rfl⟩
  show (if s.gHistorySeqid < s.gHistorySeqid + 1 then s.gHistorySeqid + 1 else _) = _
  exact if_pos (by omega)

/-! ## Loading the list -/

theorem databaseHistroySelectCb_foldl (rows : List History) (s : HistoryState) :
    let s' := rows.foldl databaseHistroySelectCb s
    s'.historyList = rows.reverse ++ s.historyList ∧ s'.history = s.history ∧
      s'.recipe = s.recipe ∧ s'.out = s.out ∧
      s.gHistorySeqid ≤ s'.gHistorySeqid ∧ ∀ r ∈ rows, r.seqid ≤ s'.gHistorySeqid := by
  induction rows generalizing s with
  | nil => exact ⟨rfl, rfl, rfl, rfl, le_refl _, fun _ h => absurd h List.not_mem_nil⟩
  | cons q qs ih =>
      obtain ⟨hl, ht, hrec, hout, hg, hqs⟩ := ih (databaseHistroySelectCb s q)
      have hstep : s.gHistorySeqid ≤ (databaseHistroySelectCb s q).gHistorySeqid ∧
          q.seqid ≤ (databaseHistroySelectCb s q).gHistorySeqid := by
        show _ ≤ (if _ then _ else _) ∧ _ ≤ (if _ then _ else _)
        split <;> omega
      refine ⟨?_, ht, hrec, hout, hstep.1.trans hg, ?_⟩
      · rw [List.foldl_cons, hl, List.reverse_cons, List.append_assoc]
        rfl
      · intro r hr
        rcases List.mem_cons.mp hr with rfl | hr
        · exact hstep.2.trans hg
        · exact hqs r hr

section

variable (history : Table) (recipe : RecipeTable) (out : List Report)

theorem historyList_databaseTaskInit :
    (databaseTaskInit history recipe out).historyList = sortHistory history.rows.reverse := by
  obtain ⟨hl, -⟩ := databaseHistroySelectCb_foldl history.rows
    { historyList := [], gHistorySeqid := 0, history := history, recipe := recipe, out := out }
  simp only [databaseTaskInit, hl, List.append_nil]
  rfl

theorem history_databaseTaskInit : (databaseTaskInit history recipe out).history = history :=
  (databaseHistroySelectCb_foldl history.rows
    { historyList := [], gHistorySeqid := 0, history := history, recipe := recipe, out := out }).2.1

theorem recipe_databaseTaskInit : (databaseTaskInit history recipe out).recipe = recipe :=
  (databaseHistroySelectCb_foldl history.rows
    { historyList := [], gHistorySeqid := 0, history := history, recipe := recipe,
      out := out }).2.2.1

/-- A list just loaded holds the rows. -/
theorem databaseTaskInit_perm :
    (databaseTaskInit history recipe out).historyList.Perm history.rows := by
  rw [historyList_databaseTaskInit]
  exact (sortHistory_perm _).trans (List.reverse_perm _)

theorem databaseTaskInit_bound : SeqidBound (databaseTaskInit history recipe out) := by
  obtain ⟨-, -, -, -, -, hg⟩ := databaseHistroySelectCb_foldl history.rows
    { historyList := [], gHistorySeqid := 0, history := history, recipe := recipe, out := out }
  intro r hr
  rw [history_databaseTaskInit] at hr
  exact hg r hr

end

/-! ## The invariant -/

/-- What holds of the two stores in every run. -/
structure HistoryInv (s : HistoryState) : Prop where
  agree : AgreeUpTo forgetTimestamp s.historyList s.history.rows
  bound : SeqidBound s

section

variable {f : History → History} {s s' : HistoryState}

/-- Agreement under any observation makes the ids of the list distinct. -/
theorem ids_nodup (hf : Observes f) (h : AgreeUpTo f s.historyList s.history.rows) :
    (s.historyList.map (·.id)).Nodup :=
  (List.Perm.nodup_iff (h.coarser hf.id)).mpr s.history.idNodup

theorem ids_pos (hf : Observes f) (h : AgreeUpTo f s.historyList s.history.rows) :
    ∀ r ∈ s.historyList, 0 < r.id := by
  intro r hr
  obtain ⟨q, hq, hqr⟩ := h.exists_mem hr
  have hid : q.id = r.id := hf.id hqr
  exact hid ▸ s.history.idPos q hq

theorem list_bound (hf : Observes f) (h : AgreeUpTo f s.historyList s.history.rows)
    (hb : SeqidBound s) : ∀ r ∈ s.historyList, r.seqid ≤ s.gHistorySeqid := by
  intro r hr
  obtain ⟨q, hq, hqr⟩ := h.exists_mem hr
  have hseq : q.seqid = r.seqid := hf.seqid hqr
  exact hseq ▸ hb q hq

theorem update_agree (hf : Observes f) (hb : SeqidBound s)
    (h : AgreeUpTo f s.historyList s.history.rows) (single : History) :
    AgreeUpTo f (wrapperHistoryUpdateCb single s).historyList
      (wrapperHistoryUpdateCb single s).history.rows := by
  rw [list_wrapperHistoryUpdateCb (ids_nodup hf h), rows_wrapperHistoryUpdateCb hb]
  exact (h.updateAt hf.id (hf.overwrite _)).perm_left (sortHistory_perm _)

theorem update_bound (hb : SeqidBound s) (single : History) :
    SeqidBound (wrapperHistoryUpdateCb single s) := by
  intro r hr
  rw [rows_wrapperHistoryUpdateCb hb] at hr
  obtain ⟨q, hq, rfl⟩ := mem_updateAt.mp hr
  have hle := hb q hq
  show _ ≤ s.gHistorySeqid + 1
  split
  · exact le_refl _
  · omega

theorem delete_agree (hf : Observes f) (h : AgreeUpTo f s.historyList s.history.rows) (id : Int) :
    AgreeUpTo f (wrapperHistoryDeleteCb id s).historyList
      (wrapperHistoryDeleteCb id s).history.rows :=
  h.deleteAt hf.id

theorem delete_bound (hb : SeqidBound s) (id : Int) :
    SeqidBound (wrapperHistoryDeleteCb id s) :=
  fun r hr => hb r (mem_deleteAt.mp hr).1

theorem insert_agree (hb : SeqidBound s) (h : AgreeUpTo f s.historyList s.history.rows)
    {single : History} {rowid : Int} (hins : wrapperHistoryInsertCb single rowid s = some s') :
    AgreeUpTo f s'.historyList s'.history.rows := by
  obtain ⟨hl, hr, -⟩ := wrapperHistoryInsertCb_spec hb hins
  rw [hl, hr]
  exact h.cons_concat.perm_left (sortHistory_perm _)

theorem insert_bound (hb : SeqidBound s) {single : History} {rowid : Int}
    (hins : wrapperHistoryInsertCb single rowid s = some s') : SeqidBound s' := by
  obtain ⟨-, hr, hg, -⟩ := wrapperHistoryInsertCb_spec hb hins
  intro r hmem
  rw [hr] at hmem
  rw [hg]
  rcases List.mem_append.mp hmem with hmem | hmem
  · have := hb r hmem
    omega
  · obtain rfl := List.mem_singleton.mp hmem
    exact le_refl _

end

end X50
