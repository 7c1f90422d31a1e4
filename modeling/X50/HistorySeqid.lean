/-
# `X50.HistorySeqid` — no two rows share a seqid

`g_history_seqid` is raised in three callbacks, one of which runs inside lookups
that other code makes, and is computed anew when the program starts.  What keeps
the rows apart is one inequality, `SeqidBound`: no row has a seqid above it.

    a command    writes `g_history_seqid + 1`, which no row has
    a report     may raise the counter, and leaves the rows alone
    a restart    takes the largest seqid of the rows

`RowsApart` says what comes of it, in terms of the rows alone: behind a step every row
it does not delete is still there, and what it writes is newer than all of them.

The list is not part of the argument.  A report may put a recipe into it, whose
id is that of another record; so the invariant of `X50.HistoryChange` does not
survive the reports, and this one does.
-/
import X50.HistoryChange
import X50.CloudFrame

namespace X50

open X50.Lib

/-! ## What a report keeps of the database -/

/-- A property of the database that reporting does not touch, nor the callback of
a lookup. -/
structure ReportKeeps (I : HistoryState → Prop) : Prop where
  out : ∀ s out, I s → I { s with out := out }
  select : ∀ s, ∀ r ∈ s.recipe.rows, ∀ item, I s → I (histroySelectSeqidFunc r s item).1

namespace ReportKeeps

variable {I : HistoryState → Prop} (hI : ReportKeeps I)
include hI

theorem reportCookbookID {val : Int} {b b' : Board} (hb : I b.db)
    (h : reportCookbookID val b = some b') : I b'.db := by
  unfold X50.reportCookbookID at h
  split at h
  · split at h
    · exact Option.some.inj h ▸ hb
    · obtain ⟨a, -, h⟩ := Option.bind_eq_some_iff.mp h
      split at h
      · obtain ⟨found, hfound, h⟩ := Option.bind_eq_some_iff.mp h
        have hdb : I found.1 := by
          refine (selectForCookbookID_keeps (I := fun s => I s ∧ s.recipe = b.db.recipe) ?_
            ⟨hb, rfl⟩ hfound).1
          exact fun s r hr item hs => ⟨hI.select s r (hs.2 ▸ hr) item hs.1, hs.2⟩
        cases hname : found.2 with
        | none =>
            rw [hname] at h
            obtain rfl := Option.some.inj h
            exact hdb
        | some name =>
            rw [hname] at h
            obtain rfl := Option.some.inj h
            exact hI.out _ _ hdb
      · exact Option.some.inj h ▸ hb
  · exact Option.some.inj h ▸ hb

theorem getAttrReportValue {j : Nat} {b : Board} {resp : Members} {out : Board × Members}
    (hb : I b.db) (h : getAttrReportValue j b resp = some out) : I out.1.db := by
  obtain ⟨a, -, ⟨-, rfl⟩ | ⟨-, made, hmade, rfl⟩⟩ := getAttrReportValue_cases h
  · exact hb
  · have hdb : I made.1.db := by
      rcases attrItem_cases hmade with ⟨hsame, -⟩ | ⟨-, -, -, hset, -⟩ | ⟨-, -, -, hid⟩
      · exact hsame ▸ hb
      · rw [hset]
        exact hb
      · exact hI.reportCookbookID hb hid
    dsimp only
    split
    · exact hdb
    · exact hdb

theorem sendDataRecord {value : Nat → UInt8} {i j : Nat} {b : Board} {root : Members}
    {out : Board × Members} (hb : I b.db) (h : sendDataRecord value i j b root = some out) :
    I out.1.db := by
  obtain ⟨a, events, mid, -, -, -, hmid, hend⟩ := sendDataRecord_cases h
  have hdb : I mid.1.db := by
    refine hI.getAttrReportValue ?_ hmid
    exact hI.out b.db (b.db.out ++ events) hb
  cases hend with
  | other hkey => exact hdb
  | off hkey ha' hc hoff => exact hdb
  | nameless hno => exact hdb
  | named hkey ha' hon hq hout => exact hI.getAttrReportValue hdb hout

/-- **The four report paths** keep what one report of one attribute keeps. -/
theorem reportCall {call : ReportCall} {b b' : Board} (hb : I b.db)
    (h : reportCall call b = some b') : I b'.db := by
  cases call with
  | sendData value valueLen =>
      rw [X50.reportCall, sendDataToCloud_eq] at h
      obtain ⟨out, hout, rfl⟩ := Option.map_eq_some_iff.mp h
      exact hI.out _ _ (foldlM_keeps (I := fun s => I s.1.db)
        (fun _ _ _ hs hf => hI.sendDataRecord hs hf) hb hout)
  | respGet root resp =>
      obtain ⟨out, hout, rfl⟩ := Option.map_eq_some_iff.mp h
      refine foldlM_keeps (I := fun s => I s.1.db) (fun s i s' hs hf => ?_) hb hout
      obtain ⟨a, -, hf⟩ := Option.bind_eq_some_iff.mp hf
      split at hf
      · exact hI.getAttrReportValue hs hf
      · exact Option.some.inj hf ▸ hs
  | respGetall resp =>
      obtain ⟨out, hout, rfl⟩ := Option.map_eq_some_iff.mp h
      exact foldlM_keeps (I := fun s => I s.1.db)
        (fun _ _ _ hs hf => hI.getAttrReportValue hs hf) hb hout
  | sendAll =>
      obtain ⟨out, hout, h⟩ := Option.bind_eq_some_iff.mp h
      obtain rfl := Option.some.inj h
      refine hI.out _ _ (hI.out _ _ ?_)
      refine foldlM_keeps (I := fun s => I s.1.db) (fun s i s' hs hf => ?_) hb hout
      obtain ⟨a, -, hf⟩ := Option.bind_eq_some_iff.mp hf
      obtain ⟨events, -, hf⟩ := Option.bind_eq_some_iff.mp hf
      refine hI.getAttrReportValue ?_ hf
      exact hI.out s.1.db (s.1.db.out ++ events) hs

end ReportKeeps

/-- A report writes no row, and lowers no counter. -/
theorem report_keeps_rows {call : ReportCall} {b b' : Board} (h : reportCall call b = some b') :
    b'.db.history = b.db.history ∧ b.db.gHistorySeqid ≤ b'.db.gHistorySeqid := by
  have hkeeps : ReportKeeps fun s =>
      s.history = b.db.history ∧ b.db.gHistorySeqid ≤ s.gHistorySeqid := by
    refine ⟨fun s out hs => hs, fun s r _ item hs => ⟨hs.1, hs.2.trans ?_⟩⟩
    show s.gHistorySeqid ≤ if s.gHistorySeqid < r.seqid then r.seqid else s.gHistorySeqid
    split
    · omega
    · exact le_refl _
  exact hkeeps.reportCall ⟨rfl, le_refl _⟩ h

/-! ## What a command deletes and writes -/

/-- The list a cook command leaves behind its search, if it finds no dish like its
own there. -/
def cookMisses (s : HistoryState) (root : CJson) (now : Int) : Option (List History) :=
  match cookHistoryRecord s.recipe root with
  | some (some recipe) =>
      let found := compareHistoryCollect { recipe with timestamp := now } s.historyList
      if 0 ≤ found.2 then none else some found.1
  | _ => none

/-- The record an `UpdateHistory` builds, and the record of the list it names. -/
def updateTarget (s : HistoryState) (item : CJson) : Option (History × History) := do
  let id ← item.getObjectItem (cstr "id")
  let single ← updateHistoryRecord item id
  let iter ← s.historyList.find? fun r => r.id == single.id
  pure (single, iter)

/-- The ids whose rows a command deletes: of the record that has to go, of the record
the request names, or of those of the request. -/
def deletes (s : HistoryState) : HistoryCmd → List Int
  | .cook root now _ =>
      match cookMisses s root now with
      | some l => if maxHistory ≤ getHistoryCount l then [lastHistoryId 0 l] else []
      | none => []
  | .update item =>
      match updateTarget s item with
      | some (single, iter) =>
          if 0 ≤ single.collect ∧ 0 ≤ surplusId single iter s.historyList ∧
              surplusId single iter s.historyList ≠ single.id then [single.id] else []
      | none => []
  | .delete item => item.children.map CJson.valueint
  | .reset => s.history.rows.map (·.id)
  | .restart => []

/-- The statement of a command that writes a seqid, and the id it writes it under. -/
inductive SeqidWrite where
  | nothing
  | update (id : Int)
  | insert (rowid : Int)

def seqidWrite (s : HistoryState) : HistoryCmd → SeqidWrite
  | .cook root now rowid =>
      match cookMisses s root now with
      | some _ => .insert rowid
      | none => .nothing
  | .update item =>
      match updateTarget s item with
      | some (single, _) => .update single.id
      | none => .nothing
  | _ => .nothing

/-- The row with this id is written. -/
def SeqidWrite.At (id : Int) (w : SeqidWrite) : Prop := w = .update id ∨ w = .insert id

/-- The rows of `s'` are those of `s` after a command with these deletions and this
write, and the write hits no row but its own. -/
structure RowsApart (s : HistoryState) (ids : List Int) (w : SeqidWrite) (s' : HistoryState) :
    Prop where
  /-- a row that is not deleted is still there, and unchanged if it is not written -/
  kept : ∀ r ∈ s.history.rows, r.id ∉ ids →
    ∃ r' ∈ s'.history.rows, r'.id = r.id ∧ (w ≠ .update r.id → r' = r)
  deleted : ∀ r ∈ s.history.rows, r.id ∈ ids → ∀ r' ∈ s'.history.rows, r'.id ≠ r.id
  inserted : ∀ rowid, w = .insert rowid → ∃ r' ∈ s'.history.rows, r'.id = rowid
  /-- no other row is new -/
  old : ∀ r' ∈ s'.history.rows, ¬ w.At r'.id → r' ∈ s.history.rows
  /-- the seqid written is above that of every row there was -/
  fresh : ∀ r' ∈ s'.history.rows, w.At r'.id → ∀ r ∈ s.history.rows, r.seqid < r'.seqid

/-- `t` is the history in the middle of a command that began in `s`: these rows have
been deleted, and nothing has been written yet. -/
structure Within (s : HistoryState) (ids : List Int) (t : HistoryState) : Prop where
  rows : t.history.rows = s.history.rows.filter fun r => decide (r.id ∉ ids)
  seqid : t.gHistorySeqid = s.gHistorySeqid

/-- A command, by the statement that writes a seqid. -/
inductive Writes (s : HistoryState) (ids : List Int) : SeqidWrite → HistoryState → Prop
  | nothing {s' : HistoryState} :
      s'.history.rows = s.history.rows.filter (fun r => decide (r.id ∉ ids)) →
      SeqidBound s' → Writes s ids .nothing s'
  | update {t : HistoryState} (single : History) : Within s ids t →
      Writes s ids (.update single.id) (wrapperHistoryUpdateCb single t)
  | insert {t s' : HistoryState} {single : History} {rowid : Int} : Within s ids t →
      freshRowid s rowid → wrapperHistoryInsertCb single rowid t = some s' →
      Writes s ids (.insert rowid) s'

section

variable {s s' t : HistoryState} {ids : List Int} {w : SeqidWrite}

theorem Within.mem_iff (h : Within s ids t) {r : History} :
    r ∈ t.history.rows ↔ r ∈ s.history.rows ∧ r.id ∉ ids := by
  simp [h.rows]

theorem Within.bound (h : Within s ids t) (hb : SeqidBound s) : SeqidBound t := by
  intro r hr
  rw [h.seqid]
  exact hb r (h.mem_iff.mp hr).1

theorem Within.nothing (h : Within s ids t) (hb : SeqidBound s) : Writes s ids .nothing t :=
  .nothing h.rows (h.bound hb)

/-- Ids that no row has. -/
theorem within_of_forall (hrows : t.history = s.history)
    (hseqid : t.gHistorySeqid = s.gHistorySeqid)
    (hids : ∀ r ∈ s.history.rows, r.id ∉ ids) : Within s ids t where
  rows := by
    rw [hrows]
    exact (List.filter_eq_self.mpr fun r hr => decide_eq_true (hids r hr)).symm
  seqid := hseqid

theorem within_nil (hrows : t.history = s.history) (hseqid : t.gHistorySeqid = s.gHistorySeqid) :
    Within s [] t :=
  within_of_forall hrows hseqid fun _ _ => List.not_mem_nil

/-- One more row deleted. -/
theorem Within.delete (h : Within s ids t) (id : Int) :
    Within s (id :: ids) (wrapperHistoryDeleteCb id t) where
  rows := by
    show deleteAt (·.id) id t.history.rows = _
    rw [h.rows, deleteAt, List.filter_filter]
    refine List.filter_congr fun r _ => ?_
    simp
  seqid := h.seqid

theorem Writes.bound (hb : SeqidBound s) (h : Writes s ids w s') : SeqidBound s' := by
  cases h with
  | nothing _ hbound => exact hbound
  | update single hw => exact update_bound (hw.bound hb) single
  | insert hw _ hins => exact insert_bound (hw.bound hb) hins

/-- A row behind an `UPDATE` is one from before it, with the next seqid if it is the
row updated. -/
theorem Within.mem_update (hw : Within s ids t) (hb : SeqidBound s) {single r : History}
    (hr : r ∈ (wrapperHistoryUpdateCb single t).history.rows) :
    ∃ q ∈ s.history.rows, q.id ∉ ids ∧ q.id = r.id ∧ (r.id ≠ single.id → r = q) ∧
      (r.id = single.id → r.seqid = s.gHistorySeqid + 1) := by
  rw [rows_wrapperHistoryUpdateCb (hw.bound hb)] at hr
  obtain ⟨q, hq, rfl⟩ := mem_updateAt.mp hr
  obtain ⟨hqs, hqid⟩ := hw.mem_iff.mp hq
  refine ⟨q, hqs, hqid, ?_⟩
  by_cases hid : q.id = single.id
  · rw [if_pos hid, ← hw.seqid]
    exact ⟨rfl, fun hne => absurd hid hne, fun _ => rfl⟩
  · rw [if_neg hid]
    exact ⟨rfl, fun _ => rfl, fun heq => absurd heq hid⟩

theorem rowsApart_nothing
    (hrows : s'.history.rows = s.history.rows.filter fun r => decide (r.id ∉ ids)) :
    RowsApart s ids .nothing s' := by
  have hmem : ∀ r, r ∈ s'.history.rows ↔ r ∈ s.history.rows ∧ r.id ∉ ids := by
    intro r
    simp [hrows]
  exact
    { kept := fun r hr hid => ⟨r, (hmem r).mpr ⟨hr, hid⟩, rfl, fun _ => rfl⟩
      deleted := fun r _ hid r' hr' heq => ((hmem r').mp hr').2 (heq ▸ hid)
      inserted := fun _ h => by cases h
      old := fun r' hr' _ => ((hmem r').mp hr').1
      fresh := fun r' _ h => by rcases h with h | h <;> cases h }

theorem rowsApart_update (hb : SeqidBound s) (hw : Within s ids t) (single : History) :
    RowsApart s ids (.update single.id) (wrapperHistoryUpdateCb single t) where
  kept := by
    intro r hr hid
    rw [rows_wrapperHistoryUpdateCb (hw.bound hb)]
    refine ⟨_, mem_updateAt.mpr ⟨r, hw.mem_iff.mpr ⟨hr, hid⟩, rfl⟩, ?_, fun hne => ?_⟩
    · split
      · rfl
      · rfl
    · exact if_neg fun heq => hne (congrArg SeqidWrite.update heq.symm)
  deleted := by
    intro r _ hid r' hr' heq
    obtain ⟨q, -, hq, hqid, -⟩ := hw.mem_update hb hr'
    exact hq (hqid.trans heq ▸ hid)
  inserted := fun _ h => by cases h
  old := by
    intro r' hr' hne
    obtain ⟨q, hq, -, -, hsame, -⟩ := hw.mem_update hb hr'
    rw [hsame fun heq => hne (Or.inl (congrArg SeqidWrite.update heq.symm))]
    exact hq
  fresh := by
    intro r' hr' hat r hr
    obtain ⟨q, -, -, -, -, hseqid⟩ := hw.mem_update hb hr'
    rcases hat with hat | hat
    · rw [hseqid (SeqidWrite.update.inj hat).symm]
      exact Int.lt_add_one_of_le (hb r hr)
    · cases hat

theorem rowsApart_insert {single : History} {rowid : Int} (hb : SeqidBound s)
    (hw : Within s ids t) (hfresh : freshRowid s rowid)
    (hins : wrapperHistoryInsertCb single rowid t = some s') :
    RowsApart s ids (.insert rowid) s' := by
  obtain ⟨-, hrows, -⟩ := wrapperHistoryInsertCb_spec (hw.bound hb) hins
  have hmem : ∀ r, r ∈ s'.history.rows ↔ (r ∈ s.history.rows ∧ r.id ∉ ids) ∨
      r = { single with seqid := s.gHistorySeqid + 1, id := rowid } := by
    intro r
    rw [hrows, List.mem_append, hw.mem_iff, List.mem_singleton, hw.seqid]
  refine
    { kept := fun r hr hid => ⟨r, (hmem r).mpr (Or.inl ⟨hr, hid⟩), rfl, fun _ => rfl⟩
      deleted := fun r hr hid r' hr' heq => ?_
      inserted := fun id hid => ?_
      old := fun r' hr' hne => ?_
      fresh := fun r' hr' hat r hr => ?_ }
  · rcases (hmem r').mp hr' with hr' | rfl
    · exact hr'.2 (heq ▸ hid)
    · exact hfresh.2 r hr heq.symm
  · obtain rfl := SeqidWrite.insert.inj hid
    exact ⟨_, (hmem _).mpr (Or.inr rfl), rfl⟩
  · rcases (hmem r').mp hr' with hr' | rfl
    · exact hr'.1
    · exact absurd (Or.inr rfl) hne
  · rcases (hmem r').mp hr' with hr' | rfl
    · rcases hat with hat | hat
      · cases hat
      · exact absurd (SeqidWrite.insert.inj hat).symm (hfresh.2 r' hr'.1)
    · exact Int.lt_add_one_of_le (hb r hr)

/-- **A seqid above the counter is above those of the rows**, so the write replaces no
row, and is not refused for one. -/
theorem Writes.rowsApart (hb : SeqidBound s) (h : Writes s ids w s') : RowsApart s ids w s' := by
  cases h with
  | nothing hrows _ => exact rowsApart_nothing hrows
  | update single hw => exact rowsApart_update hb hw single
  | insert hw hfresh hins => exact rowsApart_insert hb hw hfresh hins

/-! ## The commands -/

/-- The eviction of `insertHistory`, in the rows. -/
theorem within_makeRoom (s : HistoryState) (l : List History) :
    Within s (if maxHistory ≤ getHistoryCount l then [lastHistoryId 0 l] else [])
      (makeRoom { s with historyList := l }) := by
  have hnil : Within s [] { s with historyList := l } := within_nil rfl rfl
  unfold makeRoom
  by_cases hcount : maxHistory ≤ getHistoryCount l
  · rw [if_pos hcount, if_pos hcount]
    by_cases hid : 0 ≤ lastHistoryId 0 l
    · rw [if_pos hid]
      exact hnil.delete _
    · rw [if_neg hid]
      -- nothing is deleted, and no row has this id
      refine within_of_forall rfl rfl fun r hr hmem => hid ?_
      rw [← List.mem_singleton.mp hmem]
      exact (s.history.idPos r hr).le
  · rw [if_neg hcount, if_neg hcount]
    exact hnil

theorem cookHistory_writes {root : CJson} {now rowid : Int} (hb : SeqidBound s)
    (hfresh : freshRowid s rowid) (h : cookHistory root now rowid s = some s') :
    Writes s (deletes s (.cook root now rowid)) (seqidWrite s (.cook root now rowid)) s' := by
  simp only [deletes, seqidWrite]
  rcases cookHistory_cases h with ⟨hrec, rfl⟩ | ⟨recipe, hrec, -, hins⟩
  · simp only [cookMisses, hrec]
    exact (within_nil rfl rfl).nothing hb
  · simp only [cookMisses, hrec]
    unfold insertHistory at hins
    dsimp only at hins
    generalize compareHistoryCollect { recipe with timestamp := now } s.historyList = found
      at hins ⊢
    by_cases hfound : 0 ≤ found.2
    · rw [if_pos hfound] at hins
      obtain rfl := Option.some.inj hins
      simp only [if_pos hfound]
      -- the update that follows has no id, and no row has that
      have hbound : SeqidBound { s with historyList := found.1 } := hb
      refine .nothing ?_ (update_bound hbound _)
      rw [rows_wrapperHistoryUpdateCb hbound, updateAt_of_forall_ne fun r hr => ?_]
      · simp
      · exact (s.history.idPos r hr).ne'
    · rw [if_neg hfound] at hins
      simp only [if_neg hfound]
      exact .insert (within_makeRoom s found.1) hfresh hins

/-- The eviction of `updateHistory`, in the rows. -/
theorem within_makeRoomFor (single iter : History) (s : HistoryState) :
    Within s (if 0 ≤ single.collect ∧ 0 ≤ surplusId single iter s.historyList ∧
        surplusId single iter s.historyList ≠ single.id then [single.id] else [])
      (makeRoomFor single iter s) := by
  have hnil : Within s [] s := within_nil rfl rfl
  unfold makeRoomFor
  by_cases hcollect : 0 ≤ single.collect
  · by_cases hsurplus : 0 ≤ surplusId single iter s.historyList ∧
        surplusId single iter s.historyList ≠ single.id
    · rw [if_pos hcollect, if_pos hsurplus, if_pos ⟨hcollect, hsurplus⟩]
      exact hnil.delete _
    · rw [if_pos hcollect, if_neg hsurplus, if_neg fun h => hsurplus h.2]
      exact hnil
  · rw [if_neg hcollect, if_neg fun h => hcollect h.1]
    exact hnil

theorem updateHistoryCb_writes {item : CJson} (hb : SeqidBound s)
    (h : updateHistoryCb item s = some s') :
    Writes s (deletes s (.update item)) (seqidWrite s (.update item)) s' := by
  simp only [deletes, seqidWrite]
  rcases updateHistoryCb_cases h with ⟨rfl, hmiss⟩ | ⟨id, single, iter, hid, hsingle, hiter, rfl⟩
  · have hnone : updateTarget s' item = none := by
      by_contra hsome
      obtain ⟨⟨single, iter⟩, htarget⟩ := Option.ne_none_iff_exists'.mp hsome
      simp only [updateTarget, Option.bind_eq_bind, Option.bind_eq_some_iff, Option.pure_def,
        Option.some.injEq, Prod.mk.injEq] at htarget
      obtain ⟨id, hid, single, hsingle, iter, hiter, rfl, rfl⟩ := htarget
      refine hmiss id hid iter (List.mem_of_find?_eq_some hiter) ?_
      rw [← (updateHistoryRecord_eq_some hsingle).1]
      simpa using List.find?_some hiter
    simp only [hnone]
    exact (within_nil rfl rfl).nothing hb
  · have htarget : updateTarget s item = some (single, iter) := by
      simp [updateTarget, hid, hsingle, hiter]
    simp only [htarget]
    exact .update single (within_makeRoomFor single iter s)

theorem within_deleteHistoryCb (item : CJson) (s : HistoryState) :
    Within s (item.children.map CJson.valueint) (deleteHistoryCb item s).1 := by
  unfold deleteHistoryCb
  split
  · next hnone =>
    have hempty : item.children = [] := List.length_eq_zero_iff.mp hnone
    rw [hempty]
    exact within_nil rfl rfl
  · generalize item.children.map CJson.valueint = ids
    have hfold : ∀ t : HistoryState,
        let t' := ids.foldl (fun s id =>
          { s with
            historyList := reportDeleteHistory id s.historyList
            history := s.history.deleteRowFromTable id }) t
        t'.history.rows = ids.foldl (fun l id => deleteAt (·.id) id l) t.history.rows ∧
          t'.gHistorySeqid = t.gHistorySeqid := by
      intro t
      induction ids generalizing t with
      | nil => exact ⟨rfl, rfl⟩
      | cons id ids ih => exact ih _
    exact ⟨(hfold s).1.trans (foldl_deleteAt ids _), (hfold s).2⟩

/-- What each command deletes and writes. -/
theorem step_writes {cmd : HistoryCmd} (hb : SeqidBound s)
    (h : historyMachine.step s cmd = some s') :
    Writes s (deletes s cmd) (seqidWrite s cmd) s' := by
  cases cmd with
  | cook root now rowid =>
      simp only [historyMachine] at h
      split at h
      · exact cookHistory_writes hb ‹_› h
      · cases h
  | update item => exact updateHistoryCb_writes hb h
  | delete item =>
      obtain rfl := Option.some.inj h
      have hdel := within_deleteHistoryCb item s
      refine Within.nothing ?_ hb
      simp only [deleteAndReport]
      split
      · exact hdel
      · exact ⟨hdel.rows, hdel.seqid⟩
  | reset =>
      obtain rfl := Option.some.inj h
      refine .nothing ?_ fun r hr => absurd hr List.not_mem_nil
      refine (List.filter_eq_nil_iff.mpr fun r hr => ?_).symm
      simpa [deletes] using ⟨r, hr, rfl⟩
  | restart =>
      obtain rfl := Option.some.inj h
      have hrows : (restart s).history = s.history := history_databaseTaskInit _ _ _
      refine .nothing ?_ (databaseTaskInit_bound _ _ _)
      simp [deletes, hrows]

end

/-! ## Runs -/

/-- What can happen to the history of a board. -/
inductive BoardCmd where
  | history (cmd : HistoryCmd)
  | report (call : ReportCall)
  /-- the program is started again, with the attributes of its profile -/
  | boot (dev : CloudDev)

def boardMachine : Machine Board BoardCmd where
  step b
    | .history cmd => (historyMachine.step b.db cmd).map fun db => { b with db := db }
    | .report call => reportCall call b
    | .boot dev => some { b with dev := dev, db := restart b.db }

/-- The ids whose rows a step of the board deletes. -/
def BoardCmd.deletes (b : Board) : BoardCmd → List Int
  | .history cmd => X50.deletes b.db cmd
  | _ => []

def BoardCmd.seqidWrite (b : Board) : BoardCmd → SeqidWrite
  | .history cmd => X50.seqidWrite b.db cmd
  | _ => .nothing

/-- The seqids of the rows are distinct and not above the counter, and whatever
happens next to the board hits no row but the one it is meant for. -/
structure SeqidsApart (b : Board) : Prop where
  distinct : (b.db.history.rows.map (·.seqid)).Nodup
  bound : SeqidBound b.db
  free : ∀ cmd b', boardMachine.step b cmd = some b' →
    RowsApart b.db (cmd.deletes b) (cmd.seqidWrite b) b'.db

section

variable {b b' : Board} {cmd : BoardCmd}

theorem boardMachine_writes (hb : SeqidBound b.db) (h : boardMachine.step b cmd = some b') :
    Writes b.db (cmd.deletes b) (cmd.seqidWrite b) b'.db := by
  cases cmd with
  | history cmd =>
      obtain ⟨db, hdb, rfl⟩ := Option.map_eq_some_iff.mp h
      exact step_writes hb hdb
  | report call =>
      obtain ⟨hrows, hle⟩ := report_keeps_rows h
      refine .nothing (by simp [BoardCmd.deletes, hrows]) fun r hr => ?_
      rw [hrows] at hr
      exact (hb r hr).trans hle
  | boot dev =>
      obtain rfl := Option.some.inj h
      exact @step_writes _ _ .restart hb rfl

theorem SeqidBound.apart (hb : SeqidBound b.db) : SeqidsApart b where
  distinct := b.db.history.seqidNodup
  bound := hb
  free := fun _ _ h => (boardMachine_writes hb h).rowsApart hb

end

/-- **Seqids never collide.**  From `database_task_init` over any table, through any
commands, Resets, restarts and reports, the rows have distinct seqids, none above
`g_history_seqid`; and every step leaves each row it does not delete where it is, for
a seqid that it writes is above those of all rows. -/
theorem seqids_never_collide (b : Board) (history : Table) (recipe : RecipeTable)
    (out : List Report) (cmds : List BoardCmd) :
    boardMachine.Along SeqidsApart { b with db := databaseTaskInit history recipe out } cmds := by
  have hbound : boardMachine.Along (fun b => SeqidBound b.db)
      { b with db := databaseTaskInit history recipe out } cmds :=
    Machine.along_of_invariant (V := fun _ => True)
      (fun _ _ _ _ hb h => (boardMachine_writes hb h).bound hb) (fun _ _ => trivial)
      (databaseTaskInit_bound history recipe out)
  exact hbound.mono fun b hb => hb.apart

end X50
