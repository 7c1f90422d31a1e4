/-
# `X50.HistoryInsert` — recording a dish

`CookHistory::insertHistory` does one of two things.

    a new dish     makes room in the uncollected class, then inserts a row and
                   puts the row it reads back into the list
    a favourite    refreshes the collected record of the same dish

The first is right in every state the commands reach: the list is sorted, so the
last uncollected record, which is evicted, is the oldest one; and the new seqid
is above every other, so the new record comes before the rest of its class.

The second is handed to the update callback without the id of the record that
was found.  The callback looks for id 0, which no record has.
-/
import X50.HistoryUpdate

namespace X50

open X50.Lib

/-! ## The place of the newest record -/

/-- The record of the greatest rank comes first. -/
theorem head_of_greatest {l : List History} {row : History} (hl : Sorted l) (hrow : row ∈ l)
    (hgreat : ∀ r ∈ l, r ≠ row → rank r < rank row) : l.head? = some row := by
  cases l with
  | nil => cases hrow
  | cons q qs =>
      by_cases hqr : q = row
      · rw [hqr]
        rfl
      · -- then `row` stands behind `q`, which has a smaller rank
        have hqs : row ∈ qs := (List.mem_cons.mp hrow).resolve_left (Ne.symm hqr)
        have hrank : rank q ≥ rank row :=
          (List.pairwise_cons.mp (List.pairwise_map.mp hl)).1 row hqs
        exact absurd (hgreat q List.mem_cons_self hqr) (not_lt.mpr hrank)

/-- The newest record comes before the others of its class. -/
theorem head_of_newest {l : List History} {row : History} (hl : Sorted l) (hrow : row ∈ l)
    (hnew : ∀ r ∈ l, r ≠ row → r.seqid < row.seqid) :
    (l.filter fun r => r.collect == row.collect).head? = some row := by
  refine head_of_greatest (hl.sublist (List.filter_sublist.map rank))
    (List.mem_filter.mpr ⟨hrow, by simp⟩) ?_
  intro r hr hne
  obtain ⟨hmem, hclass⟩ := List.mem_filter.mp hr
  have hc : r.collect = row.collect := by simpa using hclass
  exact Prod.Lex.lt_iff.mpr (Or.inr ⟨hc, hnew r hmem hne⟩)

/-! ## A new dish -/

/-- The record a new dish becomes. -/
def newRow (single : History) (now rowid : Int) (s : HistoryState) : History :=
  { single with id := rowid, seqid := s.gHistorySeqid + 1, timestamp := now }

/-- `l'` is `l` with `row` added.  A record is removed exactly when 40 records of
`l` are uncollected: the one with the smallest seqid among them; `gone` is its id. -/
def Gains (row : History) (gone : Option Int) (l l' : List History) : Prop :=
  match gone with
  | none => getHistoryCount l < 40 ∧ l'.Perm (row :: l)
  | some id => 40 ≤ getHistoryCount l ∧
      ∃ old ∈ l, old.id = id ∧ Oldest 0 l old ∧ (old :: l').Perm (row :: l)

/-- What recording a new dish does to both stores. -/
structure DishRecorded (row : History) (s s' : HistoryState) : Prop where
  /-- no record has the id, and every seqid is smaller -/
  fresh : ∀ r ∈ s.historyList ++ s.history.rows, r.id ≠ row.id ∧ r.seqid < row.seqid
  /-- both stores gain the row, and lose the same record if they lose one -/
  stores : ∃ gone, Gains row gone s.historyList s'.historyList ∧
    Gains row gone s.history.rows s'.history.rows
  /-- the row is the first of the uncollected records -/
  first : (s'.historyList.filter fun r => r.collect == 0).head? = some row

section

variable {s s' : HistoryState} {single : History} {now rowid : Int}

/-- The insertion has a result when SQLite's id is fresh. -/
theorem wrapperHistoryInsertCb_defined (single : History) (h : freshRowid s rowid) :
    ∃ s', wrapperHistoryInsertCb single rowid s = some s' := by
  have hins : ∃ t, insertReplaceRowToTable { single with seqid := s.gHistorySeqid + 1 } rowid
      s.history = some t := by
    have hid : 0 < rowid ∧ ∀ r ∈ s.history.rows, r.id ≠ rowid := h
    unfold insertReplaceRowToTable
    rw [dif_pos hid]
    exact ⟨_, rfl⟩
  obtain ⟨t, ht⟩ := hins
  simp only [wrapperHistoryInsertCb, ht, Option.bind_eq_bind, Option.bind_some]
  split
  · exact ⟨_, rfl⟩
  · exact ⟨_, rfl⟩

theorem freshRowid.list (hinv : HistoryInv s) (h : freshRowid s rowid) :
    ∀ r ∈ s.historyList, r.id ≠ rowid := by
  intro r hr
  obtain ⟨q, hq, hqr⟩ := hinv.agree.exists_mem hr
  have hid : q.id = r.id := observes_forgetTimestamp.id hqr
  exact hid ▸ h.2 q hq

/-- The oldest record of the list is the oldest row. -/
theorem oldest_rows {f : History → History} (hf : Observes f) {c : Int} {old : History}
    {l m : List History} (h : AgreeUpTo f l m) (hold : old ∈ l) (ho : Oldest c l old) :
    ∃ q ∈ m, q.id = old.id ∧ Oldest c m q := by
  obtain ⟨q, hq, hqold⟩ := h.exists_mem hold
  have hseq : q.seqid = old.seqid := hf.seqid hqold
  have hclass : q.collect = old.collect := hf.collect hqold
  refine ⟨q, hq, hf.id hqold, hclass.trans ho.1, ?_⟩
  intro r hr hrc
  obtain ⟨p, hp, hpr⟩ := h.symm.exists_mem hr
  have hpc : p.collect = r.collect := hf.collect hpr
  have hps : p.seqid = r.seqid := hf.seqid hpr
  have hle := ho.2 p hp (hpc.trans hrc)
  omega

/-- Deleting the oldest record of a full class and adding a row. -/
theorem gains_full {row old : History} {l l' : List History} (hn : (l.map (·.id)).Nodup)
    (hfull : maxHistory ≤ getHistoryCount l) (hold : old ∈ l) (ho : Oldest 0 l old)
    (hl' : l'.Perm (row :: deleteAt (·.id) old.id l)) : Gains row (some old.id) l l' := by
  obtain ⟨rest, hperm, -, hdel, -⟩ := exists_perm_cons hn hold
  refine ⟨hfull, old, hold, rfl, ho, ?_⟩
  rw [hdel] at hl'
  exact (hl'.cons old).trans ((List.Perm.swap row old rest).trans (hperm.cons row).symm)

/-- What making room leaves: nothing is changed, or the oldest uncollected record
of a full class is gone from both stores. -/
theorem makeRoom_gains {row : History} {l' rows' : List History} (hinv : OrderInv s)
    (hl' : l'.Perm (row :: (makeRoom s).historyList))
    (hrows' : rows' = (makeRoom s).history.rows ++ [row]) :
    ∃ gone, Gains row gone s.historyList l' ∧ Gains row gone s.history.rows rows' := by
  have hids := ids_nodup observes_forgetTimestamp hinv.agree
  have hcount : getHistoryCount s.historyList = getHistoryCount s.history.rows :=
    hinv.agree.countP fun r q hrq => by
      have hc : r.collect = q.collect := observes_forgetTimestamp.collect hrq
      simp only [hc]
  by_cases hfull : maxHistory ≤ getHistoryCount s.historyList
  · obtain ⟨r, hr, hr0, -⟩ := makeRoom_of_le (ids_pos observes_forgetTimestamp hinv.agree) hfull
    obtain ⟨old, hold, ho, hlast⟩ := lastHistoryId_oldest hinv.sorted ⟨r, hr, hr0⟩
    have hpos : 0 ≤ lastHistoryId 0 s.historyList := by
      rw [hlast]
      exact (ids_pos observes_forgetTimestamp hinv.agree old hold).le
    have hroom : makeRoom s = wrapperHistoryDeleteCb old.id s := by
      rw [makeRoom, if_pos hfull, if_pos hpos, hlast]
    rw [hroom] at hl' hrows'
    obtain ⟨q, hq, hqid, hqo⟩ := oldest_rows observes_forgetTimestamp hinv.agree hold ho
    refine ⟨some old.id, gains_full hids hfull hold ho hl', ?_⟩
    rw [← hqid]
    refine gains_full s.history.idNodup (hcount ▸ hfull) hq hqo ?_
    rw [hrows', hqid]
    exact List.perm_append_singleton _ _
  · rw [makeRoom_of_lt (not_le.mp hfull)] at hl' hrows'
    refine ⟨none, ⟨not_le.mp hfull, hl'⟩, hcount ▸ not_le.mp hfull, ?_⟩
    rw [hrows']
    exact List.perm_append_singleton _ _

theorem makeRoom_sublist (s : HistoryState) :
    (makeRoom s).historyList.Sublist s.historyList ∧
      (makeRoom s).history.rows.Sublist s.history.rows ∧
      (makeRoom s).gHistorySeqid = s.gHistorySeqid := by
  rcases makeRoom_cases s with hsame | ⟨id, hdelete⟩
  · rw [hsame]
    exact ⟨List.Sublist.refl _, List.Sublist.refl _, rfl⟩
  · rw [hdelete]
    exact ⟨deleteAt_sublist, deleteAt_sublist, rfl⟩

theorem insertHistory_recorded (hinv : OrderInv s) (hrow : freshRowid s rowid)
    (h0 : single.collect = 0)
    (hno : ∀ r ∈ s.historyList, r.collect ≠ 0 → sameDish r single = false) :
    ∃ s', insertHistory single now rowid s = some s' ∧
      DishRecorded (newRow single now rowid s) s s' := by
  have hnone : matchCollect { single with timestamp := now } s.historyList = none := by
    refine List.find?_eq_none.mpr fun r hr hstop => ?_
    simp only [stopsAt, Bool.and_eq_true, Bool.not_eq_true', beq_eq_false_iff_ne] at hstop
    have hdiff : sameDish r { single with timestamp := now } = false := hno r hr hstop.1
    rw [hdiff] at hstop
    cases hstop.2
  obtain ⟨hlist, hrows, hseq⟩ := makeRoom_sublist s
  have hfresh : freshRowid (makeRoom s) rowid := ⟨hrow.1, fun r hr => hrow.2 r (hrows.subset hr)⟩
  have hbound : SeqidBound (makeRoom s) := makeRoom_bound hinv.bound
  obtain ⟨s', hins⟩ := wrapperHistoryInsertCb_defined { single with timestamp := now } hfresh
  obtain ⟨hl', hrows', -⟩ := wrapperHistoryInsertCb_spec hbound hins
  have hrowEq : { single with
      seqid := (makeRoom s).gHistorySeqid + 1, id := rowid, timestamp := now } =
      newRow single now rowid s := by rw [hseq]; rfl
  rw [hrowEq] at hl' hrows'
  have hold : ∀ r ∈ s.historyList ++ s.history.rows,
      r.id ≠ rowid ∧ r.seqid < s.gHistorySeqid + 1 := by
    intro r hr
    rcases List.mem_append.mp hr with hr | hr
    · have hle := list_bound observes_forgetTimestamp hinv.agree hinv.bound r hr
      exact ⟨hrow.list hinv.toHistoryInv r hr, by omega⟩
    · have hle := hinv.bound r hr
      exact ⟨hrow.2 r hr, by omega⟩
  have hperm : s'.historyList.Perm (newRow single now rowid s :: (makeRoom s).historyList) := by
    rw [hl']
    exact sortHistory_perm _
  refine ⟨s', ?_, hold, makeRoom_gains hinv hperm hrows', ?_⟩
  · rw [insertHistory, compareHistoryCollect_none hnone]
    exact hins
  · have hflagged : Flagged (newRow single now rowid s :: (makeRoom s).historyList) := by
      intro r hr
      rcases List.mem_cons.mp hr with rfl | hr
      · exact Or.inl h0
      · exact hinv.flagged r (hlist.subset hr)
    have hsorted : Sorted s'.historyList := hl' ▸ sortHistory_sorted hflagged
    have hhead := head_of_newest hsorted (hperm.symm.subset List.mem_cons_self) ?_
    · have hclass : (newRow single now rowid s).collect = 0 := h0
      rw [hclass] at hhead
      exact hhead
    · intro r hr hne
      have hr' := (List.mem_cons.mp (hperm.subset hr)).resolve_left hne
      exact (hold r (List.mem_append_left _ (hlist.subset hr'))).2

end

/-- **A new dish.**  In every history reached with flags 0 and 1, recording an
uncollected dish of which no collected record is there adds it to both stores,
as the newest and the first of the uncollected records, and removes the oldest of
them where there were 40. -/
theorem new_dish_recorded {history : Table} {recipe : RecipeTable} {out : List Report}
    {cmds : List HistoryCmd} {s : HistoryState} {single : History} {now rowid : Int}
    (hflags : Flagged history.rows) (hcmds : ∀ cmd ∈ cmds, FlagCmd cmd)
    (hrun : historyMachine.run (databaseTaskInit history recipe out) cmds = some s)
    (hrow : freshRowid s rowid) (h0 : single.collect = 0)
    (hno : ∀ r ∈ s.historyList, r.collect ≠ 0 → sameDish r single = false) :
    ∃ s', insertHistory single now rowid s = some s' ∧
      DishRecorded (newRow single now rowid s) s s' :=
  insertHistory_recorded (orderInv_run hflags hcmds hrun) hrow h0 hno

/-- A first dish is in the history; another is cooked. -/
theorem new_dish_recorded_second :
    ∃ s', insertHistory { History.zero with dishName := cstr "soup" } 9 2
        (exampleHistory [.cook (exampleCook 100) 5 1]) = some s' ∧
      DishRecorded (newRow { History.zero with dishName := cstr "soup" } 9 2
        (exampleHistory [.cook (exampleCook 100) 5 1]))
        (exampleHistory [.cook (exampleCook 100) 5 1]) s' := by
  have hrun := @exampleHistory_run [.cook (exampleCook 100) 5 1] (by decide +kernel)
  refine new_dish_recorded (fun _ h => absurd h List.not_mem_nil) ?_ hrun ?_ rfl ?_
  · intro cmd hcmd
    obtain rfl := List.mem_singleton.mp hcmd
    trivial
  · decide +kernel
  · decide +kernel

/-! ## A favourite -/

/-- `l'` is `l` with the time and a new largest seqid for its record `id`. -/
def Renewed (id now : Int) (l l' : List History) : Prop :=
  ∃ r r' rest, l.Perm (r :: rest) ∧ l'.Perm (r' :: rest) ∧ r.id = id ∧ r'.id = id ∧
    r'.collect = r.collect ∧ r'.timestamp = now ∧ ∀ q ∈ rest, q.seqid < r'.seqid

/-- What cooking the favourite `r` again is to do. -/
structure Refreshed (r : History) (now : Int) (s s' : HistoryState) : Prop where
  list : Renewed r.id now s.historyList s'.historyList
  rows : Renewed r.id now s.history.rows s'.history.rows
  first : ∃ r', s'.historyList.head? = some r' ∧ r'.id = r.id

/-- A collected record of the same dish. -/
def Favourite (single : History) (s : HistoryState) (r : History) : Prop :=
  r ∈ s.historyList ∧ r.collect ≠ 0 ∧ sameDish r single = true

section

variable {s s' : HistoryState} {single r : History} {now rowid : Int}

/-- The search stops at it, whatever the time. -/
theorem Favourite.stopsAt (hr : Favourite single s r) :
    X50.stopsAt { single with timestamp := now } r = true := by
  simp only [X50.stopsAt, Bool.and_eq_true, Bool.not_eq_true', beq_eq_false_iff_ne]
  exact hr.2

/-- `insertHistory` finds the first of the favourites, stamps it where it stands, and
updates nothing. -/
theorem insertHistory_favourite (hinv : SortInv s) (hr : Favourite single s r) :
    ∃ m pre post s', s.historyList = pre ++ m :: post ∧
      matchCollect { single with timestamp := now } s.historyList = some m ∧
      insertHistory single now rowid s = some s' ∧
      s'.historyList = pre ++ { m with timestamp := now } :: post ∧
      s'.history.rows = s.history.rows := by
  have hsome : (matchCollect { single with timestamp := now } s.historyList).isSome :=
    List.find?_isSome.mpr ⟨r, hr.1, hr.stopsAt⟩
  obtain ⟨m, hm⟩ := Option.isSome_iff_exists.mp hsome
  obtain ⟨pre, post, hl, hcmp⟩ := compareHistoryCollect_some hm
  obtain ⟨hlist, hrows⟩ := stamped_update now hinv.toHistoryInv hl
  have hid : 0 ≤ m.id :=
    (ids_pos observes_forgetTimestamp hinv.agree m (matchCollect_some hm).1).le
  -- the order of the list does not look at the time
  have harranged : (pre ++ { m with timestamp := now } :: post).Pairwise recipeLe := by
    have hsame : (pre ++ { m with timestamp := now } :: post).map forgetTimestamp =
        s.historyList.map forgetTimestamp := by
      rw [hl, List.map_append, List.map_append, List.map_cons, List.map_cons]
      rfl
    rw [← pairwise_forgetTimestamp, hsame, pairwise_forgetTimestamp]
    exact hinv.arranged
  refine ⟨m, pre, post, _, hl, hm, ?_, hlist.trans (sortHistory_of_pairwise harranged), hrows⟩
  rw [insertHistory, hcmp]
  exact if_pos hid

/-- A favourite that is the first of the list is the one found. -/
theorem favourite_found {m : History} (hr : Favourite single s r)
    (hfirst : s.historyList.head? = some r)
    (hm : matchCollect { single with timestamp := now } s.historyList = some m) : r = m := by
  obtain ⟨tail, htail⟩ := List.head?_eq_some_iff.mp hfirst
  rw [htail, matchCollect_cons, if_pos hr.stopsAt] at hm
  exact Option.some.inj hm

/-- A record that is the newest of one store is that of the other. -/
theorem newest_agree {l l' : List History} {q : History} (hagree : AgreeUpTo forgetTimestamp l l')
    (hn : (l.map (·.id)).Nodup) (hn' : (l'.map (·.id)).Nodup) (hr : r ∈ l) (hq : q ∈ l')
    (hid : q.id = r.id) (hnew : ∀ p ∈ l, p ≠ r → p.seqid < r.seqid) :
    ∀ p ∈ l', p ≠ q → p.seqid < q.seqid := by
  intro p hp hne
  obtain ⟨p', hp', hpp'⟩ := hagree.symm.exists_mem hp
  obtain ⟨q', hq', hqq'⟩ := hagree.symm.exists_mem hq
  have hp'id : p'.id = p.id := observes_forgetTimestamp.id hpp'
  have hq'id : q'.id = q.id := observes_forgetTimestamp.id hqq'
  have hqr : q' = r := List.inj_on_of_nodup_map hn hq' hr (hq'id.trans hid)
  have hpr : p' ≠ r := by
    intro hpr
    refine hne (List.inj_on_of_nodup_map hn' hp hq ?_)
    show p.id = q.id
    rw [← hp'id, hpr, hid]
  have hseqp : p'.seqid = p.seqid := observes_forgetTimestamp.seqid hpp'
  have hseqq : q'.seqid = q.seqid := observes_forgetTimestamp.seqid hqq'
  have hlt := hnew p' hp' hpr
  rw [hqr] at hseqq
  omega

/-- A store that is left as it was is renewed if the record has the time and the
largest seqid already. -/
theorem renewed_self_iff {l : List History} {id now : Int} (hn : (l.map (·.id)).Nodup) :
    Renewed id now l l ↔
      ∃ r ∈ l, r.id = id ∧ r.timestamp = now ∧ ∀ q ∈ l, q ≠ r → q.seqid < r.seqid := by
  constructor
  · rintro ⟨r, r', rest, hl, hl', hid, hid', -, hnow, hlt⟩
    have hr' : r' ∈ l := hl'.symm.subset List.mem_cons_self
    refine ⟨r', hr', hid', hnow, fun q hq hne => hlt q ?_⟩
    exact (List.mem_cons.mp (hl'.subset hq)).resolve_left hne
  · rintro ⟨r, hr, rfl, hnow, hlt⟩
    obtain ⟨rest, hl, hne, -, -⟩ := exists_perm_cons hn hr
    refine ⟨r, r, rest, hl, hl, rfl, rfl, rfl, hnow, fun q hq => ?_⟩
    exact hlt q (hl.symm.subset (List.mem_cons_of_mem _ hq)) fun h => hne q hq (h ▸ rfl)

end

/-- **A favourite.**  In every history reached, cooking a dish of which a collected
record is there refreshes such a record in both stores exactly when nothing is left
to refresh: it is the first of the list and has the largest seqid, and its row the
time. -/
theorem favourite_refreshed_iff {history : Table} {recipe : RecipeTable} {out : List Report}
    {cmds : List HistoryCmd} {s₀ s : HistoryState} {single : History} {now rowid : Int}
    (hstart : sortedInit history recipe out = some s₀)
    (hrun : sortedMachine.run s₀ cmds = some s) (hmatch : ∃ r, Favourite single s r) :
    (∃ s', insertHistory single now rowid s = some s' ∧
      ∃ r, Favourite single s r ∧ Refreshed r now s s') ↔
    ∃ r, Favourite single s r ∧ s.historyList.head? = some r ∧
      (∀ q ∈ s.historyList, q ≠ r → q.seqid < r.seqid) ∧
      ∃ q ∈ s.history.rows, q.id = r.id ∧ q.timestamp = now := by
  have hinv : SortInv s := sortInv_run hstart hrun
  have hids := ids_nodup observes_forgetTimestamp hinv.agree
  obtain ⟨r₀, hr₀⟩ := hmatch
  obtain ⟨m, pre, post, t, hl, hm, ht, hlist, hrows⟩ :=
    @insertHistory_favourite s single r₀ now rowid hinv hr₀
  have hhead : t.historyList.head?.map (·.id) = s.historyList.head?.map (·.id) := by
    rw [← List.head?_map, ← List.head?_map, hlist, hl]
    simp
  constructor
  · rintro ⟨s', hs', r, hr, hrefreshed⟩
    obtain rfl : t = s' := Option.some.inj (ht.symm.trans hs')
    have hself := hrefreshed.rows
    rw [hrows, renewed_self_iff s.history.idNodup] at hself
    obtain ⟨q, hq, hqid, hqnow, hqlt⟩ := hself
    refine ⟨r, hr, ?_, ?_, q, hq, hqid, hqnow⟩
    · obtain ⟨r', hr', hid⟩ := hrefreshed.first
      rw [hr', Option.map_some] at hhead
      obtain ⟨p, hp, hpid⟩ := Option.map_eq_some_iff.mp hhead.symm
      rw [hp, List.inj_on_of_nodup_map hids (List.mem_of_head? hp) hr.1 (hpid.trans hid)]
    · exact newest_agree hinv.agree.symm s.history.idNodup hids hq hr.1 hqid.symm hqlt
  · rintro ⟨r, hr, hfirst, hnew, q, hq, hqid, hqnow⟩
    refine ⟨t, ht, r, hr, ?_⟩
    obtain rfl : r = m := favourite_found hr hfirst hm
    have hperm : s.historyList.Perm (r :: (pre ++ post)) := hl ▸ List.perm_middle
    have hperm' : t.historyList.Perm ({ r with timestamp := now } :: (pre ++ post)) :=
      hlist ▸ List.perm_middle
    have hrest : ∀ p ∈ pre ++ post, p.seqid < r.seqid := by
      intro p hp
      refine hnew p (hperm.symm.subset (List.mem_cons_of_mem _ hp)) ?_
      rintro rfl
      have hn := ((hperm.map (·.id)).nodup_iff).mp hids
      exact (List.nodup_cons.mp hn).1 (List.mem_map_of_mem hp)
    refine ⟨⟨r, _, _, hperm, hperm', rfl, rfl, rfl, rfl, hrest⟩, ?_, ?_⟩
    · rw [hrows, renewed_self_iff s.history.idNodup]
      refine ⟨q, hq, hqid, hqnow, ?_⟩
      exact newest_agree hinv.agree hids s.history.idNodup hr.1 hq hqid hnew
    · rw [hfirst, Option.map_some] at hhead
      exact Option.map_eq_some_iff.mp hhead

/-- Cooked, collected, and cooked again within one second. -/
def exampleSame : List HistoryCmd :=
  [.cook (exampleCook 120) 4 1, .cook (exampleCook 100) 5 2, .update (exampleCollect 2 2)]

/-- The state it leads to. -/
def exampleFavourite : HistoryState :=
  (sortedMachine.run (databaseTaskInit Table.empty noRecipes []) exampleSame).getD
    (databaseTaskInit Table.empty noRecipes [])

/-- The dish collected. -/
def exampleDish : History := exampleFavourite.historyList.headI

theorem exampleFavourite_run :
    sortedMachine.run (databaseTaskInit Table.empty noRecipes []) exampleSame =
      some exampleFavourite := by
  have hsome : (sortedMachine.run (databaseTaskInit Table.empty noRecipes [])
      exampleSame).isSome = true := by decide +kernel
  obtain ⟨s, hs⟩ := Option.isSome_iff_exists.mp hsome
  rw [exampleFavourite, hs, Option.getD_some]

theorem exampleDish_favourite : Favourite exampleDish exampleFavourite exampleDish :=
  ⟨by decide +kernel, by decide +kernel, by decide +kernel⟩

theorem favourite_refreshed_same :
    ∃ s', insertHistory exampleDish 5 2 exampleFavourite = some s' ∧
      ∃ r, Favourite exampleDish exampleFavourite r ∧ Refreshed r 5 exampleFavourite s' := by
  refine (favourite_refreshed_iff sortedInit_empty exampleFavourite_run
    ⟨_, exampleDish_favourite⟩).mpr ⟨_, exampleDish_favourite, ?_⟩
  exact ⟨by decide +kernel, by decide +kernel, by decide +kernel⟩

/-- Four seconds later the row keeps the old time. -/
theorem favourite_not_refreshed :
    sortedMachine.run (databaseTaskInit Table.empty noRecipes []) exampleSame =
        some exampleFavourite ∧
      Favourite exampleDish exampleFavourite exampleDish ∧
      ¬ ∃ s', insertHistory exampleDish 9 3 exampleFavourite = some s' ∧
        ∃ r, Favourite exampleDish exampleFavourite r ∧ Refreshed r 9 exampleFavourite s' := by
  refine ⟨exampleFavourite_run, exampleDish_favourite, ?_⟩
  rintro ⟨s', hs', r, -, hrefreshed⟩
  obtain ⟨-, r', rest, -, hperm, -, -, -, hnow, -⟩ := hrefreshed.rows
  have hrows : ((insertHistory exampleDish 9 3 exampleFavourite).map
      fun t => t.history.rows.all fun q => decide (q.timestamp ≤ 5)) = some true := by
    decide +kernel
  rw [hs', Option.map_some, Option.some.injEq] at hrows
  have hfive := List.all_eq_true.mp hrows r' (hperm.symm.subset List.mem_cons_self)
  rw [decide_eq_true_eq] at hfive
  omega

end X50
