/-
# `X50.HistorySort` — the sorts the program has a result for

`sortHistory` calls `std::list::sort`, which asks of `recipes_t::operator<` that it be
a strict weak order.  It is none where two records have different flags that are both
positive: of these each comes before the other.  `UpdateHistory` takes any number for a
flag, so a client can bring such a list about; what the sort makes of it the program
does not say.

`sortedMachine` is the history with these steps left out.  Each command sorts at most
once, as the last thing it does to the list, so the list it leaves tells whether the
sort was one.  With flags 0 and 1 nothing is left out (`sortedMachine_step_of_flags`),
and in every state of its runs the list is arranged by `operator<`.
-/
import X50.HistoryOrder
import X50.Lib.Sorting

namespace X50

open X50.Lib

/-- `operator<` is a strict weak order on these records. -/
def SortDefined (l : List History) : Prop := StrictWeakOn recipeLt l

instance : DecidablePred SortDefined := fun _ => inferInstanceAs (Decidable (StrictWeakOn _ _))

/-- The history, where every list that is sorted can be. -/
def sortedMachine : Machine HistoryState HistoryCmd where
  step s cmd := (historyMachine.step s cmd).filter fun s' => decide (SortDefined s'.historyList)

/-- `database_task_init`, over rows that can be sorted. -/
def sortedInit (history : Table) (recipe : RecipeTable) (out : List Report) :
    Option HistoryState :=
  (some (databaseTaskInit history recipe out)).filter fun s => decide (SortDefined s.historyList)

section

variable {l m : List History} {s s' : HistoryState} {cmd : HistoryCmd}

theorem SortDefined.of_perm (h : SortDefined l) (hp : m.Perm l) : SortDefined m :=
  h.subset hp.subset

/-- Among flags that are not negative, those above 0 have to be the same. -/
theorem sortDefined_iff (hl : ∀ r ∈ l, 0 ≤ r.collect) :
    SortDefined l ↔
      ∀ a ∈ l, ∀ b ∈ l, 0 < a.collect → 0 < b.collect → a.collect = b.collect := by
  rw [SortDefined, strictWeakOn_iff]
  constructor
  · rintro ⟨hasymm, -⟩ a ha b hb ha0 hb0
    by_contra hne
    have hboth := hasymm a ha b hb
    simp [recipeLt, hne, Ne.symm hne, ha0, hb0] at hboth
  · intro h
    constructor
    · intro a ha b hb hab
      have hsame := h a ha b hb
      simp only [recipeLt] at hab ⊢
      split at hab
      · next hc =>
        simp only [hc, if_true, decide_eq_true_eq, decide_eq_false_iff_not] at hab ⊢
        omega
      · next hc =>
        simp only [Ne.symm hc, if_false, decide_eq_true_eq, decide_eq_false_iff_not] at hab ⊢
        exact fun hb0 => hc (hsame hab hb0)
    · intro a ha b hb hab c hc
      have hac := h a ha c hc
      have hc0 := hl c hc
      have hb0 := hl b hb
      simp only [recipeLt] at hab ⊢
      split at hab <;> split <;> split <;> simp only [decide_eq_true_eq] at hab ⊢ <;> omega

theorem sortDefined_of_flagged (hl : Flagged l) : SortDefined l := by
  refine (sortDefined_iff fun r hr => ?_).mpr fun a ha b hb ha0 hb0 => ?_
  · rcases hl r hr with h | h
    · exact h.ge
    · exact h ▸ Int.one_nonneg
  · have hflag := hl a ha
    have hflag' := hl b hb
    unfold IsFlag at hflag hflag'
    omega

/-- While the flags are 0 and 1 nothing is left out. -/
theorem sortedMachine_step_of_flags (hcmd : FlagCmd cmd) (hinv : OrderInv s) :
    sortedMachine.step s cmd = historyMachine.step s cmd := by
  simp only [sortedMachine]
  cases h : historyMachine.step s cmd with
  | none => rfl
  | some s' =>
      have hdefined := sortDefined_of_flagged (orderInv_step hcmd hinv h).flagged
      rw [Option.filter_some, if_pos (decide_eq_true hdefined)]

theorem pairwise_sortHistory (h : SortDefined l) : (sortHistory l).Pairwise recipeLe :=
  h.pairwise_insertionSort

/-- A list that is arranged is left as it is. -/
theorem sortHistory_of_pairwise (h : l.Pairwise recipeLe) : sortHistory l = l :=
  h.insertionSort_eq

/-- The order does not look at the time. -/
theorem pairwise_forgetTimestamp :
    (l.map forgetTimestamp).Pairwise recipeLe ↔ l.Pairwise recipeLe :=
  List.pairwise_map

theorem sortedMachine_step :
    sortedMachine.step s cmd = some s' ↔
      historyMachine.step s cmd = some s' ∧ SortDefined s'.historyList := by
  simp only [sortedMachine, Option.filter_eq_some_iff, decide_eq_true_eq]

/-! ## The invariant -/

/-- The list can be sorted, and is. -/
structure SortInv (s : HistoryState) : Prop extends HistoryInv s where
  defined : SortDefined s.historyList
  arranged : s.historyList.Pairwise recipeLe

/-- A command takes records out of the list, or ends with a sort. -/
theorem step_list (hinv : HistoryInv s) (h : historyMachine.step s cmd = some s') :
    s'.historyList.Sublist s.historyList ∨ ∃ l, s'.historyList = sortHistory l := by
  cases cmd with
  | cook root now rowid =>
      simp only [historyMachine] at h
      split at h
      · rcases cookHistory_cases h with ⟨-, rfl⟩ | ⟨recipe, -, -, hins⟩
        · exact Or.inl (List.Sublist.refl _)
        · refine Or.inr ?_
          rcases insertHistory_cases (ids_pos observes_forgetTimestamp hinv.agree) hins with
            ⟨r, pre, post, -, -, rfl⟩ | ⟨-, hins⟩
          · exact ⟨_, rfl⟩
          · exact ⟨_, (wrapperHistoryInsertCb_spec (makeRoom_bound hinv.bound) hins).1⟩
      · cases h
  | update item =>
      rcases updateHistoryCb_cases h with ⟨rfl, -⟩ | ⟨id, single, iter, -, -, -, rfl⟩
      · exact Or.inl (List.Sublist.refl _)
      · exact Or.inr ⟨_, rfl⟩
  | delete item =>
      obtain rfl := Option.some.inj h
      have hdel : (deleteHistoryCb item s).1.historyList.Sublist s.historyList :=
        deleteHistoryCb_keeps (I := fun t => t.historyList.Sublist s.historyList)
          (fun _ _ ht => deleteAt_sublist.trans ht) item (List.Sublist.refl _)
      refine Or.inl ?_
      simp only [deleteAndReport]
      split
      · exact hdel
      · exact hdel
  | reset =>
      obtain rfl := Option.some.inj h
      exact Or.inl (List.nil_sublist _)
  | restart =>
      obtain rfl := Option.some.inj h
      exact Or.inr ⟨_, historyList_databaseTaskInit _ _ _⟩

theorem sortInv_step (hinv : SortInv s) (h : sortedMachine.step s cmd = some s') : SortInv s' where
  toHistoryInv := historyInv_step hinv.toHistoryInv (sortedMachine_step.mp h).1
  defined := (sortedMachine_step.mp h).2
  arranged := by
    obtain ⟨hstep, hdefined⟩ := sortedMachine_step.mp h
    rcases step_list hinv.toHistoryInv hstep with hsub | ⟨l, hl⟩
    · exact hinv.arranged.sublist hsub
    · rw [hl] at hdefined ⊢
      exact pairwise_sortHistory (hdefined.of_perm (sortHistory_perm l).symm)

theorem sortedInit_eq_some {history : Table} {recipe : RecipeTable} {out : List Report} :
    sortedInit history recipe out = some s ↔
      s = databaseTaskInit history recipe out ∧ SortDefined s.historyList := by
  simp only [sortedInit, Option.filter_eq_some_iff, decide_eq_true_eq, Option.some.injEq]
  constructor
  · exact fun h => ⟨h.1.symm, h.2⟩
  · exact fun h => ⟨h.1.symm, h.2⟩

theorem sortInv_init {history : Table} {recipe : RecipeTable} {out : List Report}
    (h : sortedInit history recipe out = some s) : SortInv s := by
  obtain ⟨rfl, hdefined⟩ := sortedInit_eq_some.mp h
  refine ⟨historyInv_init history recipe out, hdefined, ?_⟩
  rw [historyList_databaseTaskInit] at hdefined ⊢
  exact pairwise_sortHistory (hdefined.of_perm (sortHistory_perm _).symm)

theorem sortInv_run {history : Table} {recipe : RecipeTable} {out : List Report}
    {cmds : List HistoryCmd} {s₀ : HistoryState} (hstart : sortedInit history recipe out = some s₀)
    (h : sortedMachine.run s₀ cmds = some s) : SortInv s :=
  Machine.run_invariant (V := fun _ => True) (fun _ _ _ _ hinv hstep => sortInv_step hinv hstep)
    (fun _ _ => trivial) (sortInv_init hstart) h

/-! ## What a restart loads -/

/-- No flag of either store is negative. -/
structure FlagsNonneg (s : HistoryState) : Prop where
  list : ∀ r ∈ s.historyList, 0 ≤ r.collect
  rows : ∀ r ∈ s.history.rows, 0 ≤ r.collect

/-- The program writes no negative flag: a record is inserted with flag 0, and an
update with a negative one keeps the flag there is. -/
theorem flagsNonneg_step (hinv : HistoryInv s) (hn : FlagsNonneg s)
    (h : historyMachine.step s cmd = some s') : FlagsNonneg s' := by
  have hkeep := (step_changes (ids_pos observes_forgetTimestamp hinv.agree) h).keeps
    (P := fun s => SeqidBound s ∧ FlagsNonneg s) ?_ ⟨hinv.bound, hn⟩
  · exact hkeep.2
  · rintro c t t' hc hdoes ⟨hb, hn⟩
    have hall := does_forall (P := fun r => 0 ≤ r.collect) hb hdoes ?_ ?_
      (fun _ _ hq => hq) hn.list hn.rows
    · exact ⟨does_bound hb hdoes, hall.1, hall.2⟩
    · rintro single - q seqid hq
      simp only [overwrite]
      split
      · assumption
      · exact hq
    · rintro single rfl id seqid -
      have hzero : single.collect = 0 := hc
      exact hzero.ge

theorem flagsNonneg_init {history : Table} (hflags : ∀ r ∈ history.rows, 0 ≤ r.collect)
    (recipe : RecipeTable) (out : List Report) :
    FlagsNonneg (databaseTaskInit history recipe out) where
  list := fun r hr => hflags r ((databaseTaskInit_perm _ _ _).subset hr)
  rows := by
    rw [history_databaseTaskInit]
    exact hflags

/-- Without negative flags, two arrangements of the same records are one. -/
theorem eq_of_perm_of_arranged (hn : (l.map (·.seqid)).Nodup) (hflags : ∀ r ∈ l, 0 ≤ r.collect)
    (hp : l.Perm m) (hl : l.Pairwise recipeLe) (hm : m.Pairwise recipeLe) : l = m := by
  refine List.Perm.eq_of_pairwise ?_ hl hm hp
  intro a b ha hb hab hba
  have hb := hp.symm.subset hb
  have ha0 := hflags a ha
  have hb0 := hflags b hb
  refine List.inj_on_of_nodup_map hn ha hb ?_
  unfold recipeLe recipeLt at hab hba
  split at hab
  · next hc =>
    simp only [hc, decide_eq_false_iff_not, if_true] at hab hba
    show a.seqid = b.seqid
    omega
  · next hc =>
    simp only [Ne.symm hc, decide_eq_false_iff_not, if_false] at hab hba
    omega

/-- A list with the records of the table is the list a restart loads. -/
theorem restart_historyList (hinv : SortInv s) (hn : FlagsNonneg s)
    (hp : s.historyList.Perm s.history.rows) : (restart s).historyList = s.historyList := by
  have hload : (restart s).historyList.Perm s.history.rows := databaseTaskInit_perm _ _ _
  refine (eq_of_perm_of_arranged (seqids_nodup hinv.toHistoryInv) hn.list (hp.trans hload.symm)
    hinv.arranged ?_).symm
  have hlist : (restart s).historyList = sortHistory s.history.rows.reverse :=
    historyList_databaseTaskInit _ _ _
  rw [hlist]
  exact pairwise_sortHistory (hinv.defined.of_perm ((List.reverse_perm _).trans hp.symm))

end

end X50
