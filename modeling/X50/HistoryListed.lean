/-
# `X50.HistoryListed` — the history is always listed in order

`selectHistory` hands out the list as it stands; nothing sorts it then.  So the
list must be in order after every operation:

    loading      inserts unsorted, and sorts once at the end
    commands     sort after an insert or an update; a deletion leaves the order,
                 and a stamp changes no key (`X50.HistoryOrder`)
    a report     may put a recipe into the list, through a callback that sorts

The records of the list need not be those of the table for this: `ListInv` says
no more of them than a report keeps.
-/
import X50.HistoryMirror
import X50.HistorySeqid

namespace X50

open X50.Lib

/-- What `selectHistory` visits: the collected records, then the others, and each
of the two groups by seqid, the newest first. -/
def Listed (s : HistoryState) : Prop :=
  ∃ favourites others,
    (∀ simple, selectHistory simple s.historyList =
      .array ((favourites ++ others).map (wrapperHistroySelectCb simple))) ∧
    s.historyList = favourites ++ others ∧
    (∀ r ∈ favourites, r.collect ≠ 0) ∧ (∀ r ∈ others, r.collect = 0) ∧
    favourites.Pairwise (fun a b => a.seqid ≥ b.seqid) ∧
    others.Pairwise (fun a b => a.seqid ≥ b.seqid)

section

variable {l : List History}

/-- A sorted list is the collected records and then the others. -/
theorem sorted_split (hl : Sorted l) (hf : Flagged l) :
    ∃ favourites others, l = favourites ++ others ∧ (∀ r ∈ favourites, r.collect = 1) ∧
      ∀ r ∈ others, r.collect = 0 := by
  induction l with
  | nil => exact ⟨[], [], rfl, fun r hr => absurd hr List.not_mem_nil,
      fun r hr => absurd hr List.not_mem_nil⟩
  | cons q qs ih =>
      obtain ⟨hq, hqs⟩ := List.pairwise_cons.mp (List.pairwise_map.mp hl)
      rcases hf q List.mem_cons_self with hc | hc
      · -- an uncollected record: nothing behind it is collected
        refine ⟨[], q :: qs, rfl, fun r hr => absurd hr List.not_mem_nil, fun r hr => ?_⟩
        rcases List.mem_cons.mp hr with rfl | hmem
        · exact hc
        · have hrank := rank_le_iff.mp (hq r hmem)
          have hflag := hf r hr
          unfold IsFlag at hflag
          omega
      · obtain ⟨favourites, others, rfl, hfav, hoth⟩ :=
          ih (List.pairwise_map.mpr hqs) fun r hr => hf r (List.mem_cons_of_mem _ hr)
        refine ⟨q :: favourites, others, rfl, fun r hr => ?_, hoth⟩
        rcases List.mem_cons.mp hr with rfl | hr
        · exact hc
        · exact hfav r hr

/-- Records of one class stand in the order of their seqids. -/
theorem sorted_class {c : Int} {m : List History} (hl : Sorted l) (hsub : m.Sublist l)
    (hc : ∀ r ∈ m, r.collect = c) : m.Pairwise fun a b => a.seqid ≥ b.seqid := by
  have hm : m.Pairwise fun a b => rank a ≥ rank b := List.pairwise_map.mp (hl.sublist (hsub.map rank))
  refine hm.imp_of_mem fun {a b} ha hb hab => ?_
  have hrank := rank_le_iff.mp hab
  have hca := hc a ha
  have hcb := hc b hb
  omega

end

section

variable {s : HistoryState}

theorem ListInv.listed (hinv : ListInv s) : Listed s := by
  obtain ⟨favourites, others, hl, hfav, hoth⟩ := sorted_split hinv.sorted hinv.flagged
  have hsub := hl ▸ List.sublist_append_left favourites others
  have hsub' := hl ▸ List.sublist_append_right favourites others
  refine ⟨favourites, others, fun simple => by rw [hl]; rfl, hl, fun r hr => ?_, hoth,
    sorted_class hinv.sorted hsub hfav, sorted_class hinv.sorted hsub' hoth⟩
  have hone := hfav r hr
  omega

/-- The callback of a lookup sorts what it inserts. -/
theorem listInv_select {r : History} {item : List (CStr × CJson)} (hinv : ListInv s)
    (hr : r ∈ s.recipe.rows) : ListInv (histroySelectSeqidFunc r s item).1 where
  bound := fun q hq => by
    have hle := hinv.bound q hq
    show q.seqid ≤ if s.gHistorySeqid < r.seqid then r.seqid else s.gHistorySeqid
    split
    · omega
    · exact hle
  idPos := by
    intro q hq
    rcases List.mem_cons.mp ((sortHistory_perm _).subset hq) with rfl | hq
    · exact s.recipe.idPos q hr
    · exact hinv.idPos q hq
  flagged := by
    intro q hq
    rcases List.mem_cons.mp ((sortHistory_perm _).subset hq) with rfl | hq
    · exact Or.inl (s.recipe.collectZero q hr)
    · exact hinv.flagged q hq
  rowsFlagged := hinv.rowsFlagged
  sorted := by
    refine sortHistory_sorted fun q hq => ?_
    rcases List.mem_cons.mp hq with rfl | hq
    · exact Or.inl (s.recipe.collectZero q hr)
    · exact hinv.flagged q hq

theorem reportKeeps_listInv : ReportKeeps ListInv where
  out := fun _ _ hs => ⟨hs.bound, hs.idPos, hs.flagged, hs.rowsFlagged, hs.sorted⟩
  select := fun _ _ hr _ hs => listInv_select hs hr

theorem listInv_restart (hinv : ListInv s) : ListInv (restart s) :=
  does_listInv hinv (.restart s) trivial

end

/-- Commands whose flags are 0 and 1. -/
def FlagBoardCmd : BoardCmd → Prop
  | .history cmd => FlagCmd cmd
  | _ => True

theorem boardMachine_listInv {b b' : Board} {cmd : BoardCmd} (hcmd : FlagBoardCmd cmd)
    (hinv : ListInv b.db) (h : boardMachine.step b cmd = some b') : ListInv b'.db := by
  cases cmd with
  | history cmd =>
      obtain ⟨db, hdb, rfl⟩ := Option.map_eq_some_iff.mp h
      exact listInv_step hcmd hinv hdb
  | report call => exact reportKeeps_listInv.reportCall hinv h
  | boot dev =>
      obtain rfl := Option.some.inj h
      exact listInv_restart hinv

/-- **The order of the history.**  Through any cook commands, updates with flags 0
and 1, deletions, Resets, restarts and reports, `selectHistory` visits the collected
records before the others, and each group newest first. -/
theorem history_listed_in_order (b : Board) (history : Table) (recipe : RecipeTable)
    (out : List Report) (cmds : List BoardCmd) (hflags : Flagged history.rows)
    (hcmds : ∀ cmd ∈ cmds, FlagBoardCmd cmd) :
    boardMachine.Along (fun b => Listed b.db)
      { b with db := databaseTaskInit history recipe out } cmds := by
  have hinv : boardMachine.Along (fun b => ListInv b.db)
      { b with db := databaseTaskInit history recipe out } cmds :=
    Machine.along_of_invariant (fun _ _ _ hcmd hinv h => boardMachine_listInv hcmd hinv h) hcmds
      (orderInv_init hflags recipe out).listInv
  exact hinv.mono fun b hb => hb.listed

/-- A dish cooked and collected, another cooked, and a recipe looked up. -/
theorem history_listed_lookup :
    boardMachine.Along (fun b => Listed b.db) (cookbookBoard oneRecipe)
      [.history (.cook (exampleCook 100) 5 1), .history (.update (exampleCollect 1 1)),
        .history (.cook (exampleCook 120) 6 2), .report (.sendData cookbookPayload 5)] := by
  refine history_listed_in_order (cookbookBoard oneRecipe) Table.empty oneRecipe [] _
    (fun _ h => absurd h List.not_mem_nil) fun cmd hcmd => ?_
  simp only [List.mem_cons, List.not_mem_nil, or_false] at hcmd
  rcases hcmd with rfl | rfl | rfl | rfl
  · trivial
  · exact exampleCollect_flag (Or.inr rfl)
  · trivial
  · trivial

end X50
