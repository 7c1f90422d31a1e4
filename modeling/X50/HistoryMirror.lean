/-
# `X50.HistoryMirror` — list and table hold the same records

`Mirrored`: the records of `historyList` are the rows of the `history` table,
field by field.  A list just loaded is mirrored, and every change but a stamp
keeps it so (`does_agree`, with everything observed).  A stamp comes from a
cook command that finds a collected record of the same dish:
`compareHistoryCollect` writes the time into the list, and the callback that
follows is handed a record without an id, so no row is written.

    cook, collect, cook again      list 9, table 5
    restart                        the client sees 5

So a run is mirrored exactly when no step stamps a record with a time it does
not have already.
-/
import X50.HistorySort

namespace X50

open X50.Lib

/-- The list holds the rows. -/
def Mirrored (s : HistoryState) : Prop := s.historyList.Perm s.history.rows

instance (s : HistoryState) : Decidable (Mirrored s) :=
  inferInstanceAs (Decidable (List.Perm _ _))

/-- A restart changes no answer to a client. -/
def RestartInvisible (s : HistoryState) : Prop :=
  ∀ root, databaseRespGet root (restart s) = databaseRespGet root s

/-- The command finds no collected record to stamp with another time. -/
def KeepsTimestamp (s : HistoryState) : HistoryCmd → Prop
  | .cook root now _ => ∀ r, cookMatch s root now = some r → r.timestamp = now
  | _ => True

instance (s : HistoryState) : DecidablePred (KeepsTimestamp s)
  | .cook root now _ =>
      inferInstanceAs (Decidable (∀ r ∈ cookMatch s root now, r.timestamp = now))
  | .update _ | .delete _ | .reset | .restart => isTrue trivial

section

variable {s s' : HistoryState} {cmd : HistoryCmd}

theorem mirrored_iff_agree : Mirrored s ↔ AgreeUpTo (fun r => r) s.historyList s.history.rows :=
  agreeUpTo_id.symm

theorem mirrored_init (history : Table) (recipe : RecipeTable) (out : List Report) :
    Mirrored (databaseTaskInit history recipe out) := by
  rw [Mirrored, history_databaseTaskInit]
  exact databaseTaskInit_perm _ _ _

/-! ## A stamp -/

/-- The update that follows a stamp has no id and reaches no record. -/
theorem stamped_update {r : History} {pre post : List History} (now : Int)
    (hinv : HistoryInv s) (hl : s.historyList = pre ++ r :: post) :
    let t := wrapperHistoryUpdateCb { History.zero with timestamp := now }
      { s with historyList := pre ++ { r with timestamp := now } :: post }
    t.historyList = sortHistory (pre ++ { r with timestamp := now } :: post) ∧
      t.history.rows = s.history.rows := by
  have hids : (pre ++ { r with timestamp := now } :: post).map (·.id) =
      s.historyList.map (·.id) := by
    rw [hl, List.map_append, List.map_append, List.map_cons, List.map_cons]
  have hne : ∀ q ∈ pre ++ { r with timestamp := now } :: post, q.id ≠ 0 := by
    intro q hq
    have hmem : q.id ∈ s.historyList.map (·.id) := hids ▸ List.mem_map_of_mem hq
    obtain ⟨p, hp, hpq⟩ := List.mem_map.mp hmem
    have hpos := ids_pos observes_forgetTimestamp hinv.agree p hp
    have hpq : p.id = q.id := hpq
    omega
  have hbound : SeqidBound
      { s with historyList := pre ++ { r with timestamp := now } :: post } := hinv.bound
  constructor
  · rw [list_wrapperHistoryUpdateCb]
    · exact congrArg sortHistory (updateAt_of_forall_ne hne)
    · show ((pre ++ { r with timestamp := now } :: post).map (·.id)).Nodup
      rw [hids]
      exact ids_nodup observes_forgetTimestamp hinv.agree
  · rw [rows_wrapperHistoryUpdateCb hbound]
    refine updateAt_of_forall_ne fun q hq => ?_
    have hpos := s.history.idPos q hq
    have hzero : History.zero.id = 0 := rfl
    show q.id ≠ History.zero.id
    omega

/-- A mirrored list is mirrored no more once a record of it has another time. -/
theorem not_perm_of_stamp {r : History} {pre post rows : List History} {now : Int}
    (hp : (pre ++ r :: post).Perm rows) (hn : (rows.map (·.id)).Nodup)
    (hnow : r.timestamp ≠ now) :
    ¬ (pre ++ { r with timestamp := now } :: post).Perm rows := by
  intro hp'
  have hr : r ∈ rows := hp.subset (List.mem_append_right _ List.mem_cons_self)
  have hr' : { r with timestamp := now } ∈ rows :=
    hp'.subset (List.mem_append_right _ List.mem_cons_self)
  have heq := List.inj_on_of_nodup_map hn hr hr' rfl
  exact hnow (congrArg History.timestamp heq)

/-! ## Steps and runs -/

/-- One command keeps a mirrored history mirrored exactly when it stamps no
other time. -/
theorem step_mirrored_iff (hinv : HistoryInv s) (hm : Mirrored s)
    (h : historyMachine.step s cmd = some s') : Mirrored s' ↔ KeepsTimestamp s cmd := by
  constructor
  · intro hm'
    cases cmd with
    | cook root now rowid =>
        intro r hr
        by_contra hnow
        simp only [historyMachine] at h
        split at h
        · rcases cookHistory_cases h with ⟨hrec, rfl⟩ | ⟨recipe, hrec, -, hins⟩
          · simp [cookMatch, hrec] at hr
          · have hfound : matchCollect { recipe with timestamp := now } s.historyList = some r := by
              simpa only [cookMatch, hrec] using hr
            rcases insertHistory_cases (ids_pos observes_forgetTimestamp hinv.agree) hins with
              ⟨q, pre, post, hq, hl, rfl⟩ | ⟨hnone, -⟩
            · obtain rfl : q = r := Option.some.inj (hq.symm.trans hfound)
              obtain ⟨hlist, hrows⟩ := stamped_update now hinv hl
              rw [Mirrored, hl] at hm
              rw [Mirrored, hrows] at hm'
              rw [hlist] at hm'
              exact not_perm_of_stamp hm s.history.idNodup hnow
                ((sortHistory_perm _).symm.trans hm')
            · cases hnone.symm.trans hfound
        · cases h
    | update item => trivial
    | delete item => trivial
    | reset => trivial
    | restart => trivial
  · intro hkeep
    refine mirrored_iff_agree.mpr (step_agree observes_all hinv (mirrored_iff_agree.mp hm) h ?_)
    rintro root now rowid r rfl hr
    have hnow : r.timestamp = now := hkeep r hr
    subst hnow
    rfl

/-- What a mirrored and sorted history shows survives a restart. -/
theorem restartInvisible_of_mirrored (hinv : SortInv s) (hn : FlagsNonneg s) (hm : Mirrored s) :
    RestartInvisible s := by
  intro root
  have hrecipe : (restart s).recipe = s.recipe := recipe_databaseTaskInit _ _ _
  simp only [databaseRespGet, databaseReports, restart_historyList hinv hn hm, hrecipe]

end

/-- **The mirror.**  From `database_task_init`, list and table hold the same
records in every state of a run exactly when no cook command of the run stamps
a collected record with another time.  Over a table without negative flags, and
the program writes none, those are also the runs in which a restart changes
nothing a client can see. -/
theorem history_mirrored_iff {history : Table} {recipe : RecipeTable} {s : HistoryState}
    (cmds : List HistoryCmd) (hstart : sortedInit history recipe [] = some s) :
    (sortedMachine.Along Mirrored s cmds ↔ sortedMachine.Meets KeepsTimestamp s cmds) ∧
    ((∀ r ∈ history.rows, 0 ≤ r.collect) →
      (sortedMachine.Along (fun s => Mirrored s ∧ RestartInvisible s) s cmds ↔
        sortedMachine.Meets KeepsTimestamp s cmds)) := by
  have hinit : s = databaseTaskInit history recipe [] := (sortedInit_eq_some.mp hstart).1
  have hmirror : sortedMachine.Along Mirrored s cmds ↔
      sortedMachine.Meets KeepsTimestamp s cmds :=
    Machine.along_iff_meets (V := fun _ => True) (Q := SortInv)
      (fun _ _ _ _ hinv h => sortInv_step hinv h)
      (fun _ _ _ _ hinv hm h =>
        step_mirrored_iff hinv.toHistoryInv hm (sortedMachine_step.mp h).1)
      (fun _ _ => trivial) (sortInv_init hstart) (hinit ▸ mirrored_init history recipe [])
  refine ⟨hmirror, fun hflags => ?_⟩
  rw [← hmirror]
  have hinv : sortedMachine.Along (fun s => SortInv s ∧ FlagsNonneg s) s cmds :=
    Machine.along_of_invariant (V := fun _ => True)
      (fun _ _ _ _ hinv h => ⟨sortInv_step hinv.1 h,
        flagsNonneg_step hinv.1.toHistoryInv hinv.2 (sortedMachine_step.mp h).1⟩)
      (fun _ _ => trivial) ⟨sortInv_init hstart, hinit ▸ flagsNonneg_init hflags recipe []⟩
  constructor
  · exact fun h => h.mono fun s hs => hs.1
  · intro h
    refine (Machine.along_and.mpr ⟨hinv, h⟩).mono fun s hs => ?_
    exact ⟨hs.2, restartInvisible_of_mirrored hs.1.1 hs.1.2 hs.2⟩

/-! ## Cook, collect, cook again -/

/-- A cook request for one cavity. -/
def exampleCook (temp : Int) : CJson :=
  .object [(cstr "LStOvMode", .number 1), (cstr "LStOvSetTimer", .number 10),
    (cstr "LStOvSetTemp", .number temp)]

/-- An `UpdateHistory` that sets a flag. -/
def exampleCollect (id collect : Int) : CJson :=
  .object [(cstr "id", .number id), (cstr "collect", .number collect)]

theorem exampleCollect_flag {id c : Int} (hc : IsFlag c) :
    FlagCmd (.update (exampleCollect id c)) := by
  intro j hj
  obtain rfl : CJson.number c = j := Option.some.inj hj
  exact hc

def exampleRecook : List HistoryCmd :=
  [.cook (exampleCook 100) 5 1, .update (exampleCollect 1 1), .cook (exampleCook 100) 9 2]

theorem sortedInit_empty :
    sortedInit Table.empty noRecipes [] = some (databaseTaskInit Table.empty noRecipes []) :=
  sortedInit_eq_some.mpr ⟨rfl, by decide⟩

/-- Cooked again within the second of the first time, whatever the flag. -/
def exampleTwice : List HistoryCmd :=
  [.cook (exampleCook 100) 5 1, .update (exampleCollect 1 3), .cook (exampleCook 120) 6 2,
    .cook (exampleCook 100) 5 3, .restart]

theorem mirrored_cook_restart :
    sortedMachine.Along (fun s => Mirrored s ∧ RestartInvisible s)
        (databaseTaskInit Table.empty noRecipes []) exampleTwice ∧
      ((sortedMachine.run (databaseTaskInit Table.empty noRecipes []) exampleTwice).map
        fun s => s.historyList.map (·.id)) = some [1, 2] :=
  ⟨((history_mirrored_iff exampleTwice sortedInit_empty).2
    fun _ h => absurd h List.not_mem_nil).mpr (by decide +kernel), by decide +kernel⟩

/-- The list has the time of the second dish, the table that of the first. -/
theorem not_mirrored_recook :
    ¬ sortedMachine.Along Mirrored (databaseTaskInit Table.empty noRecipes []) exampleRecook := by
  have hrun : ((sortedMachine.run (databaseTaskInit Table.empty noRecipes []) exampleRecook).map
      fun s => decide (Mirrored s)) = some false := by decide +kernel
  obtain ⟨s, hs, hm⟩ := Option.map_eq_some_iff.mp hrun
  exact fun h => of_decide_eq_false hm (h.last hs)

end X50
