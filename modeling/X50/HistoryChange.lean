/-
# `X50.HistoryChange` — the commands, as sequences of changes

Every command is a sequence of a few kinds of change to the two stores:

    update   a row and a list entry overwritten together
    delete   a row and a list entry removed together
    insert   a row and a list entry added together
    stamp    a timestamp written into the list only (`compareHistoryCollect`)
    clear    both stores emptied
    restart  the list loaded again from the rows

`step_changes` says this once, together with what each command may do the
changes with.  An invariant is then proved per kind of change and carried to
commands by `Changes.keeps`, and to runs by the rules of `X50.Lib.Machine`.
-/
import X50.HistoryInv
import Mathlib.Logic.Relation

namespace X50

open X50.Lib

/-! ## Changes -/

/-- One kind of change, with what it is done with. -/
inductive Change where
  | update (single : History)
  | delete (id : Int)
  | insert (single : History)
  | stamp (r : History) (now : Int)
  | clear
  | restart
  | report

/-- `Does c s s'`: the change `c` leads from `s` to `s'`. -/
inductive Does : Change → HistoryState → HistoryState → Prop
  | update (single : History) (s : HistoryState) :
      Does (.update single) s (wrapperHistoryUpdateCb single s)
  | delete (id : Int) (out : List Report) (s : HistoryState) :
      Does (.delete id) s
        { wrapperHistoryDeleteCb id s with out := out }
  | insert {single : History} {rowid : Int} {s s' : HistoryState} :
      wrapperHistoryInsertCb single rowid s = some s' → Does (.insert single) s s'
  | stamp {r : History} {pre post : List History} {s : HistoryState} (now : Int) :
      s.historyList = pre ++ r :: post →
      Does (.stamp r now) s
        { s with historyList := pre ++ { r with timestamp := now } :: post }
  | clear (s : HistoryState) : Does .clear s (databaseTaskReinit s)
  | restart (s : HistoryState) : Does .restart s (X50.restart s)
  | report (out : List Report) (s : HistoryState) : Does .report s { s with out := out }

/-- A sequence of changes, each of them allowed by `ok`. -/
def Changes (ok : Change → Prop) : HistoryState → HistoryState → Prop :=
  Relation.ReflTransGen fun s s' => ∃ c, ok c ∧ Does c s s'

section

variable {ok : Change → Prop} {s s' s'' : HistoryState}

theorem Changes.refl : Changes ok s s := Relation.ReflTransGen.refl

theorem Changes.single {c : Change} (h : Does c s s') (hc : ok c) : Changes ok s s' :=
  Relation.ReflTransGen.single ⟨c, hc, h⟩

theorem Changes.trans (h : Changes ok s s') (h' : Changes ok s' s'') : Changes ok s s'' :=
  Relation.ReflTransGen.trans h h'

/-- **The invariant rule for changes.** -/
theorem Changes.keeps {P : HistoryState → Prop} (h : Changes ok s s')
    (hP : ∀ c s s', ok c → Does c s s' → P s → P s') (hs : P s) : P s' := by
  induction h with
  | refl => exact hs
  | tail _ hlast ih =>
      obtain ⟨c, hc, hdoes⟩ := hlast
      exact hP c _ _ hc hdoes ih

end

/-! ## What each command does -/

/-- The eviction of `insertHistory`. -/
def makeRoom (s : HistoryState) : HistoryState :=
  if maxHistory ≤ getHistoryCount s.historyList then
    if 0 ≤ lastHistoryId 0 s.historyList then
      wrapperHistoryDeleteCb (lastHistoryId 0 s.historyList) s
    else s
  else s

/-- The eviction is one deletion, or nothing. -/
theorem makeRoom_cases (s : HistoryState) :
    makeRoom s = s ∨ ∃ id, makeRoom s = wrapperHistoryDeleteCb id s := by
  unfold makeRoom
  split
  · split
    · exact Or.inr ⟨_, rfl⟩
    · exact Or.inl rfl
  · exact Or.inl rfl

theorem makeRoom_bound {s : HistoryState} (hb : SeqidBound s) : SeqidBound (makeRoom s) := by
  rcases makeRoom_cases s with hsame | ⟨id, hdelete⟩
  · rw [hsame]
    exact hb
  · rw [hdelete]
    exact delete_bound hb id

/-- With room there is nothing to make. -/
theorem makeRoom_of_lt {s : HistoryState} (h : getHistoryCount s.historyList < maxHistory) :
    makeRoom s = s := if_neg (not_le.mpr h)

/-- Without, the class is not empty, so `lastHistoryId` names a record of it. -/
theorem makeRoom_of_le {s : HistoryState} (hpos : ∀ r ∈ s.historyList, 0 < r.id)
    (h : maxHistory ≤ getHistoryCount s.historyList) :
    ∃ r ∈ s.historyList, r.collect = 0 ∧ makeRoom s = wrapperHistoryDeleteCb r.id s := by
  have hcount : 0 < getHistoryCount s.historyList := lt_of_lt_of_le (by decide) h
  obtain ⟨q, hq, hq0⟩ := List.countP_pos_iff.mp hcount
  have hlast : 0 ≤ lastHistoryId 0 s.historyList := by
    unfold lastHistoryId
    cases hf : s.historyList.reverse.find? (fun r => r.collect == 0) with
    | none => exact absurd hq0 (List.find?_eq_none.mp hf q (List.mem_reverse.mpr hq))
    | some r => exact (hpos r (List.mem_reverse.mp (List.mem_of_find?_eq_some hf))).le
  obtain ⟨r, hr, hr0, hrid⟩ := lastHistoryId_mem hlast
  exact ⟨r, hr, hr0, by rw [makeRoom, if_pos h, if_pos hlast, hrid]⟩

/-- Behind a list with a new timestamp, `insertHistory` updates, or makes room and
inserts. -/
theorem insertHistory_writes {single : History} {now rowid : Int} {s s' : HistoryState}
    (h : insertHistory single now rowid s = some s') :
    ∃ record l, s' = wrapperHistoryUpdateCb record { s with historyList := l } ∨
      wrapperHistoryInsertCb record rowid (makeRoom { s with historyList := l }) = some s' := by
  unfold insertHistory at h
  dsimp only at h
  split at h
  · exact ⟨_, _, Or.inl (Option.some.inj h).symm⟩
  · exact ⟨_, _, Or.inr h⟩

/-- `insertHistory` refreshes a collected record of the same dish, or makes
room and inserts. -/
theorem insertHistory_cases {single : History} {now rowid : Int} {s s' : HistoryState}
    (hpos : ∀ r ∈ s.historyList, 0 < r.id) (h : insertHistory single now rowid s = some s') :
    (∃ r pre post, matchCollect { single with timestamp := now } s.historyList = some r ∧
      s.historyList = pre ++ r :: post ∧
      s' = wrapperHistoryUpdateCb { History.zero with timestamp := now }
        { s with historyList := pre ++ { r with timestamp := now } :: post }) ∨
    (matchCollect { single with timestamp := now } s.historyList = none ∧
      wrapperHistoryInsertCb { single with timestamp := now } rowid (makeRoom s) = some s') := by
  cases hm : matchCollect { single with timestamp := now } s.historyList with
  | none =>
      refine Or.inr ⟨rfl, ?_⟩
      rw [insertHistory, compareHistoryCollect_none hm] at h
      exact h
  | some r =>
      obtain ⟨pre, post, hl, hcmp⟩ := compareHistoryCollect_some hm
      refine Or.inl ⟨r, pre, post, rfl, hl, ?_⟩
      have hid : 0 ≤ r.id := (hpos r (matchCollect_some hm).1).le
      rw [insertHistory, hcmp] at h
      simp only [if_pos hid] at h
      exact (Option.some.inj h).symm

theorem dishRecord_collect {dish : CStr × List CJson × Int} {recipe : History}
    (h : dishRecord dish = some recipe) : recipe.collect = 0 := by
  simp only [dishRecord, Option.bind_eq_bind, Option.bind_eq_some_iff, Option.pure_def,
    Option.some.injEq] at h
  obtain ⟨_, _, rfl⟩ := h
  rfl

/-- What is cooked is not collected. -/
theorem cookHistoryRecord_collect {t : RecipeTable} {root : CJson} {recipe : History}
    (h : cookHistoryRecord t root = some (some recipe)) : recipe.collect = 0 := by
  unfold cookHistoryRecord at h
  split at h
  · simp only [Option.bind_eq_bind, Option.bind_eq_some_iff, Option.pure_def] at h
    obtain ⟨_, -, name, -, h⟩ := h
    cases hsel : selectDishnameFromTable name t.toTable with
    | some row =>
        simp only [hsel, Option.some.injEq] at h
        subst h
        exact t.collectZero row (List.mem_of_find?_eq_some hsel)
    | none =>
        simp only [hsel, Option.bind_eq_some_iff, Option.some.injEq] at h
        obtain ⟨_, -, _, -, r, hr, rfl⟩ := h
        exact dishRecord_collect hr
  · simp only [Option.bind_eq_bind, Option.bind_eq_some_iff, Option.pure_def] at h
    obtain ⟨dish, -, h⟩ := h
    cases dish with
    | none => cases h
    | some dish =>
        simp only [Option.bind_eq_some_iff, Option.some.injEq] at h
        obtain ⟨r, hr, rfl⟩ := h
        exact dishRecord_collect hr

/-- The collected record a cook command finds, if it finds one. -/
def cookMatch (s : HistoryState) (root : CJson) (now : Int) : Option History :=
  match cookHistoryRecord s.recipe root with
  | some (some recipe) => matchCollect { recipe with timestamp := now } s.historyList
  | _ => none

theorem cookHistory_cases {root : CJson} {now rowid : Int} {s s' : HistoryState}
    (h : cookHistory root now rowid s = some s') :
    (cookHistoryRecord s.recipe root = some none ∧ s' = s) ∨
    ∃ recipe, cookHistoryRecord s.recipe root = some (some recipe) ∧ recipe.collect = 0 ∧
      insertHistory { recipe with timestamp := now } now rowid s = some s' := by
  simp only [cookHistory, Option.bind_eq_bind, Option.bind_eq_some_iff] at h
  obtain ⟨o, ho, h⟩ := h
  cases o with
  | none => exact Or.inl ⟨ho, (Option.some.inj h).symm⟩
  | some recipe => exact Or.inr ⟨recipe, ho, cookHistoryRecord_collect ho, h⟩

/-- The eviction of `updateHistory`, of the record the request names. -/
def makeRoomFor (single iter : History) (s : HistoryState) : HistoryState :=
  if 0 ≤ single.collect then
    if 0 ≤ surplusId single iter s.historyList ∧
        surplusId single iter s.historyList ≠ single.id then
      wrapperHistoryDeleteCb single.id s
    else s
  else s

theorem makeRoomFor_cases (single iter : History) (s : HistoryState) :
    makeRoomFor single iter s = s ∨ makeRoomFor single iter s = wrapperHistoryDeleteCb single.id s := by
  unfold makeRoomFor
  split
  · split
    · exact Or.inr rfl
    · exact Or.inl rfl
  · exact Or.inl rfl

/-- The flag an `UpdateHistory` asks for, or -1. -/
def requestCollect (item : CJson) : Int :=
  match item.getObjectItem (cstr "collect") with
  | some collect => collect.valueint
  | none => -1

/-- The record an `UpdateHistory` builds. -/
theorem updateHistoryRecord_eq_some {item id : CJson} {single : History}
    (h : updateHistoryRecord item id = some single) :
    single.id = id.valueint ∧ single.timestamp = 0 ∧ single.collect = requestCollect item ∧
      (match item.getObjectItem (cstr "dishName") with
        | some dishName => dishName.valuestring = some single.dishName ∧
            single.dishName.length < dishNameSize
        | none => single.dishName = []) := by
  unfold updateHistoryRecord at h
  cases hd : item.getObjectItem (cstr "dishName") with
  | none =>
      simp only [hd, Option.bind_eq_bind, Option.bind_some, Option.pure_def,
        Option.some.injEq] at h
      subst h
      exact ⟨rfl, rfl, rfl, rfl⟩
  | some dishName =>
      simp only [hd, Option.bind_eq_bind, Option.bind_eq_some_iff, Option.pure_def,
        Option.some.injEq] at h
      obtain ⟨name, hname, rfl⟩ := h
      exact ⟨rfl, rfl, rfl, strcpy_eq_some.mp hname⟩

theorem updateHistoryCb_cases {item : CJson} {s s' : HistoryState}
    (h : updateHistoryCb item s = some s') :
    (s' = s ∧ ∀ id, item.getObjectItem (cstr "id") = some id →
      ∀ r ∈ s.historyList, r.id ≠ id.valueint) ∨
    ∃ id single iter, item.getObjectItem (cstr "id") = some id ∧
      updateHistoryRecord item id = some single ∧
      s.historyList.find? (fun r => r.id == single.id) = some iter ∧
      s' = wrapperHistoryUpdateCb single (makeRoomFor single iter s) := by
  unfold updateHistoryCb at h
  cases hid : item.getObjectItem (cstr "id") with
  | none =>
      simp only [hid] at h
      exact Or.inl ⟨(Option.some.inj h).symm, fun _ hcontra => absurd hcontra (by simp)⟩
  | some id =>
      simp only [hid, Option.map_eq_some_iff] at h
      obtain ⟨single, hsingle, rfl⟩ := h
      cases hfind : s.historyList.find? (fun r => r.id == single.id) with
      | none =>
          refine Or.inl ⟨by simp only [CookHistory.updateHistory, hfind], ?_⟩
          rintro id' hid' r hr
          obtain rfl := Option.some.inj hid'
          have hno := List.find?_eq_none.mp hfind r hr
          rw [← (updateHistoryRecord_eq_some hsingle).1]
          simpa using hno
      | some iter =>
          refine Or.inr ⟨id, single, iter, rfl, hsingle, hfind, ?_⟩
          simp only [CookHistory.updateHistory, hfind]
          rfl

/-- What a command in state `s` may do its changes with. -/
def Causes (s : HistoryState) (cmd : HistoryCmd) : Change → Prop
  | .update single => single.collect = 0 ∨
      ∃ item id, cmd = .update item ∧ item.getObjectItem (cstr "id") = some id ∧
        updateHistoryRecord item id = some single
  | .insert single => single.collect = 0
  | .stamp r now => ∃ root rowid, cmd = .cook root now rowid ∧ cookMatch s root now = some r
  | _ => True

section

variable {s s' : HistoryState} {cmd : HistoryCmd}

theorem makeRoom_changes {ok : Change → Prop} (hok : ∀ id, ok (.delete id)) :
    Changes ok s (makeRoom s) := by
  rcases makeRoom_cases s with hsame | ⟨id, hdelete⟩
  · rw [hsame]
    exact .refl
  · rw [hdelete]
    exact .single (.delete _ _ s) (hok _)

theorem makeRoomFor_changes {ok : Change → Prop} (hok : ∀ id, ok (.delete id))
    (single iter : History) : Changes ok s (makeRoomFor single iter s) := by
  rcases makeRoomFor_cases single iter s with hsame | hdelete
  · rw [hsame]
    exact .refl
  · rw [hdelete]
    exact .single (.delete _ _ s) (hok _)

theorem cookHistory_changes {root : CJson} {now rowid : Int}
    (hpos : ∀ r ∈ s.historyList, 0 < r.id) (h : cookHistory root now rowid s = some s') :
    Changes (Causes s (.cook root now rowid)) s s' := by
  rcases cookHistory_cases h with ⟨-, rfl⟩ | ⟨recipe, hrec, hcollect, hins⟩
  · exact .refl
  · rcases insertHistory_cases hpos hins with ⟨r, pre, post, hm, hl, rfl⟩ | ⟨hm, hins⟩
    · have hmatch : cookMatch s root now = some r := by
        simp only [cookMatch, hrec]
        exact hm
      have hstamp : Causes s (.cook root now rowid) (.stamp r now) :=
        ⟨root, rowid, rfl, hmatch⟩
      exact (Changes.single (.stamp now hl) hstamp).trans
        (.single (.update _ _) (Or.inl rfl))
    · exact (makeRoom_changes fun _ => trivial).trans (.single (.insert hins) hcollect)

theorem updateHistoryCb_changes {item : CJson} (h : updateHistoryCb item s = some s') :
    Changes (Causes s (.update item)) s s' := by
  rcases updateHistoryCb_cases h with ⟨rfl, -⟩ | ⟨id, single, iter, hid, hsingle, -, rfl⟩
  · exact .refl
  · have hcause : Causes s (.update item) (.update single) :=
      Or.inr ⟨item, id, rfl, hid, hsingle⟩
    exact (makeRoomFor_changes (fun _ => trivial) single iter).trans
      (.single (.update _ _) hcause)

/-- A `DeleteHistory` keeps what each of its deletions keeps. -/
theorem deleteHistoryCb_keeps {I : HistoryState → Prop}
    (hdelete : ∀ id t, I t → I { t with
      historyList := reportDeleteHistory id t.historyList
      history := t.history.deleteRowFromTable id })
    (item : CJson) (hs : I s) : I (deleteHistoryCb item s).1 := by
  unfold deleteHistoryCb
  split
  · exact hs
  · generalize item.children.map CJson.valueint = ids
    induction ids generalizing s with
    | nil => exact hs
    | cons id ids ih => exact ih (hdelete id s hs)

theorem deleteHistoryCb_changes {ok : Change → Prop} (hok : ∀ id, ok (.delete id))
    (item : CJson) : Changes ok s (deleteHistoryCb item s).1 :=
  deleteHistoryCb_keeps (I := Changes ok s)
    (fun id t ht => ht.trans (.single (.delete id t.out t) (hok id))) item .refl

theorem deleteAndReport_changes {ok : Change → Prop} (hok : ∀ id, ok (.delete id))
    (hreport : ok .report) (item : CJson) : Changes ok s (deleteAndReport item s) := by
  have hdel := deleteHistoryCb_changes (s := s) hok item
  simp only [deleteAndReport]
  cases (deleteHistoryCb item s).2 with
  | none => exact hdel
  | some ids => exact hdel.trans (.single (.report _ _) hreport)

/-- **Every command is a sequence of changes it may cause.** -/
theorem step_changes (hpos : ∀ r ∈ s.historyList, 0 < r.id)
    (h : historyMachine.step s cmd = some s') : Changes (Causes s cmd) s s' := by
  cases cmd with
  | cook root now rowid =>
      simp only [historyMachine] at h
      split at h
      · exact cookHistory_changes hpos h
      · cases h
  | update item => exact updateHistoryCb_changes h
  | delete item =>
      obtain rfl := Option.some.inj h
      exact deleteAndReport_changes (fun _ => trivial) trivial item
  | reset =>
      obtain rfl := Option.some.inj h
      exact .single (.clear s) trivial
  | restart =>
      obtain rfl := Option.some.inj h
      exact .single (.restart s) trivial

end

/-! ## The invariant -/

section

variable {f : History → History} {s s' : HistoryState} {c : Change} {cmd : HistoryCmd}

theorem does_bound (hb : SeqidBound s) (h : Does c s s') : SeqidBound s' := by
  cases h with
  | update single => exact update_bound hb single
  | delete id out => exact delete_bound hb id
  | insert hins => exact insert_bound hb hins
  | stamp now hl => exact hb
  | clear => exact fun r hr => absurd hr List.not_mem_nil
  | restart => exact databaseTaskInit_bound _ _ _
  | report out => exact hb

theorem does_agree (hf : Observes f) (hb : SeqidBound s)
    (ha : AgreeUpTo f s.historyList s.history.rows) (h : Does c s s')
    (hstamp : ∀ r now, c = .stamp r now → f { r with timestamp := now } = f r) :
    AgreeUpTo f s'.historyList s'.history.rows := by
  cases h with
  | update single => exact update_agree hf hb ha single
  | delete id out => exact delete_agree hf ha id
  | insert hins => exact insert_agree hb ha hins
  | stamp now hl =>
      rename_i r pre post
      have hsame : (pre ++ { r with timestamp := now } :: post).map f = s.historyList.map f := by
        rw [hl, List.map_append, List.map_append, List.map_cons, List.map_cons,
          hstamp r now rfl]
      exact (List.Perm.of_eq hsame).trans ha
  | clear => exact List.Perm.nil
  | restart =>
      have hrows : (restart s).history = s.history := history_databaseTaskInit _ _ _
      rw [hrows]
      exact .of_perm (databaseTaskInit_perm _ _ _)
  | report out => exact ha

/-- A command keeps an agreement whose observation its stamps do not reach. -/
theorem step_agree (hf : Observes f) (hinv : HistoryInv s)
    (ha : AgreeUpTo f s.historyList s.history.rows)
    (h : historyMachine.step s cmd = some s')
    (hstamp : ∀ root now rowid r, cmd = .cook root now rowid → cookMatch s root now = some r →
      f { r with timestamp := now } = f r) :
    AgreeUpTo f s'.historyList s'.history.rows := by
  have hkeep := (step_changes (ids_pos observes_forgetTimestamp hinv.agree) h).keeps
    (P := fun s => SeqidBound s ∧ AgreeUpTo f s.historyList s.history.rows) ?_ ⟨hinv.bound, ha⟩
  · exact hkeep.2
  · intro c t t' hc hdoes ⟨hb, ha⟩
    refine ⟨does_bound hb hdoes, does_agree hf hb ha hdoes ?_⟩
    rintro r now rfl
    obtain ⟨root, rowid, hcmd, hm⟩ := hc
    exact hstamp root now rowid r hcmd hm

theorem historyInv_step (hinv : HistoryInv s) (h : historyMachine.step s cmd = some s') :
    HistoryInv s' where
  agree := step_agree observes_forgetTimestamp hinv hinv.agree h fun _ _ _ _ _ _ => rfl
  bound := (step_changes (ids_pos observes_forgetTimestamp hinv.agree) h).keeps
    (fun _ _ _ _ hdoes hb => does_bound hb hdoes) hinv.bound

theorem historyInv_init (history : Table) (recipe : RecipeTable) (out : List Report) :
    HistoryInv (databaseTaskInit history recipe out) where
  agree := by
    rw [history_databaseTaskInit]
    exact .of_perm (databaseTaskInit_perm _ _ _)
  bound := databaseTaskInit_bound _ _ _

/-- The invariant holds in every state the machine reaches. -/
theorem historyInv_run {history : Table} {recipe : RecipeTable} {out : List Report}
    {cmds : List HistoryCmd}
    (h : historyMachine.run (databaseTaskInit history recipe out) cmds = some s) :
    HistoryInv s :=
  Machine.run_invariant (V := fun _ => True) (fun _ _ _ _ hinv hstep => historyInv_step hinv hstep)
    (fun _ _ => trivial) (historyInv_init history recipe out) h

end

end X50
