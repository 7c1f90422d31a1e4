/-
# `X50.HistoryUpdate` — what an `UpdateHistory` does to the record it names

`updateHistory` looks for a surplus record before it updates: it counts a
class, takes the last record of that class for surplus, and deletes the record
THE REQUEST NAMES when that is another one.  The class it counts is the
collected one when the flag changes, in either direction, and the uncollected
one when it does not.

    request                       counts        deletes its target when
    no flag                       nothing       never
    another flag                  collected     40 of them, target not their oldest
    the flag it has               uncollected   40 of them, target not their oldest

`update_keeps_target_iff` says that outside these cases the target is kept and
updated as asked, in both stores.
-/
import X50.HistoryOrder
import X50.HistoryMirror

namespace X50

open X50.Lib

/-- The collected records. -/
def getCollectCount (l : List History) : Nat := l.countP fun r => r.collect != 0

theorem getCollectCount_add (l : List History) :
    l.length = getHistoryCount l + getCollectCount l := by
  rw [List.length_eq_countP_add_countP (fun r => r.collect == 0), getHistoryCount,
    getCollectCount]
  congr 1
  refine List.countP_congr fun r _ => ?_
  simp

/-- The records of class `c` are as many as the code allows. -/
def ClassFull (c : Int) (l : List History) : Prop :=
  if c = 0 then maxHistory ≤ getHistoryCount l else maxCollect ≤ getCollectCount l

instance (c : Int) (l : List History) : Decidable (ClassFull c l) :=
  inferInstanceAs (Decidable
    (if c = 0 then maxHistory ≤ getHistoryCount l else maxCollect ≤ getCollectCount l))

theorem exists_of_classFull {c : Int} {l : List History} (hl : Flagged l) (hc : IsFlag c)
    (h : ClassFull c l) : ∃ r ∈ l, r.collect = c := by
  unfold ClassFull at h
  split at h
  · next h0 =>
    have hpos : 0 < getHistoryCount l := lt_of_lt_of_le (by decide) h
    obtain ⟨r, hr, hr0⟩ := List.countP_pos_iff.mp hpos
    exact ⟨r, hr, by rw [h0]; simpa using hr0⟩
  · next h0 =>
    have hpos : 0 < getCollectCount l := lt_of_lt_of_le (by decide) h
    obtain ⟨r, hr, hr1⟩ := List.countP_pos_iff.mp hpos
    have hne : r.collect ≠ 0 := by simpa using hr1
    refine ⟨r, hr, ?_⟩
    have hrf := hl r hr
    unfold IsFlag at hrf hc
    omega

/-- The class `updateHistory` counts for a request with flag `c`. -/
def countedClass (c : Int) (t : History) : Int := if c ≠ t.collect then 1 else 0

/-- The request leaves its target in place: it has no flag, the class counted
is not full, or the target is the oldest of that class. -/
def LeavesTarget (l : List History) (collect : Option Int) (t : History) : Prop :=
  ∀ c, collect = some c → ¬ ClassFull (countedClass c t) l ∨ Oldest (countedClass c t) l t

instance (l : List History) (collect : Option Int) (t : History) :
    Decidable (LeavesTarget l collect t) :=
  inferInstanceAs (Decidable (∀ c ∈ collect,
    ¬ ClassFull (countedClass c t) l ∨ Oldest (countedClass c t) l t))

section

variable {s s' : HistoryState}

theorem surplusId_eq {single t : History} {l : List History} :
    surplusId single t l =
      if ClassFull (countedClass single.collect t) l then
        lastHistoryId (countedClass single.collect t) l else -1 := by
  have hcount : l.length - getHistoryCount l = getCollectCount l := by
    rw [getCollectCount_add l, Nat.add_sub_cancel_left]
  unfold surplusId countedClass
  split
  · simp only [ClassFull, hcount, if_neg (show ¬ (1 : Int) = 0 by decide)]
  · simp only [ClassFull, if_true]

/-- The target is deleted exactly when the request does not leave it. -/
theorem surplus_iff {single t : History} (hinv : OrderInv s) (ht : t ∈ s.historyList)
    (hid : single.id = t.id) :
    (0 ≤ surplusId single t s.historyList ∧
        surplusId single t s.historyList ≠ single.id) ↔
      ClassFull (countedClass single.collect t) s.historyList ∧
        ¬ Oldest (countedClass single.collect t) s.historyList t := by
  have hclass : IsFlag (countedClass single.collect t) := by
    unfold countedClass
    split
    · exact Or.inr rfl
    · exact Or.inl rfl
  rw [surplusId_eq]
  by_cases hfull : ClassFull (countedClass single.collect t) s.historyList
  · have hex := exists_of_classFull hinv.flagged hclass hfull
    obtain ⟨r, hr, -, hlast⟩ := lastHistoryId_oldest hinv.sorted hex
    have hpos := ids_pos observes_forgetTimestamp hinv.agree r hr
    rw [if_pos hfull, hid]
    constructor
    · rintro ⟨-, hne⟩
      exact ⟨hfull, fun hold => hne ((lastHistoryId_eq_iff hinv ht hex).mpr hold)⟩
    · rintro ⟨-, hold⟩
      exact ⟨by omega, fun heq => hold ((lastHistoryId_eq_iff hinv ht hex).mp heq)⟩
  · rw [if_neg hfull]
    exact ⟨fun h => absurd h.1 (by decide), fun h => absurd h.1 hfull⟩

/-! ## The request -/

/-- The name an `UpdateHistory` asks for. -/
def requestName (item : CJson) : Option CStr :=
  (item.getObjectItem (cstr "dishName")).bind CJson.valuestring

/-- The flag an `UpdateHistory` asks for. -/
def requestFlag (item : CJson) : Option Int :=
  (item.getObjectItem (cstr "collect")).map CJson.valueint

/-- A name, where the request has one, that is a string and not empty. -/
def NamedRequest (item : CJson) : Prop :=
  ∀ d, item.getObjectItem (cstr "dishName") = some d → ∃ n, d.valuestring = some n ∧ n ≠ []

theorem requestCollect_eq (item : CJson) : requestCollect item = (requestFlag item).getD (-1) := by
  unfold requestCollect requestFlag
  cases item.getObjectItem (cstr "collect") <;> rfl

theorem requestFlag_isFlag {item : CJson} (hitem : FlagRequest item) {c : Int}
    (h : requestFlag item = some c) : IsFlag c := by
  obtain ⟨j, hj, rfl⟩ := Option.map_eq_some_iff.mp h
  exact hitem j hj

/-- The record built has a place for the name, or there is no record. -/
theorem updateHistoryRecord_isSome_iff {item : CJson} (id : CJson) (hname : NamedRequest item) :
    (updateHistoryRecord item id).isSome ↔
      ∀ n, requestName item = some n → n.length < dishNameSize := by
  unfold updateHistoryRecord requestName
  cases hd : item.getObjectItem (cstr "dishName") with
  | none => simp
  | some d =>
      obtain ⟨n, hn, -⟩ := hname d hd
      by_cases hlen : n.length < dishNameSize
      · simp [strcpy, hn, hlen]
      · simp [strcpy, hn, hlen]

theorem updateHistoryRecord_name {item id : CJson} {single : History} (hname : NamedRequest item)
    (h : updateHistoryRecord item id = some single) (r : History) :
    (if 0 < single.dishName.length then single.dishName else r.dishName) =
      (requestName item).getD r.dishName := by
  obtain ⟨-, -, -, hn⟩ := updateHistoryRecord_eq_some h
  unfold requestName
  cases hd : item.getObjectItem (cstr "dishName") with
  | none =>
      rw [hd] at hn
      have hempty : single.dishName = [] := hn
      simp [hempty]
  | some d =>
      rw [hd] at hn
      obtain ⟨n, hdn, hne⟩ := hname d hd
      have hstr : d.valuestring = some single.dishName := hn.1
      have heq : n = single.dishName := Option.some.inj (hdn.symm.trans hstr)
      have hlen : 0 < single.dishName.length := List.length_pos_iff.mpr (heq ▸ hne)
      simp [hlen, hstr]

theorem updateHistoryRecord_collect {item id : CJson} {single : History}
    (hitem : FlagRequest item) (h : updateHistoryRecord item id = some single) (r : History) :
    (if 0 ≤ single.collect then single.collect else r.collect) =
      (requestFlag item).getD r.collect := by
  obtain ⟨-, -, hc, -⟩ := updateHistoryRecord_eq_some h
  rw [hc, requestCollect_eq]
  cases hf : requestFlag item with
  | none => rfl
  | some c =>
      have hflag := requestFlag_isFlag hitem hf
      have hnonneg : 0 ≤ c := by
        unfold IsFlag at hflag
        omega
      exact if_pos hnonneg

/-! ## What is promised of a store -/

/-- `l'` is `l` after an update of record `id` that kept its target. -/
structure TargetKept (id : Int) (name : Option CStr) (collect : Option Int)
    (l l' : List History) : Prop where
  /-- the target is there, as asked, with the largest seqid -/
  target : ∃ t ∈ l, t.id = id ∧ ∃ t' ∈ l',
    t' = { t with
      dishName := name.getD t.dishName
      collect := collect.getD t.collect
      seqid := t'.seqid } ∧
    ∀ r ∈ l', r.id ≠ id → r.seqid < t'.seqid
  /-- of the others at most the oldest of a class that was full is gone, and
  only for a target that moved into that class -/
  others : ∃ removed, (deleteAt (·.id) id l).Perm (removed ++ deleteAt (·.id) id l') ∧
    removed.length ≤ 1 ∧
    ∀ v ∈ removed, ∃ c, collect = some c ∧ (∃ t ∈ l, t.id = id ∧ t.collect ≠ c) ∧
      ClassFull c l ∧ Oldest c l v

/-- An `overwrite` of the target alone keeps it. -/
theorem targetKept_updateAt {item idItem : CJson} {single t : History} {l l' : List History}
    {g : Int} (hitem : FlagRequest item) (hname : NamedRequest item)
    (hrec : updateHistoryRecord item idItem = some single) (hn : (l.map (·.id)).Nodup)
    (hb : ∀ r ∈ l, r.seqid ≤ g) (ht : t ∈ l) (hid : t.id = single.id)
    (hl' : l'.Perm (updateAt (·.id) single.id (overwrite { single with seqid := g + 1 }) l)) :
    TargetKept t.id (requestName item) (requestFlag item) l l' := by
  obtain ⟨rest, hperm, hne, hdel, hupd⟩ := exists_perm_cons hn ht
  rw [← hid] at hl'
  have hl := hl'.trans (hupd _)
  have htime : single.timestamp = 0 := (updateHistoryRecord_eq_some hrec).2.1
  have hhead : deleteAt (·.id) t.id (overwrite { single with seqid := g + 1 } t :: rest) = rest := by
    rw [deleteAt, List.filter_cons_of_neg (by simp [overwrite])]
    exact deleteAt_of_forall_ne hne
  have hdel' : (deleteAt (·.id) t.id l').Perm rest :=
    (List.Perm.filter _ hl).trans (List.Perm.of_eq hhead)
  constructor
  · refine ⟨t, ht, rfl, overwrite { single with seqid := g + 1 } t,
      hl.symm.subset List.mem_cons_self, ?_, ?_⟩
    · have hd := updateHistoryRecord_name hname hrec t
      have hc := updateHistoryRecord_collect hitem hrec t
      simp only [overwrite, htime, hd, hc, lt_irrefl, if_false]
    · intro r hr hrid
      rcases List.mem_cons.mp (hl.subset hr) with rfl | hr
      · exact absurd rfl hrid
      · have hle := hb r (hperm.symm.subset (List.mem_cons_of_mem _ hr))
        show r.seqid < g + 1
        omega
  · refine ⟨[], ?_, Nat.zero_le _, fun v hv => absurd hv List.not_mem_nil⟩
    rw [hdel, List.nil_append]
    exact hdel'.symm

/-! ## The update -/

/-- A request that names a record does one of two things to both stores. -/
theorem updateHistoryCb_named {item idItem : CJson} {t : History} (hinv : OrderInv s)
    (hidItem : item.getObjectItem (cstr "id") = some idItem) (ht : t ∈ s.historyList)
    (hid : idItem.valueint = t.id) (hitem : FlagRequest item)
    (h : updateHistoryCb item s = some s') :
    ∃ single, updateHistoryRecord item idItem = some single ∧ single.id = t.id ∧
      (LeavesTarget s.historyList (requestFlag item) t ∧
          s' = wrapperHistoryUpdateCb single s ∨
        ¬ LeavesTarget s.historyList (requestFlag item) t ∧
          s' = wrapperHistoryUpdateCb single (wrapperHistoryDeleteCb t.id s)) := by
  rcases updateHistoryCb_cases h with ⟨-, hno⟩ | ⟨id, single, iter, hid', hrec, hfind, rfl⟩
  · exact absurd hid.symm (hno idItem hidItem t ht)
  · obtain rfl : idItem = id := Option.some.inj (hidItem.symm.trans hid')
    have hsid : single.id = t.id := (updateHistoryRecord_eq_some hrec).1.trans hid
    have hiter : iter = t := by
      refine List.inj_on_of_nodup_map (ids_nodup observes_forgetTimestamp hinv.agree)
        (List.mem_of_find?_eq_some hfind) ht ?_
      have hfound := List.find?_some hfind
      exact (by simpa using hfound : iter.id = single.id).trans hsid
    subst hiter
    refine ⟨single, hrec, hsid, ?_⟩
    have hcollect : single.collect = (requestFlag item).getD (-1) := by
      rw [(updateHistoryRecord_eq_some hrec).2.2.1, requestCollect_eq]
    cases hf : requestFlag item with
    | none =>
        have hneg : ¬ 0 ≤ single.collect := by
          rw [hcollect, hf]
          decide
        refine Or.inl ⟨fun c hc => absurd hc (by simp), ?_⟩
        rw [makeRoomFor, if_neg hneg]
    | some c =>
        have hc : single.collect = c := by rw [hcollect, hf, Option.getD_some]
        have hflag := requestFlag_isFlag hitem hf
        have hnonneg : 0 ≤ single.collect := by
          unfold IsFlag at hflag
          omega
        have hsurplus := surplus_iff hinv ht hsid
        rw [hc] at hsurplus
        by_cases hdel : 0 ≤ surplusId single iter s.historyList ∧
            surplusId single iter s.historyList ≠ single.id
        · refine Or.inr ⟨fun hleave => ?_, by rw [makeRoomFor, if_pos hnonneg, if_pos hdel, hsid]⟩
          obtain ⟨hfull, hold⟩ := hsurplus.mp hdel
          rcases hleave c rfl with hnfull | hold'
          · exact hnfull hfull
          · exact hold hold'
        · refine Or.inl ⟨?_, by rw [makeRoomFor, if_pos hnonneg, if_neg hdel]⟩
          rintro c' hc'
          obtain rfl := Option.some.inj hc'
          by_contra hcontra
          exact hdel (hsurplus.mpr (not_or.mp hcontra |>.imp not_not.mp id))

/-- After the target is deleted the update reaches no record. -/
theorem deleted_update {single t : History} (hinv : HistoryInv s) (hsid : single.id = t.id) :
    let s' := wrapperHistoryUpdateCb single (wrapperHistoryDeleteCb t.id s)
    s'.historyList.Perm (deleteAt (·.id) t.id s.historyList) := by
  have hn : ((wrapperHistoryDeleteCb t.id s).historyList.map (·.id)).Nodup :=
    nodup_map_deleteAt (ids_nodup observes_forgetTimestamp hinv.agree)
  simp only [list_wrapperHistoryUpdateCb hn]
  refine (sortHistory_perm _).trans (List.Perm.of_eq ?_)
  refine updateAt_of_forall_ne fun q hq => ?_
  show q.id ≠ single.id
  rw [hsid]
  exact (mem_deleteAt.mp hq).2

end

/-- **The target of an update.**  In every history reached with flags 0 and 1,
an `UpdateHistory` that names a record keeps it in both stores, as asked and
with the largest seqid, and every other record as it was, exactly when the name
fits its array and the request leaves its target. -/
theorem update_keeps_target_iff {history : Table} {recipe : RecipeTable}
    {cmds : List HistoryCmd} {s : HistoryState} {item idItem : CJson} {t : History}
    (hflags : Flagged history.rows) (hcmds : ∀ cmd ∈ cmds, FlagCmd cmd)
    (hrun : historyMachine.run (databaseTaskInit history recipe []) cmds = some s)
    (hidItem : item.getObjectItem (cstr "id") = some idItem)
    (ht : t ∈ s.historyList) (hid : idItem.valueint = t.id)
    (hitem : FlagRequest item) (hname : NamedRequest item) :
    (∃ s', updateHistoryCb item s = some s' ∧
      TargetKept t.id (requestName item) (requestFlag item) s.historyList s'.historyList ∧
      TargetKept t.id (requestName item) (requestFlag item) s.history.rows s'.history.rows) ↔
    (∀ n, requestName item = some n → n.length < dishNameSize) ∧
      LeavesTarget s.historyList (requestFlag item) t := by
  have hinv : OrderInv s := orderInv_run hflags hcmds hrun
  have hids := ids_nodup observes_forgetTimestamp hinv.agree
  constructor
  · rintro ⟨s', hs', hlist, -⟩
    obtain ⟨single, hrec, hsid, hcase⟩ := updateHistoryCb_named hinv hidItem ht hid hitem hs'
    refine ⟨(updateHistoryRecord_isSome_iff idItem hname).mp (Option.isSome_iff_exists.mpr ⟨_, hrec⟩), ?_⟩
    rcases hcase with ⟨hleave, -⟩ | ⟨-, rfl⟩
    · exact hleave
    · obtain ⟨p, -, hpid, t', ht', heq, -⟩ := hlist.target
      have hmem := (deleted_update hinv.toHistoryInv hsid).subset ht'
      have hid' : t'.id = t.id := by rw [heq]; exact hpid
      exact absurd hid' (mem_deleteAt.mp hmem).2
  · rintro ⟨hlen, hleave⟩
    obtain ⟨single, hrec⟩ := Option.isSome_iff_exists.mp
      ((updateHistoryRecord_isSome_iff idItem hname).mpr hlen)
    have hsome : updateHistoryCb item s = some (CookHistory.updateHistory single s) := by
      simp only [updateHistoryCb, hidItem, hrec, Option.map_some]
    refine ⟨_, hsome, ?_⟩
    obtain ⟨single', hrec', hsid, hcase⟩ := updateHistoryCb_named hinv hidItem ht hid hitem hsome
    obtain rfl : single = single' := Option.some.inj (hrec.symm.trans hrec')
    rcases hcase with ⟨-, hs'⟩ | ⟨hno, -⟩
    · rw [hs']
      constructor
      · refine targetKept_updateAt hitem hname hrec hids
          (list_bound observes_forgetTimestamp hinv.agree hinv.bound) ht hsid.symm ?_
        rw [list_wrapperHistoryUpdateCb hids]
        exact sortHistory_perm _
      · obtain ⟨q, hq, hqt⟩ := hinv.agree.exists_mem ht
        have hqid : q.id = t.id := observes_forgetTimestamp.id hqt
        rw [← hqid]
        refine targetKept_updateAt hitem hname hrec s.history.idNodup hinv.bound hq
          (hqid.trans hsid.symm) ?_
        rw [rows_wrapperHistoryUpdateCb hinv.bound]
    · exact absurd hleave hno

/-! ## A rename, and a full history -/

def exampleRename (id : Int) (name : String) : CJson :=
  .object [(cstr "id", .number id), (cstr "dishName", .string (cstr name))]

def exampleRenameCollect (id : Int) (name : String) (collect : Int) : CJson :=
  .object [(cstr "id", .number id), (cstr "dishName", .string (cstr name)),
    (cstr "collect", .number collect)]

/-- The history after the commands, from nothing. -/
def exampleHistory (cmds : List HistoryCmd) : HistoryState :=
  (historyMachine.run (databaseTaskInit Table.empty noRecipes []) cmds).getD
    (databaseTaskInit Table.empty noRecipes [])

theorem exampleHistory_run {cmds : List HistoryCmd}
    (h : (historyMachine.run (databaseTaskInit Table.empty noRecipes []) cmds).isSome) :
    historyMachine.run (databaseTaskInit Table.empty noRecipes []) cmds =
      some (exampleHistory cmds) := by
  obtain ⟨s, hs⟩ := Option.isSome_iff_exists.mp h
  rw [exampleHistory, hs, Option.getD_some]

/-- Three dishes, one of them collected. -/
def exampleThree : List HistoryCmd :=
  [.cook (exampleCook 100) 5 1, .cook (exampleCook 120) 6 2, .update (exampleCollect 1 1),
    .cook (exampleCook 140) 7 3]

/-- The second dish, renamed and collected. -/
theorem rename_keeps_target :
    ∃ s', updateHistoryCb (exampleRenameCollect 2 "soup" 1) (exampleHistory exampleThree) =
        some s' ∧
      TargetKept 2 (some (cstr "soup")) (some 1)
        (exampleHistory exampleThree).historyList s'.historyList ∧
      TargetKept 2 (some (cstr "soup")) (some 1)
        (exampleHistory exampleThree).history.rows s'.history.rows := by
  have hrun := @exampleHistory_run exampleThree (by decide +kernel)
  have hflag : requestFlag (exampleRenameCollect 2 "soup" 1) = some 1 := rfl
  have hname : requestName (exampleRenameCollect 2 "soup" 1) = some (cstr "soup") := rfl
  have hidItem : (exampleRenameCollect 2 "soup" 1).getObjectItem (cstr "id") =
      some (.number 2) := rfl
  have hany : (exampleHistory exampleThree).historyList.any (fun r =>
      r.id == 2 && decide (LeavesTarget (exampleHistory exampleThree).historyList (some 1) r)) =
      true := by decide +kernel
  obtain ⟨t, ht, hpt⟩ := List.any_eq_true.mp hany
  simp only [Bool.and_eq_true, beq_iff_eq, decide_eq_true_eq] at hpt
  obtain ⟨hid, hleaves⟩ := hpt
  have hkeep := (update_keeps_target_iff (fun _ h => absurd h List.not_mem_nil)
    (fun cmd hcmd => ?_) hrun hidItem ht hid.symm (fun c hc => ?_) fun d hd => ?_).mpr
    ⟨fun n hn => ?_, hflag ▸ hleaves⟩
  · rw [hid] at hkeep
    exact hkeep
  · simp only [exampleThree, List.mem_cons, List.not_mem_nil, or_false] at hcmd
    rcases hcmd with rfl | rfl | rfl | rfl
    · trivial
    · trivial
    · exact exampleCollect_flag (Or.inr rfl)
    · trivial
  · obtain rfl : CJson.number 1 = c := Option.some.inj hc
    exact Or.inr rfl
  · obtain rfl : CJson.string (cstr "soup") = d := Option.some.inj hd
    exact ⟨cstr "soup", rfl, by decide +kernel⟩
  · obtain rfl := Option.some.inj (hname.symm.trans hn)
    decide +kernel

/-- Forty dishes; the last of them is then told the flag it has. -/
def exampleFull : List HistoryCmd :=
  (List.range 40).map fun n => .cook (exampleCook 100) 5 (n + 1)

theorem update_loses_target :
    ∃ s t, historyMachine.run (databaseTaskInit Table.empty noRecipes []) exampleFull = some s ∧
      t ∈ s.historyList ∧ t.id = 40 ∧
      ¬ ∃ s', updateHistoryCb (exampleCollect 40 0) s = some s' ∧
        TargetKept t.id none (some 0) s.historyList s'.historyList := by
  have hrun : ((historyMachine.run (databaseTaskInit Table.empty noRecipes []) exampleFull).map
      fun s => (s.historyList.any (·.id == 40), (updateHistoryCb (exampleCollect 40 0) s).any
        fun s' => s'.historyList.any (·.id == 40))) = some (true, false) := by decide +kernel
  obtain ⟨s, hs, hp⟩ := Option.map_eq_some_iff.mp hrun
  obtain ⟨hbefore, hafter⟩ := (Prod.mk.injEq _ _ _ _).mp hp
  obtain ⟨t, ht, htid⟩ := List.any_eq_true.mp hbefore
  have htid : t.id = 40 := by simpa using htid
  refine ⟨s, t, hs, ht, htid, ?_⟩
  rintro ⟨s', hs', hkept⟩
  obtain ⟨p, -, hpid, t', ht', heq, -⟩ := hkept.target
  have hid : t'.id = 40 := by
    rw [heq]
    exact hpid.trans htid
  rw [hs', Option.any_some] at hafter
  have hno := List.any_eq_false.mp hafter t' ht'
  simp [hid] at hno

end X50
