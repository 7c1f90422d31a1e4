/-
# `X50.HistoryFollow` — a client that follows the history by its reports

A client takes the `CookHistory` array once and then applies what is reported:
`InsertHistory` adds a record, `UpdateHistory` overwrites the fields it lists,
`DeleteHistory` removes the ids it lists.  It keeps four fields of a record.

    InsertHistory   {"InsertHistory": {"id": …, …}}
    UpdateHistory   {"UpdateHistory": {"id": …, …}}
    DeleteHistory   {"DeleteHistory": [id, …]}      of a request
    eviction        [id]                            the key is missing

`wrapper_history_delete_cb` reports a bare array, which says nothing to a client;
so the client has what the list has in every state of a run exactly when no
command of the run evicts a record.
-/
import X50.HistoryUpdate
import X50.Lib.Follow

namespace X50

open X50.Lib

/-! ## The client -/

/-- What the client keeps of a record. -/
structure HistoryEntry where
  id : Int
  seqid : Int
  dishName : CStr
  collect : Int
deriving DecidableEq, Repr

/-- The integer member `name`, if the object has it. -/
def memberInt (item : CJson) (name : String) (n : Int) : Int :=
  ((item.getObjectItem (cstr name)).map CJson.valueint).getD n

/-- The string member `name`, if the object has it. -/
def memberString (item : CJson) (name : String) (s : CStr) : CStr :=
  ((item.getObjectItem (cstr name)).bind CJson.valuestring).getD s

/-- The fields an object lists, overwritten. -/
def HistoryEntry.overwrite (item : CJson) (e : HistoryEntry) : HistoryEntry where
  id := e.id
  seqid := memberInt item "seqid" e.seqid
  dishName := memberString item "dishName" e.dishName
  collect := memberInt item "collect" e.collect

/-- A record as the client reads it from an object. -/
def HistoryEntry.read (item : CJson) : HistoryEntry :=
  HistoryEntry.overwrite item
    { id := memberInt item "id" 0, seqid := 0, dishName := [], collect := 0 }

/-- The client takes a snapshot. -/
def clientSnapshot (cookHistory : CJson) : List HistoryEntry :=
  cookHistory.children.map HistoryEntry.read

/-- The ids a report announces as removed. -/
def deletedIds (root : CJson) : List Int :=
  match root.getObjectItem (cstr "DeleteHistory") with
  | some ids => ids.children.map CJson.valueint
  | none => []

/-- The same of a report that may be none. -/
def announcedIds : Report → List Int
  | .platform root => deletedIds root
  | _ => []

def insertEntry (root : CJson) (l : List HistoryEntry) : List HistoryEntry :=
  match root.getObjectItem (cstr "InsertHistory") with
  | some item => HistoryEntry.read item :: l
  | none => l

def updateEntry (root : CJson) (l : List HistoryEntry) : List HistoryEntry :=
  match root.getObjectItem (cstr "UpdateHistory") with
  | some item => updateAt HistoryEntry.id (memberInt item "id" 0) (HistoryEntry.overwrite item) l
  | none => l

def deleteEntries (root : CJson) (l : List HistoryEntry) : List HistoryEntry :=
  l.filter fun e => e.id ∉ deletedIds root

/-- The client applies a report. -/
def clientApply (l : List HistoryEntry) : Report → List HistoryEntry
  | .platform root => deleteEntries root (updateEntry root (insertEntry root l))
  | _ => l

/-- What the client should have of a record. -/
def History.entry (r : History) : HistoryEntry where
  id := r.id
  seqid := r.seqid
  dishName := r.dishName
  collect := r.collect

/-- The client has the records of the list. -/
def Follows (s : HistoryState) (l : List HistoryEntry) : Prop :=
  l.Perm (s.historyList.map History.entry)

instance (s : HistoryState) (l : List HistoryEntry) : Decidable (Follows s l) :=
  inferInstanceAs (Decidable (List.Perm _ _))

/-- Every record that leaves the list between `s` and `s'` is announced. -/
def Announces (s s' : HistoryState) : Prop :=
  ∀ r ∈ s.historyList, r.id ∉ s'.historyList.map (·.id) →
    r.id ∈ (s'.out.drop s.out.length).flatMap announcedIds

/-! ## What the reports say to the client -/

theorem read_snapshotItem (r : History) :
    HistoryEntry.read (wrapperHistroySelectCb false r) = r.entry := rfl

/-- The fields an update lists are those it overwrites. -/
theorem overwrite_updateMembers (single r : History) (seqid : Int) :
    HistoryEntry.overwrite (.object (updateMembers single seqid)) r.entry =
      (overwrite { single with seqid := seqid } r).entry := by
  by_cases hc : 0 ≤ single.collect <;> by_cases ht : 0 < single.timestamp <;>
    by_cases hn : 0 < single.dishName.length <;>
    simp only [updateMembers, overwrite, hc, ht, hn, if_true, if_false] <;> rfl

/-- The message of an `UpdateHistory`. -/
def updateReport (single : History) (seqid : Int) : Report :=
  .platform (.object [(cstr "UpdateHistory", .object (updateMembers single seqid))])

/-- The message of an `InsertHistory`. -/
def insertReport (row : History) : Report :=
  .platform (.object [(cstr "InsertHistory", .object (selectSeqidMembers row))])

/-- What `wrapper_history_delete_cb` reports. -/
def evictReport (id : Int) : Report := .platform (.array [.number id])

/-- The message of a `DeleteHistory`. -/
def deleteReport (ids : List Int) : Report :=
  .platform (.object [(cstr "DeleteHistory", .array (ids.map .number))])

section

variable {l : List HistoryEntry} {s s' : HistoryState}

theorem filter_not_mem_nil : (l.filter fun e => decide (e.id ∉ ([] : List Int))) = l := by
  simp

theorem clientApply_update (single : History) (seqid : Int) :
    clientApply l (updateReport single seqid) =
      updateAt HistoryEntry.id single.id
        (HistoryEntry.overwrite (.object (updateMembers single seqid))) l :=
  filter_not_mem_nil

theorem clientApply_insert (row : History) :
    clientApply l (insertReport row) = row.entry :: l :=
  filter_not_mem_nil

/-- A bare array says nothing to the client. -/
theorem clientApply_evict (id : Int) : clientApply l (evictReport id) = l :=
  filter_not_mem_nil

theorem deletedIds_delete (ids : List Int) :
    deletedIds (.object [(cstr "DeleteHistory", .array (ids.map .number))]) = ids := by
  show (ids.map CJson.number).map CJson.valueint = ids
  rw [List.map_map]
  exact List.map_id ids

theorem flatMap_deleteReport (ids : List Int) :
    [deleteReport ids].flatMap announcedIds = ids := by
  rw [List.flatMap_singleton]
  exact deletedIds_delete ids

theorem clientApply_delete (ids : List Int) :
    clientApply l (deleteReport ids) = l.filter fun e => decide (e.id ∉ ids) := by
  show (l.filter fun e => decide (e.id ∉ deletedIds _)) = _
  rw [deletedIds_delete]

/-! ## What the callbacks report -/

theorem out_wrapperHistoryUpdateCb (single : History) (s : HistoryState) :
    (wrapperHistoryUpdateCb single s).out = s.out ++ [updateReport single (s.gHistorySeqid + 1)] :=
  rfl

end

/-! ## One command -/

/-- The commands a client follows the history through. -/
def Followed : HistoryCmd → Prop
  | .cook _ _ _ => True
  | .update _ => True
  | .delete _ => True
  | _ => False

instance : (cmd : HistoryCmd) → Decidable (Followed cmd)
  | .cook _ _ _ => isTrue trivial
  | .update _ => isTrue trivial
  | .delete _ => isTrue trivial
  | .reset => isFalse id
  | .restart => isFalse id

/-- The command evicts a record: a dish that is not among the collected ones is
cooked and the quota of the others is used up; or an update with a flag finds the
class it counts full, and its target is not the last of that class. -/
def Evicts (s : HistoryState) : HistoryCmd → Prop
  | .cook root now _ => ∃ o ∈ cookHistoryRecord s.recipe root, ∃ recipe ∈ o,
      matchCollect { recipe with timestamp := now } s.historyList = none ∧
        maxHistory ≤ getHistoryCount s.historyList
  | .update item => ∃ id ∈ item.getObjectItem (cstr "id"),
      ∃ single ∈ updateHistoryRecord item id,
      ∃ iter ∈ s.historyList.find? (fun r => r.id == single.id),
        0 ≤ single.collect ∧ 0 ≤ surplusId single iter s.historyList ∧
          surplusId single iter s.historyList ≠ single.id
  | _ => False

instance (s : HistoryState) : (cmd : HistoryCmd) → Decidable (Evicts s cmd)
  | .cook _ _ _ => inferInstanceAs (Decidable (∃ o ∈ cookHistoryRecord _ _, ∃ recipe ∈ o, _ ∧ _))
  | .update _ => inferInstanceAs (Decidable (∃ id ∈ CJson.getObjectItem _ _,
      ∃ single ∈ updateHistoryRecord _ id, ∃ iter ∈ List.find? _ _, _ ∧ _ ∧ _))
  | .delete _ => isFalse id
  | .reset => isFalse id
  | .restart => isFalse id

/-- What a command reports, and what it makes of the entries; the flag says that a
record was evicted. -/
inductive Tells (l : List HistoryEntry) : Bool → List Report → List HistoryEntry → Prop
  | nothing {l' : List HistoryEntry} : l'.Perm l → Tells l false [] l'
  | update {l' : List HistoryEntry} {single : History} {seqid : Int} :
      l'.Perm (updateAt HistoryEntry.id single.id
        (HistoryEntry.overwrite (.object (updateMembers single seqid))) l) →
      Tells l false [updateReport single seqid] l'
  | insert {l' : List HistoryEntry} {row : History} : l'.Perm (row.entry :: l) →
      Tells l false [insertReport row] l'
  | delete {l' : List HistoryEntry} {ids : List Int} :
      l'.Perm (l.filter fun e => decide (e.id ∉ ids)) → Tells l false [deleteReport ids] l'
  | evictInsert {l' : List HistoryEntry} {row : History} {e : HistoryEntry} : e ∈ l →
      row.id ≠ e.id → l'.Perm (row.entry :: deleteAt HistoryEntry.id e.id l) →
      Tells l true [evictReport e.id, insertReport row] l'
  | evictUpdate {l' : List HistoryEntry} {single : History} {seqid : Int} {e : HistoryEntry} :
      e ∈ l → single.id = e.id → l'.Perm (deleteAt HistoryEntry.id e.id l) →
      Tells l true [evictReport e.id, updateReport single seqid] l'

section

variable {l l' copy : List HistoryEntry} {evicts : Bool} {new : List Report}

/-- **A copy stays good exactly when nothing is evicted.** -/
theorem Tells.follows_iff (h : Tells l evicts new l') (hc : copy.Perm l) :
    (new.foldl clientApply copy).Perm l' ↔ evicts = false := by
  cases h with
  | nothing hl => exact ⟨fun _ => rfl, fun _ => hc.trans hl.symm⟩
  | update hl =>
      refine ⟨fun _ => rfl, fun _ => ?_⟩
      rw [List.foldl_cons, clientApply_update]
      exact (hc.map _).trans hl.symm
  | insert hl =>
      refine ⟨fun _ => rfl, fun _ => ?_⟩
      rw [List.foldl_cons, clientApply_insert]
      exact (hc.cons _).trans hl.symm
  | delete hl =>
      refine ⟨fun _ => rfl, fun _ => ?_⟩
      rw [List.foldl_cons, clientApply_delete]
      exact (hc.filter _).trans hl.symm
  | @evictInsert _ _ e he _ hl =>
      refine ⟨fun h => ?_, fun h => by cases h⟩
      rw [List.foldl_cons, clientApply_evict, List.foldl_cons, clientApply_insert] at h
      have hlen := (h.trans hl).length_eq
      have hlt : (deleteAt HistoryEntry.id e.id l).length < l.length := length_deleteAt_lt he
      simp only [List.foldl_nil, List.length_cons, hc.length_eq] at hlen
      omega
  | @evictUpdate _ _ _ e he _ hl =>
      refine ⟨fun h => ?_, fun h => by cases h⟩
      rw [List.foldl_cons, clientApply_evict, List.foldl_cons, clientApply_update] at h
      have hlen := (h.trans hl).length_eq
      have hlt : (deleteAt HistoryEntry.id e.id l).length < l.length := length_deleteAt_lt he
      simp only [List.foldl_nil, updateAt, List.length_map, hc.length_eq] at hlen
      omega

theorem Tells.announced_iff (h : Tells l evicts new l') :
    (∀ e ∈ l, e.id ∉ l'.map HistoryEntry.id → e.id ∈ new.flatMap announcedIds) ↔
      evicts = false := by
  -- an id that is still there need not be announced
  have hkept : ∀ {m : List HistoryEntry} {e : HistoryEntry}, l'.Perm m →
      e.id ∈ m.map HistoryEntry.id → e.id ∉ l'.map HistoryEntry.id → False :=
    fun hp hm hno => hno ((hp.map HistoryEntry.id).mem_iff.mpr hm)
  cases h with
  | nothing hl =>
      exact ⟨fun _ => rfl, fun _ e he hno => (hkept hl (List.mem_map_of_mem he) hno).elim⟩
  | update hl =>
      refine ⟨fun _ => rfl, fun _ e he hno => (hkept hl ?_ hno).elim⟩
      rw [map_updateAt_of_eq (u := HistoryEntry.overwrite _) fun _ => rfl]
      exact List.mem_map_of_mem he
  | insert hl =>
      refine ⟨fun _ => rfl, fun _ e he hno => (hkept hl ?_ hno).elim⟩
      exact List.mem_map_of_mem (List.mem_cons_of_mem _ he)
  | @delete _ ids hl =>
      refine ⟨fun _ => rfl, fun _ e he hno => ?_⟩
      rw [flatMap_deleteReport]
      by_contra hid
      exact hkept hl (List.mem_map_of_mem (List.mem_filter.mpr ⟨he, by simpa using hid⟩)) hno
  | @evictInsert _ row e he hne hl =>
      refine ⟨fun h => ?_, fun h => by cases h⟩
      have hgone : e.id ∉ l'.map HistoryEntry.id := by
        intro hmem
        rw [(hl.map HistoryEntry.id).mem_iff, List.map_cons, List.mem_cons] at hmem
        rcases hmem with hrow | hmem
        · exact hne hrow.symm
        · obtain ⟨q, hq, hqe⟩ := List.mem_map.mp hmem
          exact (mem_deleteAt.mp hq).2 hqe
      exact absurd (h e he hgone) List.not_mem_nil
  | @evictUpdate _ single seqid e he _ hl =>
      refine ⟨fun h => ?_, fun h => by cases h⟩
      have hgone : e.id ∉ l'.map HistoryEntry.id := by
        intro hmem
        obtain ⟨q, hq, hqe⟩ := List.mem_map.mp ((hl.map HistoryEntry.id).mem_iff.mp hmem)
        exact (mem_deleteAt.mp hq).2 hqe
      exact absurd (h e he hgone) List.not_mem_nil

end

/-! ## What every command tells -/

section

variable {s s' : HistoryState}

theorem entries_update (single : History) (seqid : Int) (l : List History) :
    (updateAt (·.id) single.id (overwrite { single with seqid := seqid }) l).map History.entry =
      updateAt HistoryEntry.id single.id
        (HistoryEntry.overwrite (.object (updateMembers single seqid))) (l.map History.entry) :=
  map_updateAt (fun _ => rfl) fun r => (overwrite_updateMembers single r seqid).symm

theorem entries_deleteAt (id : Int) (l : List History) :
    (deleteAt (·.id) id l).map History.entry =
      deleteAt HistoryEntry.id id (l.map History.entry) := by
  rw [deleteAt, deleteAt, List.filter_map]
  rfl

/-- An update of the list, as the entries see it. -/
theorem entries_wrapperHistoryUpdateCb (hn : (s.historyList.map (·.id)).Nodup)
    (single : History) :
    ((wrapperHistoryUpdateCb single s).historyList.map History.entry).Perm
      (updateAt HistoryEntry.id single.id
        (HistoryEntry.overwrite (.object (updateMembers single (s.gHistorySeqid + 1))))
        (s.historyList.map History.entry)) := by
  rw [list_wrapperHistoryUpdateCb hn, ← entries_update]
  exact (sortHistory_perm _).map _

theorem entries_wrapperHistoryInsertCb {single : History} {rowid : Int} (hb : SeqidBound s)
    (h : wrapperHistoryInsertCb single rowid s = some s') :
    let row := { single with seqid := s.gHistorySeqid + 1, id := rowid }
    (s'.historyList.map History.entry).Perm (row.entry :: s.historyList.map History.entry) ∧
      s'.out = s.out ++ [insertReport row] := by
  obtain ⟨hlist, -, -, -, -, hout⟩ := wrapperHistoryInsertCb_spec hb h
  refine ⟨?_, hout⟩
  rw [hlist]
  exact (sortHistory_perm _).map _

theorem cookHistory_tells {root : CJson} {now rowid : Int} (hinv : HistoryInv s)
    (hfresh : freshRowid s rowid) (h : cookHistory root now rowid s = some s') :
    ∃ evicts new, s'.out = s.out ++ new ∧
      Tells (s.historyList.map History.entry) evicts new (s'.historyList.map History.entry) ∧
      (evicts = true ↔ Evicts s (.cook root now rowid)) := by
  have hpos := ids_pos observes_forgetTimestamp hinv.agree
  have hids := ids_nodup observes_forgetTimestamp hinv.agree
  rcases cookHistory_cases h with ⟨hrec, rfl⟩ | ⟨recipe, hrec, -, hins⟩
  · refine ⟨false, [], (List.append_nil _).symm, .nothing (List.Perm.refl _), ?_⟩
    simp [Evicts, hrec]
  · have hevicts : Evicts s (.cook root now rowid) ↔
        matchCollect { recipe with timestamp := now } s.historyList = none ∧
          maxHistory ≤ getHistoryCount s.historyList := by
      simp [Evicts, hrec]
    rw [hevicts]
    rcases insertHistory_cases hpos hins with ⟨r, pre, post, hm, hl, rfl⟩ | ⟨hm, hins⟩
    · -- the record refreshed gets a time, which the entries do not have
      refine ⟨false, _, out_wrapperHistoryUpdateCb _ _, .update ?_, ?_⟩
      · have hsame : (pre ++ { r with timestamp := now } :: post).map History.entry =
            s.historyList.map History.entry := by
          rw [hl, List.map_append, List.map_append, List.map_cons, List.map_cons]
          rfl
        have hids' : ((pre ++ { r with timestamp := now } :: post).map (·.id)).Nodup := by
          rw [hl, List.map_append, List.map_cons] at hids
          rw [List.map_append, List.map_cons]
          exact hids
        rw [← hsame]
        exact entries_wrapperHistoryUpdateCb (s := { s with historyList := _ }) hids' _
      · simp [show matchCollect { recipe with timestamp := now } s.historyList = some r from hm]
    · have hm : matchCollect { recipe with timestamp := now } s.historyList = none := hm
      by_cases hfull : maxHistory ≤ getHistoryCount s.historyList
      · obtain ⟨r, hr, -, hroom⟩ := makeRoom_of_le hpos hfull
        rw [hroom] at hins
        obtain ⟨hlist, hout⟩ := entries_wrapperHistoryInsertCb (delete_bound hinv.bound r.id) hins
        refine ⟨true, _, hout.trans (List.append_assoc _ _ _),
          .evictInsert (e := r.entry) ?_ ?_ ?_, ?_⟩
        · exact List.mem_map_of_mem hr
        · obtain ⟨q, hq, hqr⟩ := hinv.agree.exists_mem hr
          have hqid : q.id = r.id := observes_forgetTimestamp.id hqr
          exact fun heq => hfresh.2 q hq (hqid.trans heq.symm)
        · rw [← entries_deleteAt]
          exact hlist
        · exact ⟨fun _ => ⟨hm, hfull⟩, fun _ => rfl⟩
      · rw [makeRoom_of_lt (not_le.mp hfull)] at hins
        obtain ⟨hlist, hout⟩ := entries_wrapperHistoryInsertCb hinv.bound hins
        refine ⟨false, _, hout, .insert hlist, ?_⟩
        exact ⟨fun h => absurd h Bool.false_ne_true, fun h => absurd h.2 hfull⟩

theorem updateHistoryCb_tells {item : CJson} (hinv : HistoryInv s)
    (h : updateHistoryCb item s = some s') :
    ∃ evicts new, s'.out = s.out ++ new ∧
      Tells (s.historyList.map History.entry) evicts new (s'.historyList.map History.entry) ∧
      (evicts = true ↔ Evicts s (.update item)) := by
  have hids := ids_nodup observes_forgetTimestamp hinv.agree
  rcases updateHistoryCb_cases h with ⟨rfl, hno⟩ | ⟨id, single, iter, hid, hrec, hfind, rfl⟩
  · refine ⟨false, [], (List.append_nil _).symm, .nothing (List.Perm.refl _), ?_⟩
    refine ⟨fun h => absurd h Bool.false_ne_true, ?_⟩
    rintro ⟨id, hid, single, hrec, iter, hiter, -⟩
    have hne := hno id hid iter (List.mem_of_find?_eq_some hiter)
    have heq : iter.id = single.id := by simpa using List.find?_some hiter
    exact absurd (heq.trans (updateHistoryRecord_eq_some hrec).1) hne
  · have hevicts : Evicts s (.update item) ↔ 0 ≤ single.collect ∧
        0 ≤ surplusId single iter s.historyList ∧
          surplusId single iter s.historyList ≠ single.id := by
      simp [Evicts, hid, hrec, hfind]
    rw [hevicts]
    have hmem : iter ∈ s.historyList := List.mem_of_find?_eq_some hfind
    have hiter : iter.id = single.id := by simpa using List.find?_some hfind
    unfold makeRoomFor
    by_cases hev : 0 ≤ single.collect ∧ 0 ≤ surplusId single iter s.historyList ∧
        surplusId single iter s.historyList ≠ single.id
    · rw [if_pos hev.1, if_pos hev.2, ← hiter]
      refine ⟨true, _, (out_wrapperHistoryUpdateCb _ _).trans (List.append_assoc _ _ _),
        .evictUpdate (e := iter.entry) (List.mem_map_of_mem hmem) hiter.symm ?_,
        fun _ => hiter.symm ▸ hev, fun _ => rfl⟩
      have hgone : ∀ r ∈ deleteAt History.id iter.id s.historyList, r.id ≠ single.id :=
        fun r hr => hiter ▸ (mem_deleteAt.mp hr).2
      have hlist := entries_wrapperHistoryUpdateCb
        (s := wrapperHistoryDeleteCb iter.id s) (nodup_map_deleteAt hids) single
      rw [← entries_update, show (wrapperHistoryDeleteCb iter.id s).historyList =
        deleteAt History.id iter.id s.historyList from rfl, updateAt_of_forall_ne hgone] at hlist
      exact hlist.trans (List.Perm.of_eq (entries_deleteAt _ _))
    · have hsame : (if 0 ≤ single.collect then
          if 0 ≤ surplusId single iter s.historyList ∧
              surplusId single iter s.historyList ≠ single.id then
            wrapperHistoryDeleteCb single.id s
          else s
        else s) = s := by
        split
        · rename_i hc
          exact if_neg fun h => hev ⟨hc, h⟩
        · rfl
      rw [hsame]
      exact ⟨false, _, out_wrapperHistoryUpdateCb _ _,
        .update (entries_wrapperHistoryUpdateCb hids single),
        fun h => absurd h Bool.false_ne_true, fun h => absurd h hev⟩

theorem deleteAndReport_tells (item : CJson) (s : HistoryState) :
    ∃ new, (deleteAndReport item s).out = s.out ++ new ∧
      Tells (s.historyList.map History.entry) false new
        ((deleteAndReport item s).historyList.map History.entry) := by
  by_cases hsize : item.getArraySize = 0
  · have hnone : deleteAndReport item s = s := by
      simp [deleteAndReport, deleteHistoryCb, hsize]
    rw [hnone]
    exact ⟨[], (List.append_nil _).symm, .nothing (List.Perm.refl _)⟩
  · generalize hids : item.children.map CJson.valueint = ids
    have hdone : ∀ (ids : List Int) (s : HistoryState),
        (ids.foldl (fun s id =>
          { s with
            historyList := reportDeleteHistory id s.historyList
            history := s.history.deleteRowFromTable id }) s).historyList =
          ids.foldl (fun l id => deleteAt (·.id) id l) s.historyList ∧
        (ids.foldl (fun s id =>
          { s with
            historyList := reportDeleteHistory id s.historyList
            history := s.history.deleteRowFromTable id }) s).out = s.out := by
      intro ids
      induction ids with
      | nil => exact fun s => ⟨rfl, rfl⟩
      | cons id ids ih => exact fun s => ih _
    obtain ⟨hlist, hout⟩ := hdone ids s
    refine ⟨[deleteReport ids], ?_, .delete (List.Perm.of_eq ?_)⟩
    · simp only [deleteAndReport, deleteHistoryCb, if_neg hsize, hids, hout]
      rfl
    · simp only [deleteAndReport, deleteHistoryCb, if_neg hsize, hids, hlist]
      rw [foldl_deleteAt, List.filter_map]
      rfl

/-- **What a command tells.** -/
theorem step_tells {cmd : HistoryCmd} (hcmd : Followed cmd) (hinv : HistoryInv s)
    (h : historyMachine.step s cmd = some s') :
    ∃ evicts new, s'.out = s.out ++ new ∧
      Tells (s.historyList.map History.entry) evicts new (s'.historyList.map History.entry) ∧
      (evicts = true ↔ Evicts s cmd) := by
  cases cmd with
  | cook root now rowid =>
      simp only [historyMachine] at h
      split at h
      · exact cookHistory_tells hinv ‹_› h
      · cases h
  | update item => exact updateHistoryCb_tells hinv h
  | delete item =>
      obtain rfl := Option.some.inj h
      obtain ⟨new, hout, htells⟩ := deleteAndReport_tells item s
      exact ⟨false, new, hout, htells, fun h => absurd h Bool.false_ne_true, False.elim⟩
  | reset => exact hcmd.elim
  | restart => exact hcmd.elim

/-- A command announces what it removes exactly when it evicts nothing. -/
theorem step_announces_iff {cmd : HistoryCmd} (hcmd : Followed cmd) (hinv : HistoryInv s)
    (h : historyMachine.step s cmd = some s') : Announces s s' ↔ ¬ Evicts s cmd := by
  obtain ⟨evicts, new, hout, htells, hev⟩ := step_tells hcmd hinv h
  have hnew : s'.out.drop s.out.length = new := by rw [hout, List.drop_left]
  rw [← hev, Bool.not_eq_true, ← htells.announced_iff, Announces, hnew]
  have hmap : (s'.historyList.map History.entry).map HistoryEntry.id =
      s'.historyList.map (·.id) := List.map_map
  rw [hmap]
  constructor
  · intro h e he
    obtain ⟨r, hr, rfl⟩ := List.mem_map.mp he
    exact h r hr
  · intro h r hr
    exact h r.entry (List.mem_map_of_mem hr)

theorem step_follows_iff {cmd : HistoryCmd} {copy : List HistoryEntry} {new : List Report}
    (hcmd : Followed cmd) (hinv : HistoryInv s) (hf : Follows s copy)
    (h : historyMachine.step s cmd = some s') (hnew : s'.out = s.out ++ new) :
    Follows s' (new.foldl clientApply copy) ↔ ¬ Evicts s cmd := by
  obtain ⟨evicts, new', hout, htells, hev⟩ := step_tells hcmd hinv h
  obtain rfl : new' = new := List.append_cancel_left (hout.symm.trans hnew)
  rw [← hev, Bool.not_eq_true]
  exact htells.follows_iff hf

theorem snapshot_follows (s : HistoryState) :
    Follows s (clientSnapshot (selectHistory false s.historyList)) := by
  refine List.Perm.of_eq ?_
  show ((s.historyList.map (wrapperHistroySelectCb false)).map HistoryEntry.read) = _
  rw [List.map_map]
  exact List.map_congr_left fun r _ => read_snapshotItem r

end

/-! ## Runs -/

/-- What a client has in state `s` that took its snapshot in state `s₀`. -/
def clientHistory (s₀ s : HistoryState) : List HistoryEntry :=
  follow clientApply (clientSnapshot (selectHistory false s₀.historyList)) s₀.out.length s.out

/-- **Following the history.**  A client takes its snapshot in any state that is
reached, and follows a run of cook commands, updates and deletes from there.  It
has the entries of the list in every state of the run exactly when no command
evicts a record; and those are the runs in which every removal is announced. -/
theorem history_followed_iff {history : Table} {recipe : RecipeTable} {before : List HistoryCmd}
    {s₀ : HistoryState}
    (hrun : historyMachine.run (databaseTaskInit history recipe []) before = some s₀)
    {cmds : List HistoryCmd} (hcmds : ∀ cmd ∈ cmds, Followed cmd) :
    (historyMachine.Along (fun s => Follows s (clientHistory s₀ s)) s₀ cmds ↔
      historyMachine.Meets (fun s cmd => ¬ Evicts s cmd) s₀ cmds) ∧
    (historyMachine.Meets (fun s cmd => ∀ s', historyMachine.step s cmd = some s' → Announces s s')
        s₀ cmds ↔
      historyMachine.Meets (fun s cmd => ¬ Evicts s cmd) s₀ cmds) := by
  have hinv : HistoryInv s₀ := historyInv_run hrun
  constructor
  · have hlog : ∀ s cmd s', Followed cmd → HistoryInv s → historyMachine.step s cmd = some s' →
        s.out <+: s'.out := by
      intro s cmd s' hcmd hs h
      obtain ⟨evicts, new, hout, -⟩ := step_tells hcmd hs h
      exact ⟨new, hout.symm⟩
    have hstep : ∀ s cmd s' copy new, Followed cmd → HistoryInv s → Follows s copy →
        historyMachine.step s cmd = some s' → s'.out = s.out ++ new →
          (Follows s' (new.foldl clientApply copy) ↔ ¬ Evicts s cmd) :=
      fun s cmd s' copy new hcmd hs hf h hnew => step_follows_iff hcmd hs hf h hnew
    have hiff := Machine.along_follow_iff hlog (fun s cmd s' _ hs h => historyInv_step hs h) hstep
      hcmds hinv (snapshot_follows s₀)
    exact hiff
  · refine Machine.meets_congr (V := Followed) (P := HistoryInv)
      (fun s cmd s' _ _ hs h => historyInv_step hs h) ?_ hcmds hinv
    intro s cmd s' hcmd hs h
    rw [← step_announces_iff hcmd hs h]
    constructor
    · exact fun hall => hall s' h
    · rintro hann t ht
      obtain rfl := Option.some.inj (h.symm.trans ht)
      exact hann

/-- A client that follows two dishes, a name and a removal. -/
theorem history_followed_removal :
    historyMachine.Along (fun s => Follows s
        (clientHistory (databaseTaskInit Table.empty noRecipes []) s))
      (databaseTaskInit Table.empty noRecipes [])
      [.cook (exampleCook 100) 5 1, .cook (exampleCook 120) 6 2, .update (exampleRename 1 "soup"),
        .delete (.array [.number 2])] := by
  refine (@history_followed_iff _ _ [] _ rfl _ ?_).1.mpr ?_
  · decide
  · decide +kernel

/-- The forty-first dish: a record goes, and the client keeps it. -/
theorem history_not_followed :
    ¬ historyMachine.Along (fun s => Follows s
        (clientHistory (databaseTaskInit Table.empty noRecipes []) s))
      (databaseTaskInit Table.empty noRecipes [])
      (exampleFull ++ [.cook (exampleCook 120) 6 41]) := by
  have hrun : ((historyMachine.run (databaseTaskInit Table.empty noRecipes [])
      (exampleFull ++ [.cook (exampleCook 120) 6 41])).map fun s =>
        decide (Follows s (clientHistory (databaseTaskInit Table.empty noRecipes []) s))) =
      some false := by decide +kernel
  obtain ⟨s, hs, hf⟩ := Option.map_eq_some_iff.mp hrun
  exact fun h => of_decide_eq_false hf (h.last hs)

end X50
