/-
# `X50.HistoryOrder` — the order of the list

`recipes_t::operator<` compares flags by `collect > 0`, which is an order only
while the flags are 0 and 1, the values every client sends.  Over such records
it is the lexicographic order of `rank`: collected records first, the newest
of each class before the others.

    sorted    in every run with such flags the list stays sorted
    oldest    `lastHistoryId` names the record of a class with the least seqid
-/
import X50.HistoryChange
import Mathlib.Data.Prod.Lex

namespace X50

open X50.Lib

/-- A collect flag as the clients know it. -/
def IsFlag (c : Int) : Prop := c = 0 ∨ c = 1

instance (c : Int) : Decidable (IsFlag c) := inferInstanceAs (Decidable (_ ∨ _))

def Flagged (l : List History) : Prop := ∀ r ∈ l, IsFlag r.collect

/-- An `UpdateHistory` asks for a flag or for none. -/
def FlagRequest (item : CJson) : Prop :=
  ∀ c, item.getObjectItem (cstr "collect") = some c → IsFlag c.valueint

/-- A command whose flags are 0 and 1. -/
def FlagCmd : HistoryCmd → Prop
  | .update item => FlagRequest item
  | _ => True

/-- The place of a record in the order of the list. -/
def rank (r : History) : Int ×ₗ Int := toLex (r.collect, r.seqid)

def Sorted (l : List History) : Prop := (l.map rank).Pairwise (· ≥ ·)

theorem rank_le_iff {a b : History} :
    rank a ≤ rank b ↔ a.collect < b.collect ∨ a.collect = b.collect ∧ a.seqid ≤ b.seqid :=
  Prod.Lex.le_iff

theorem recipeLe_iff_rank {a b : History} (ha : IsFlag a.collect) (hb : IsFlag b.collect) :
    recipeLe a b ↔ rank a ≥ rank b := by
  rw [ge_iff_le, rank_le_iff, recipeLe, recipeLt]
  unfold IsFlag at ha hb
  split
  · simp only [decide_eq_false_iff_not]
    omega
  · simp only [decide_eq_false_iff_not]
    omega

theorem sortHistory_sorted {l : List History} (hl : Flagged l) : Sorted (sortHistory l) := by
  have hmap : (sortHistory l).map rank = (l.map rank).insertionSort (· ≥ ·) :=
    List.map_insertionSort recipeLe (· ≥ ·) rank l fun a ha b hb =>
      recipeLe_iff_rank (hl a ha) (hl b hb)
  rw [Sorted, hmap]
  exact List.pairwise_insertionSort _ _

theorem Flagged.of_perm {l m : List History} (h : Flagged l) (hp : m.Perm l) : Flagged m :=
  fun r hr => h r (hp.subset hr)

/-! ## The invariant -/

/-- The list is sorted and its flags are flags. -/
structure OrderInv (s : HistoryState) : Prop extends HistoryInv s where
  flagged : Flagged s.historyList
  sorted : Sorted s.historyList

section

variable {s s' : HistoryState} {c : Change} {cmd : HistoryCmd}

theorem flagged_rows {f : History → History} (hf : Observes f)
    (ha : AgreeUpTo f s.historyList s.history.rows) (hl : Flagged s.historyList) :
    Flagged s.history.rows := by
  intro r hr
  obtain ⟨q, hq, hqr⟩ := ha.symm.exists_mem hr
  have hcollect : q.collect = r.collect := hf.collect hqr
  exact hcollect ▸ hl q hq

theorem overwrite_flag {single r : History} (hs : single.collect < 0 ∨ IsFlag single.collect)
    (hr : IsFlag r.collect) : IsFlag (overwrite single r).collect := by
  simp only [overwrite]
  split
  · rcases hs with hs | hs
    · omega
    · exact hs
  · exact hr

/-- What a change must carry to keep the flags flags. -/
def Change.Flagged : Change → Prop
  | .update single => single.collect < 0 ∨ IsFlag single.collect
  | .insert single => IsFlag single.collect
  | _ => True

/-- A property of single records that a change's own record brings along. -/
theorem does_forall {P : History → Prop} (hb : SeqidBound s) (h : Does c s s')
    (hupdate : ∀ single, c = .update single → ∀ q seqid, P q →
      P (overwrite { single with seqid := seqid } q))
    (hinsert : ∀ single, c = .insert single → ∀ id seqid, 0 < id →
      P { single with id := id, seqid := seqid })
    (hstamp : ∀ q now, P q → P { q with timestamp := now })
    (hl : ∀ r ∈ s.historyList, P r) (hr : ∀ r ∈ s.history.rows, P r) :
    (∀ r ∈ s'.historyList, P r) ∧ ∀ r ∈ s'.history.rows, P r := by
  cases h with
  | update single =>
      constructor
      · intro r hmem
        rcases mem_updateFirst ((sortHistory_perm _).subset hmem) with hmem | ⟨q, hq, rfl⟩
        · exact hl r hmem
        · exact hupdate single rfl q _ (hl q hq)
      · rw [rows_wrapperHistoryUpdateCb hb]
        intro r hmem
        obtain ⟨q, hq, rfl⟩ := mem_updateAt.mp hmem
        split
        · exact hupdate single rfl q _ (hr q hq)
        · exact hr q hq
  | delete id out =>
      exact ⟨fun r hmem => hl r (mem_deleteAt.mp hmem).1,
        fun r hmem => hr r (mem_deleteAt.mp hmem).1⟩
  | insert hins =>
      obtain ⟨hlist, hrows, -, -, hid, -⟩ := wrapperHistoryInsertCb_spec hb hins
      rw [hlist, hrows]
      constructor
      · intro r hmem
        rcases List.mem_cons.mp ((sortHistory_perm _).subset hmem) with rfl | hmem
        · exact hinsert _ rfl _ _ hid.1
        · exact hl r hmem
      · intro r hmem
        rcases List.mem_append.mp hmem with hmem | hmem
        · exact hr r hmem
        · obtain rfl := List.mem_singleton.mp hmem
          exact hinsert _ rfl _ _ hid.1
  | stamp now hsplit =>
      refine ⟨fun r hmem => ?_, hr⟩
      rw [hsplit] at hl
      simp only [List.mem_append, List.mem_cons] at hmem
      rename_i q pre post
      rcases hmem with hmem | rfl | hmem
      · exact hl r (List.mem_append_left _ hmem)
      · exact hstamp q now (hl q (List.mem_append_right _ List.mem_cons_self))
      · exact hl r (List.mem_append_right _ (List.mem_cons_of_mem _ hmem))
  | clear =>
      exact ⟨fun r hmem => absurd hmem List.not_mem_nil, fun r hmem => absurd hmem List.not_mem_nil⟩
  | restart =>
      have hrows : (restart s).history = s.history := history_databaseTaskInit _ _ _
      refine ⟨fun r hmem => hr r ?_, hrows ▸ hr⟩
      exact (databaseTaskInit_perm _ _ _).subset hmem
  | report out => exact ⟨hl, hr⟩

/-- What the order of the list rests on; a report keeps it too. -/
structure ListInv (s : HistoryState) : Prop where
  bound : SeqidBound s
  idPos : ∀ r ∈ s.historyList, 0 < r.id
  flagged : Flagged s.historyList
  rowsFlagged : Flagged s.history.rows
  sorted : Sorted s.historyList

theorem OrderInv.listInv (hinv : OrderInv s) : ListInv s where
  bound := hinv.bound
  idPos := ids_pos observes_forgetTimestamp hinv.agree
  flagged := hinv.flagged
  rowsFlagged := flagged_rows observes_forgetTimestamp hinv.agree hinv.flagged
  sorted := hinv.sorted

theorem does_flagged (hinv : ListInv s) (h : Does c s s') (hc : c.Flagged) :
    Flagged s'.historyList ∧ Flagged s'.history.rows := by
  refine does_forall hinv.bound h ?_ ?_ (fun q now hq => hq) hinv.flagged hinv.rowsFlagged
  · rintro single rfl q seqid hq
    exact overwrite_flag hc hq
  · rintro single rfl id seqid -
    exact hc

theorem does_sorted (hinv : ListInv s) (h : Does c s s') (hflagged : Flagged s'.historyList) :
    Sorted s'.historyList := by
  cases h with
  | update single => exact sortHistory_sorted (hflagged.of_perm (sortHistory_perm _).symm)
  | delete id out => exact hinv.sorted.sublist (deleteAt_sublist.map rank)
  | insert hins =>
      rw [(wrapperHistoryInsertCb_spec hinv.bound hins).1] at hflagged ⊢
      exact sortHistory_sorted (hflagged.of_perm (sortHistory_perm _).symm)
  | stamp now hl =>
      have hsorted := hinv.sorted
      rw [hl, Sorted, List.map_append, List.map_cons] at hsorted
      rw [Sorted, List.map_append, List.map_cons]
      exact hsorted
  | clear => exact List.Pairwise.nil
  | restart =>
      have hlist : (restart s).historyList = sortHistory s.history.rows.reverse :=
        historyList_databaseTaskInit _ _ _
      rw [hlist] at hflagged ⊢
      exact sortHistory_sorted (hflagged.of_perm (sortHistory_perm _).symm)
  | report out => exact hinv.sorted

theorem does_listInv (hinv : ListInv s) (h : Does c s s') (hc : c.Flagged) : ListInv s' where
  bound := does_bound hinv.bound h
  idPos := by
    refine (does_forall hinv.bound h ?_ ?_ (fun q now hq => hq) hinv.idPos
      s.history.idPos).1
    · exact fun single _ q seqid hq => hq
    · exact fun single _ id seqid hid => hid
  flagged := (does_flagged hinv h hc).1
  rowsFlagged := (does_flagged hinv h hc).2
  sorted := does_sorted hinv h (does_flagged hinv h hc).1

theorem does_orderInv (hinv : OrderInv s) (h : Does c s s') (hc : c.Flagged) : OrderInv s' where
  agree := by
    refine does_agree observes_forgetTimestamp hinv.bound hinv.agree h ?_
    exact fun _ _ _ => rfl
  bound := does_bound hinv.bound h
  flagged := (does_listInv hinv.listInv h hc).flagged
  sorted := (does_listInv hinv.listInv h hc).sorted

theorem requestCollect_flag {item : CJson} (hitem : FlagRequest item) :
    requestCollect item = -1 ∨ IsFlag (requestCollect item) := by
  unfold requestCollect
  cases hc : item.getObjectItem (cstr "collect") with
  | none => exact Or.inl rfl
  | some c => exact Or.inr (hitem c hc)

theorem updateHistoryRecord_flag {item id : CJson} {single : History} (hitem : FlagRequest item)
    (h : updateHistoryRecord item id = some single) :
    single.collect < 0 ∨ IsFlag single.collect := by
  obtain ⟨-, -, hcollect, -⟩ := updateHistoryRecord_eq_some h
  rw [hcollect]
  rcases requestCollect_flag hitem with hneg | hflag
  · exact Or.inl (by omega)
  · exact Or.inr hflag

theorem causes_flagged (hcmd : FlagCmd cmd) (hc : Causes s cmd c) : c.Flagged := by
  cases c with
  | update single =>
      rcases hc with hc | ⟨item, id, rfl, -, hrec⟩
      · exact Or.inr (Or.inl hc)
      · exact updateHistoryRecord_flag hcmd hrec
  | insert single => exact Or.inl hc
  | delete id => trivial
  | stamp r now => trivial
  | clear => trivial
  | restart => trivial
  | report => trivial

theorem orderInv_step (hcmd : FlagCmd cmd) (hinv : OrderInv s)
    (h : historyMachine.step s cmd = some s') : OrderInv s' :=
  (step_changes (ids_pos observes_forgetTimestamp hinv.agree) h).keeps
    (fun _ _ _ hc hdoes hs => does_orderInv hs hdoes (causes_flagged hcmd hc)) hinv

theorem listInv_step (hcmd : FlagCmd cmd) (hinv : ListInv s)
    (h : historyMachine.step s cmd = some s') : ListInv s' :=
  (step_changes hinv.idPos h).keeps
    (fun _ _ _ hc hdoes hs => does_listInv hs hdoes (causes_flagged hcmd hc)) hinv

theorem orderInv_init {history : Table} (hflags : Flagged history.rows) (recipe : RecipeTable)
    (out : List Report) : OrderInv (databaseTaskInit history recipe out) where
  toHistoryInv := historyInv_init history recipe out
  flagged := hflags.of_perm (databaseTaskInit_perm _ _ _)
  sorted := by
    rw [historyList_databaseTaskInit]
    exact sortHistory_sorted (hflags.of_perm (List.reverse_perm _))

theorem orderInv_run {history : Table} {recipe : RecipeTable} {out : List Report}
    {cmds : List HistoryCmd} (hflags : Flagged history.rows) (hcmds : ∀ cmd ∈ cmds, FlagCmd cmd)
    (h : historyMachine.run (databaseTaskInit history recipe out) cmds = some s) :
    OrderInv s :=
  Machine.run_invariant (fun _ _ _ hcmd hinv hstep => orderInv_step hcmd hinv hstep)
    hcmds (orderInv_init hflags recipe out) h

/-! ## What the order gives -/

theorem seqids_nodup (hinv : HistoryInv s) : (s.historyList.map (·.seqid)).Nodup :=
  (List.Perm.nodup_iff (hinv.agree.coarser observes_forgetTimestamp.seqid)).mpr
    s.history.seqidNodup

/-- `t` is the record of its class with the least seqid. -/
def Oldest (c : Int) (l : List History) (t : History) : Prop :=
  t.collect = c ∧ ∀ r ∈ l, r.collect = c → t.seqid ≤ r.seqid

instance (c : Int) (l : List History) (t : History) : Decidable (Oldest c l t) :=
  inferInstanceAs (Decidable (_ ∧ _))

/-- In a sorted list the last record of a class is its oldest. -/
theorem lastHistoryId_oldest {c : Int} {l : List History} (hl : Sorted l)
    (hex : ∃ r ∈ l, r.collect = c) : ∃ r ∈ l, Oldest c l r ∧ lastHistoryId c l = r.id := by
  cases hf : l.reverse.find? (fun r => r.collect == c) with
  | none =>
      obtain ⟨r, hr, hc⟩ := hex
      have hnone := List.find?_eq_none.mp hf r (List.mem_reverse.mpr hr)
      simp [hc] at hnone
  | some r =>
      obtain ⟨hrc, as, bs, hrev, has⟩ := List.find?_eq_some_iff_append.mp hf
      have hrc : r.collect = c := by simpa using hrc
      have hsplit : l = bs.reverse ++ r :: as.reverse := by
        rw [← List.reverse_reverse l, hrev]
        simp
      refine ⟨r, by simp [hsplit], ⟨hrc, ?_⟩, by simp [lastHistoryId, hf]⟩
      intro q hq hqc
      rw [hsplit] at hq hl
      rw [Sorted, List.pairwise_map, List.pairwise_append] at hl
      rcases List.mem_append.mp hq with hq | hq
      · -- `q` stands before `r`, in the same class
        have hrank := rank_le_iff.mp (hl.2.2 q hq r List.mem_cons_self)
        omega
      · rcases List.mem_cons.mp hq with rfl | hq
        · exact le_refl _
        · have hno := has q (List.mem_reverse.mp hq)
          simp [hqc] at hno

/-- `lastHistoryId` of a class that has records names `t` exactly when `t` is
the oldest of the class. -/
theorem lastHistoryId_eq_iff {c : Int} {t : History} (hinv : OrderInv s)
    (ht : t ∈ s.historyList) (hex : ∃ r ∈ s.historyList, r.collect = c) :
    lastHistoryId c s.historyList = t.id ↔ Oldest c s.historyList t := by
  obtain ⟨r, hr, hold, hlast⟩ := lastHistoryId_oldest hinv.sorted hex
  rw [hlast]
  constructor
  · intro hid
    have hrt : r = t := List.inj_on_of_nodup_map
      (ids_nodup observes_forgetTimestamp hinv.agree) hr ht hid
    exact hrt ▸ hold
  · intro ht'
    have hseq : r.seqid = t.seqid :=
      le_antisymm (hold.2 t ht ht'.1) (ht'.2 r hr hold.1)
    have hrt : r = t := List.inj_on_of_nodup_map (seqids_nodup hinv.toHistoryInv) hr ht hseq
    exact hrt ▸ rfl

end

end X50
