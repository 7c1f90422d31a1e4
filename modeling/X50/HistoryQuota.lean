/-
# `X50.HistoryQuota` — the two quotas of the history

At most `MAX_HISTORY` records are uncollected and at most `MAX_COLLECT` are
collected.  A cook command makes room in the uncollected class before it
inserts; the other commands but one only ever shrink a class.  The one is an
`UpdateHistory` that moves a record from one class to the other:

    collect      the collected class is counted, and it is the one that grows
    un-collect   the collected class is counted, but the other one grows

So the quotas hold along a run exactly when every un-collecting step of it
finds room in the uncollected class, or loses its record to the counting
(`X50.HistoryUpdate`).
-/
import X50.HistoryUpdate

namespace X50

open X50.Lib

/-- Both classes are within their quotas. -/
def WithinQuota (l : List History) : Prop :=
  getHistoryCount l ≤ maxHistory ∧ getCollectCount l ≤ maxCollect

instance (l : List History) : Decidable (WithinQuota l) :=
  inferInstanceAs (Decidable (_ ∧ _))

/-- Both stores are within the quotas. -/
def InQuota (s : HistoryState) : Prop :=
  WithinQuota s.historyList ∧ WithinQuota s.history.rows

instance (s : HistoryState) : Decidable (InQuota s) := inferInstanceAs (Decidable (_ ∧ _))

/-- An un-collecting command finds room for its target, or deletes it. -/
def KeepsQuota (s : HistoryState) : HistoryCmd → Prop
  | .update item => ∀ id, item.getObjectItem (cstr "id") = some id →
      ∀ t ∈ s.historyList, id.valueint = t.id → requestFlag item = some 0 → t.collect ≠ 0 →
        getHistoryCount s.historyList < maxHistory ∨
          maxCollect ≤ getCollectCount s.historyList ∧ ¬ Oldest 1 s.historyList t
  | _ => True

instance (s : HistoryState) : DecidablePred (KeepsQuota s)
  | .update item =>
      inferInstanceAs (Decidable (∀ id ∈ item.getObjectItem (cstr "id"),
        ∀ t ∈ s.historyList, id.valueint = t.id → requestFlag item = some 0 → t.collect ≠ 0 →
          getHistoryCount s.historyList < maxHistory ∨
            maxCollect ≤ getCollectCount s.historyList ∧ ¬ Oldest 1 s.historyList t))
  | .cook _ _ _ | .delete _ | .reset | .restart => isTrue trivial

section

variable {s s' : HistoryState} {cmd : HistoryCmd} {l m : List History}

theorem AgreeUpTo.withinQuota {f : History → History} (hf : Observes f) (h : AgreeUpTo f l m) :
    WithinQuota l ↔ WithinQuota m := by
  have h0 : getHistoryCount l = getHistoryCount m :=
    h.countP fun r q hrq => by
      have hc : r.collect = q.collect := hf.collect hrq
      simp only [hc]
  have h1 : getCollectCount l = getCollectCount m :=
    h.countP fun r q hrq => by
      have hc : r.collect = q.collect := hf.collect hrq
      simp only [hc]
  rw [WithinQuota, WithinQuota, h0, h1]

theorem inQuota_iff (hinv : HistoryInv s) : InQuota s ↔ WithinQuota s.historyList := by
  rw [InQuota, ← AgreeUpTo.withinQuota observes_forgetTimestamp hinv.agree, and_self]

theorem withinQuota_perm (h : l.Perm m) : WithinQuota l ↔ WithinQuota m :=
  AgreeUpTo.withinQuota observes_all (.of_perm h)

theorem WithinQuota.deleteAt {id : Int} (h : WithinQuota l) :
    WithinQuota (deleteAt (·.id) id l) :=
  ⟨(countP_deleteAt_le _).trans h.1, (countP_deleteAt_le _).trans h.2⟩

/-! ## Cook commands -/

/-- Room made, one more uncollected record fits. -/
theorem makeRoom_quota (hinv : HistoryInv s) (hq : WithinQuota s.historyList) :
    getHistoryCount (makeRoom s).historyList < maxHistory ∧
      getCollectCount (makeRoom s).historyList ≤ maxCollect := by
  by_cases hfull : maxHistory ≤ getHistoryCount s.historyList
  · obtain ⟨r, hr, hr0, hroom⟩ :=
      makeRoom_of_le (ids_pos observes_forgetTimestamp hinv.agree) hfull
    rw [hroom]
    constructor
    · refine lt_of_lt_of_le (countP_deleteAt_lt (p := fun r => r.collect == 0)
        (ids_nodup observes_forgetTimestamp hinv.agree) hr ?_) hq.1
      simpa using hr0
    · exact (countP_deleteAt_le _).trans hq.2
  · rw [makeRoom_of_lt (not_le.mp hfull)]
    exact ⟨not_le.mp hfull, hq.2⟩

theorem cookHistory_quota {root : CJson} {now rowid : Int} (hinv : HistoryInv s)
    (hq : WithinQuota s.historyList) (h : cookHistory root now rowid s = some s') :
    WithinQuota s'.historyList := by
  rcases cookHistory_cases h with ⟨-, rfl⟩ | ⟨recipe, -, hcollect, hins⟩
  · exact hq
  · rcases insertHistory_cases (ids_pos observes_forgetTimestamp hinv.agree) hins with
      ⟨r, pre, post, -, hl, rfl⟩ | ⟨-, hins⟩
    · rw [(stamped_update now hinv hl).1, withinQuota_perm (sortHistory_perm _)]
      refine (AgreeUpTo.withinQuota observes_forgetTimestamp (List.Perm.of_eq ?_)).mp (hl ▸ hq)
      rw [List.map_append, List.map_append, List.map_cons, List.map_cons]
      rfl
    · have hroom := makeRoom_quota hinv hq
      have hbound : SeqidBound (makeRoom s) := makeRoom_bound hinv.bound
      rw [(wrapperHistoryInsertCb_spec hbound hins).1, withinQuota_perm (sortHistory_perm _)]
      constructor
      · rw [getHistoryCount, List.countP_cons_of_pos (by simpa using hcollect)]
        exact hroom.1
      · rw [getCollectCount, List.countP_cons_of_neg (by simpa using hcollect)]
        exact hroom.2

/-! ## Updates -/

/-- How an update that keeps its target moves it between the classes. -/
theorem update_counts {item : CJson} {id : CJson} {single t : History} (hinv : HistoryInv s)
    (hitem : FlagRequest item) (hrec : updateHistoryRecord item id = some single)
    (hsid : single.id = t.id) (ht : t ∈ s.historyList) :
    ∃ rest, s.historyList.Perm (t :: rest) ∧
      ∃ t', t'.collect = (requestFlag item).getD t.collect ∧
        (wrapperHistoryUpdateCb single s).historyList.Perm (t' :: rest) := by
  have hids := ids_nodup observes_forgetTimestamp hinv.agree
  obtain ⟨rest, hperm, -, -, hupd⟩ := exists_perm_cons hids ht
  refine ⟨rest, hperm, overwrite { single with seqid := s.gHistorySeqid + 1 } t, ?_, ?_⟩
  · exact updateHistoryRecord_collect hitem hrec t
  · rw [list_wrapperHistoryUpdateCb hids]
    refine (sortHistory_perm _).trans ?_
    show (updateAt _ single.id _ _).Perm _
    rw [hsid]
    exact hupd _

/-- One record replaced: a class can only overflow if the record enters it. -/
theorem withinQuota_cons_iff {t t' : History} {rest : List History}
    (hq : WithinQuota (t :: rest)) :
    WithinQuota (t' :: rest) ↔
      (t'.collect = 0 → t.collect ≠ 0 → getHistoryCount (t :: rest) < maxHistory) ∧
      (t'.collect ≠ 0 → t.collect = 0 → getCollectCount (t :: rest) < maxCollect) := by
  simp only [WithinQuota, getHistoryCount, getCollectCount, List.countP_cons] at hq ⊢
  by_cases ht : t.collect = 0
  · by_cases ht' : t'.collect = 0
    · simp [ht, ht'] at hq ⊢
      exact hq
    · simp [ht, ht'] at hq ⊢
      omega
  · by_cases ht' : t'.collect = 0
    · simp [ht, ht'] at hq ⊢
      omega
    · simp [ht, ht'] at hq ⊢
      exact hq

theorem countedClass_of_ne {c : Int} {t : History} (h : c ≠ t.collect) : countedClass c t = 1 :=
  if_pos h

theorem classFull_one {l : List History} : ClassFull 1 l ↔ maxCollect ≤ getCollectCount l :=
  Iff.rfl

/-- A request that un-collects `t` finds room for it, or does not leave it. -/
def FindsRoom (l : List History) (collect : Option Int) (t : History) : Prop :=
  collect = some 0 → t.collect ≠ 0 → getHistoryCount l < maxHistory ∨
    maxCollect ≤ getCollectCount l ∧ ¬ Oldest 1 l t

/-- The request names `t` and no other record. -/
theorem keepsQuota_update_iff {item idItem : CJson} {t : History} (hinv : OrderInv s)
    (hidItem : item.getObjectItem (cstr "id") = some idItem) (ht : t ∈ s.historyList)
    (hid : idItem.valueint = t.id) :
    KeepsQuota s (.update item) ↔ FindsRoom s.historyList (requestFlag item) t := by
  constructor
  · exact fun hk => hk idItem hidItem t ht hid
  · intro hk id hid' q hq hqid
    obtain rfl := Option.some.inj (hidItem.symm.trans hid')
    have hqt : q = t := List.inj_on_of_nodup_map
      (ids_nodup observes_forgetTimestamp hinv.agree) hq ht (hqid.symm.trans hid)
    exact hqt ▸ hk

/-- A target that is left may change its class. -/
theorem left_target_quota_iff {item idItem : CJson} {single t : History} (hinv : HistoryInv s)
    (hitem : FlagRequest item) (hrec : updateHistoryRecord item idItem = some single)
    (hsid : single.id = t.id) (ht : t ∈ s.historyList) (hq : WithinQuota s.historyList)
    (hleaves : LeavesTarget s.historyList (requestFlag item) t) :
    WithinQuota (wrapperHistoryUpdateCb single s).historyList ↔
      FindsRoom s.historyList (requestFlag item) t := by
  obtain ⟨rest, hperm, t', hcollect, hperm'⟩ := update_counts hinv hitem hrec hsid ht
  have h0 : getHistoryCount s.historyList = getHistoryCount (t :: rest) := hperm.countP_eq _
  have h1 : getCollectCount s.historyList = getCollectCount (t :: rest) := hperm.countP_eq _
  have hmoves : ∀ c, requestFlag item = some c → c ≠ t.collect →
      getCollectCount s.historyList < maxCollect ∨ Oldest 1 s.historyList t := by
    intro c hc hne
    have hl := hleaves c hc
    rw [countedClass_of_ne hne, classFull_one, not_le] at hl
    exact hl
  rw [withinQuota_perm hperm', withinQuota_cons_iff ((withinQuota_perm hperm).mp hq),
    ← h0, ← h1, hcollect]
  constructor
  · rintro ⟨hhist, -⟩ hf ht0
    rw [hf] at hhist
    exact Or.inl (hhist rfl ht0)
  · intro hk
    constructor
    · -- into the uncollected class
      intro hnew ht0
      cases hf : requestFlag item with
      | none =>
          rw [hf] at hnew
          exact absurd hnew ht0
      | some c =>
          rw [hf, Option.getD_some] at hnew
          subst hnew
          rcases hk hf ht0 with hlt | ⟨hfull, hold⟩
          · exact hlt
          · rcases hmoves 0 hf (Ne.symm ht0) with hlt | hold'
            · omega
            · exact absurd hold' hold
    · -- into the collected class, whose room has been counted
      intro hnew ht0
      cases hf : requestFlag item with
      | none =>
          rw [hf] at hnew
          exact absurd ht0 hnew
      | some c =>
          rw [hf, Option.getD_some] at hnew
          rcases hmoves c hf (fun h => hnew (h.trans ht0)) with hlt | hold
          · exact hlt
          · have hone : t.collect = 1 := hold.1
            omega

theorem findsRoom_of_not_leaves {l : List History} {collect : Option Int} {t : History}
    (hloses : ¬ LeavesTarget l collect t) : FindsRoom l collect t := by
  intro hf ht0
  by_contra hcontra
  refine hloses fun c hc => ?_
  obtain rfl : (0 : Int) = c := Option.some.inj (hf.symm.trans hc)
  rw [countedClass_of_ne (Ne.symm ht0), classFull_one]
  by_cases hfull : maxCollect ≤ getCollectCount l
  · exact Or.inr (by_contra fun hold => hcontra (Or.inr ⟨hfull, hold⟩))
  · exact Or.inl hfull

theorem updateHistoryCb_quota_iff {item : CJson} (hinv : OrderInv s) (hitem : FlagRequest item)
    (hq : WithinQuota s.historyList) (h : updateHistoryCb item s = some s') :
    WithinQuota s'.historyList ↔ KeepsQuota s (.update item) := by
  rcases updateHistoryCb_cases h with ⟨rfl, hno⟩ | ⟨idItem, single, t, hidItem, hrec, hfind, -⟩
  · -- no record is named
    refine ⟨fun _ => ?_, fun _ => hq⟩
    intro id hid t ht htid
    exact absurd htid.symm (hno id hid t ht)
  · have ht : t ∈ s.historyList := List.mem_of_find?_eq_some hfind
    have hsid : single.id = t.id := by
      have hfound := List.find?_some hfind
      exact (by simpa using hfound : t.id = single.id).symm
    have hid : idItem.valueint = t.id := (updateHistoryRecord_eq_some hrec).1.symm.trans hsid
    rw [keepsQuota_update_iff hinv hidItem ht hid]
    obtain ⟨single', hrec', hsid', hcase⟩ := updateHistoryCb_named hinv hidItem ht hid hitem h
    obtain rfl : single = single' := Option.some.inj (hrec.symm.trans hrec')
    rcases hcase with ⟨hleaves, rfl⟩ | ⟨hloses, rfl⟩
    · exact left_target_quota_iff hinv.toHistoryInv hitem hrec hsid ht hq hleaves
    · -- the target is deleted: both classes only shrink
      have hshrunk : WithinQuota (wrapperHistoryUpdateCb single
          (wrapperHistoryDeleteCb t.id s)).historyList :=
        (withinQuota_perm (deleted_update hinv.toHistoryInv hsid)).mpr hq.deleteAt
      exact ⟨fun _ => findsRoom_of_not_leaves hloses, fun _ => hshrunk⟩

/-! ## Steps and runs -/

theorem deleteAndReport_quota {item : CJson} (hq : WithinQuota s.historyList) :
    WithinQuota (deleteAndReport item s).historyList := by
  have hmoves : Changes (fun c => (∃ id, c = .delete id) ∨ c = .report) s
      (deleteAndReport item s) :=
    deleteAndReport_changes (fun id => Or.inl ⟨id, rfl⟩) (Or.inr rfl) item
  refine hmoves.keeps (P := fun s => WithinQuota s.historyList) ?_ hq
  rintro c t t' (⟨id, rfl⟩ | rfl) hdoes ht
  · cases hdoes
    exact ht.deleteAt
  · cases hdoes
    exact ht

/-- One command keeps the quotas exactly when its un-collecting finds room. -/
theorem step_quota_iff (hcmd : FlagCmd cmd) (hinv : OrderInv s) (hq : InQuota s)
    (h : historyMachine.step s cmd = some s') : InQuota s' ↔ KeepsQuota s cmd := by
  have hinv' : HistoryInv s' := historyInv_step hinv.toHistoryInv h
  rw [inQuota_iff hinv']
  cases cmd with
  | cook root now rowid =>
      refine ⟨fun _ => trivial, fun _ => ?_⟩
      simp only [historyMachine] at h
      split at h
      · exact cookHistory_quota hinv.toHistoryInv hq.1 h
      · cases h
  | update item => exact updateHistoryCb_quota_iff hinv hcmd hq.1 h
  | delete item =>
      obtain rfl := Option.some.inj h
      exact ⟨fun _ => trivial, fun _ => deleteAndReport_quota hq.1⟩
  | reset =>
      obtain rfl := Option.some.inj h
      exact ⟨fun _ => trivial, fun _ => ⟨Nat.zero_le _, Nat.zero_le _⟩⟩
  | restart =>
      obtain rfl := Option.some.inj h
      exact ⟨fun _ => trivial, fun _ => (withinQuota_perm (databaseTaskInit_perm _ _ _)).mpr hq.2⟩

end

/-- **The quotas.**  From an empty history, with flags 0 and 1, both quotas
hold in every state of a run exactly when every un-collecting of the run finds
room among the uncollected records or deletes its target. -/
theorem history_quota_iff {recipe : RecipeTable} {cmds : List HistoryCmd}
    (hcmds : ∀ cmd ∈ cmds, FlagCmd cmd) :
    historyMachine.Along InQuota (databaseTaskInit Table.empty recipe []) cmds ↔
      historyMachine.Meets KeepsQuota (databaseTaskInit Table.empty recipe []) cmds :=
  Machine.along_iff_meets (Q := OrderInv)
    (fun _ _ _ hcmd hinv h => orderInv_step hcmd hinv h)
    (fun _ _ _ hcmd hinv hq h => step_quota_iff hcmd hinv hq h) hcmds
    (orderInv_init (fun _ h => absurd h List.not_mem_nil) recipe [])
    ((inQuota_iff (historyInv_init _ _ _)).mpr ⟨Nat.zero_le _, Nat.zero_le _⟩)

/-- A dish of two collected, and un-collected again. -/
def exampleUncollect : List HistoryCmd :=
  [.cook (exampleCook 100) 5 1, .cook (exampleCook 120) 6 2, .update (exampleCollect 1 1),
    .update (exampleCollect 1 0), .restart]

theorem quota_cook_restart :
    historyMachine.Along InQuota (databaseTaskInit Table.empty noRecipes []) exampleUncollect ∧
      ((historyMachine.run (databaseTaskInit Table.empty noRecipes []) exampleUncollect).map
        fun s => s.historyList.map fun r => (r.id, r.collect)) = some [(1, 0), (2, 0)] := by
  refine ⟨(history_quota_iff fun cmd hcmd => ?_).mpr (by decide +kernel), by decide +kernel⟩
  simp only [exampleUncollect, List.mem_cons, List.not_mem_nil, or_false] at hcmd
  rcases hcmd with rfl | rfl | rfl | rfl | rfl
  · trivial
  · trivial
  · exact exampleCollect_flag (Or.inr rfl)
  · exact exampleCollect_flag (Or.inl rfl)
  · trivial

/-- A collected dish, forty others, and the first un-collected. -/
def exampleOverflow : List HistoryCmd :=
  [.cook (exampleCook 100) 5 1, .update (exampleCollect 1 1)] ++
    (List.range 40).map (fun n => .cook (exampleCook 120) 5 (n + 2)) ++
    [.update (exampleCollect 1 0)]

theorem quota_overflow :
    (∀ cmd ∈ exampleOverflow, FlagCmd cmd) ∧
    ¬ historyMachine.Along InQuota (databaseTaskInit Table.empty noRecipes []) exampleOverflow := by
  constructor
  · intro cmd hcmd
    simp only [exampleOverflow, List.mem_append, List.mem_cons, List.not_mem_nil, or_false,
      List.mem_map] at hcmd
    rcases hcmd with ((rfl | rfl) | ⟨n, -, rfl⟩) | rfl
    · trivial
    · exact exampleCollect_flag (Or.inr rfl)
    · trivial
    · exact exampleCollect_flag (Or.inl rfl)
  · have hrun : ((historyMachine.run (databaseTaskInit Table.empty noRecipes [])
        exampleOverflow).map fun s => decide (InQuota s)) = some false := by decide +kernel
    obtain ⟨s, hs, hq⟩ := Option.map_eq_some_iff.mp hrun
    exact fun h => of_decide_eq_false hq (h.last hs)

end X50
