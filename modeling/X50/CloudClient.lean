/-
# `X50.CloudClient` — a client of the user interface, and the numbers of the table

A client asks for everything once (GETALL), and from then on merges the `Data` of
every EVENT it is sent.  Two things happen while it listens:

    a frame        writes the table, and tells what it has written
    a SET request  writes no number into the table; it goes to the board, and the
                   board answers with a frame

So the client has the value of every number that a GET would have
(`client_current`), whatever the payloads of the frames are.  The names the program
itself sends events under are left out; an attribute of such a name would be
overwritten in the client's copy.
-/
import X50.CloudCopy
import X50.CloudSet
import X50.HistoryUpdate

namespace X50

open X50.Lib

/-! ## SET requests and the table -/

section Table

variable {key : CStr} {j : Nat}

/-- A SET leaves a number as it is. -/
theorem SetLeaves.number {a a' : CloudAttr} (h : SetLeaves a a')
    (htype : a.cloudValueType = .num ∨ a.cloudValueType = .stringNum) : a' = a := by
  cases h with
  | same => rfl
  | multistage n ht hcmd =>
      rw [ht] at htype
      exact absurd htype (by decide)
  | name v ht hlen =>
      rw [ht] at htype
      exact absurd htype (by decide)

/-- Another attribute may change, but not its key. -/
theorem Watched.set {attr : List CloudAttr} (h : Watched key j attr) {i : Nat} {a a' : CloudAttr}
    (ha : attr[i]? = some a) (hkey : a'.cloudKey = a.cloudKey) (hself : i = j → a' = a) :
    Watched key j (attr.set i a') ∧ (attr.set i a')[j]? = attr[j]? := by
  have hlt : i < attr.length := (List.getElem?_eq_some_iff.mp ha).1
  have hstays : (attr.set i a')[j]? = attr[j]? := by
    rcases eq_or_ne i j with rfl | hne
    · rw [List.getElem?_set_self hlt, hself rfl, ha]
    · rw [List.getElem?_set_ne hne]
  refine ⟨⟨?_, ?_, h.apart⟩, hstays⟩
  · obtain ⟨c, hc, hrest⟩ := h.number
    exact ⟨c, hstays.trans hc, hrest⟩
  · intro k c hc hck
    rcases eq_or_ne i k with rfl | hne
    · rw [List.getElem?_set_self hlt] at hc
      obtain rfl := Option.some.inj hc
      exact h.own i a ha (hkey.symm.trans hck)
    · rw [List.getElem?_set_ne hne] at hc
      exact h.own k c hc hck

/-- From `b` to `b'` the table still has the watched attribute as it was, and the
database has said nothing. -/
structure Leaves (key : CStr) (j : Nat) (b b' : Board) : Prop where
  watched : Watched key j b'.dev.attr
  stays : b'.dev.attr[j]? = b.dev.attr[j]?
  db : b'.db = b.db

theorem Leaves.refl {b : Board} (h : Watched key j b.dev.attr) : Leaves key j b b := ⟨h, rfl, rfl⟩

theorem Leaves.trans {b b' b'' : Board} (h : Leaves key j b b') (h' : Leaves key j b' b'') :
    Leaves key j b b'' :=
  ⟨h'.watched, h'.stays.trans h.stays, h'.db.trans h.db⟩

theorem respSetAttr_leaves {root : CJson} {i len : Nat} {b : Board} {out : Board × Nat}
    (hw : Watched key j b.dev.attr) (h : respSetAttr root i b len = some out) :
    Leaves key j b out.1 := by
  have hput : ∀ {a item set}, b.dev.attr[i]? = some a →
      getAttrSetValue a item b.dev.remind = some set →
      Watched key j (b.putSet i set).dev.attr ∧
        (b.putSet i set).dev.attr[j]? = b.dev.attr[j]? := by
    intro a item set ha hval
    have hptr := getAttrSetValue_ptr hval
    refine hw.set ha hptr.cloudKey ?_
    rintro rfl
    obtain ⟨c, hc, -, -, htype⟩ := hw.number
    obtain rfl := Option.some.inj (ha.symm.trans hc)
    exact hptr.number htype
  cases respSetAttr_turn h with
  | skipped ha hno => exact .refl hw
  | unrecorded ha hitem hset hval hbody => exact ⟨(hput ha hval).1, (hput ha hval).2, rfl⟩
  | recorded ha hitem hset hval hbody hbuf => exact ⟨(hput ha hval).1, (hput ha hval).2, rfl⟩

theorem respSetFrame_leaves {root : CJson} {b b' : Board} (hw : Watched key j b.dev.attr)
    (h : respSetFrame root b = some b') : Leaves key j b b' := by
  obtain ⟨b₁, len, hloop, hend⟩ := respSetFrame_cases h
  have hdone : Leaves key j b b₁ :=
    foldlM_keeps (I := fun s => Leaves key j b s.1)
      (fun s i s' hs hf => hs.trans (respSetAttr_leaves hs.watched hf)) (.refl hw) hloop
  rcases hend with ⟨-, rfl⟩ | ⟨-, rfl⟩
  · exact hdone
  · exact ⟨hdone.watched, hdone.stays, hdone.db⟩

end Table

/-! ## SET requests and the database -/

/-- The names the history is told under. -/
def historyNames : List CStr := [cstr "InsertHistory", cstr "UpdateHistory", cstr "DeleteHistory"]

section Database

variable {key : CStr} {s s' : HistoryState}

/-- One object with one member. -/
theorem adds_object {name : CStr} {value : CJson} (hname : key ≠ name)
    (h : s'.out = reportMsgAllPlatform (.object [(name, value)]) s.out) : Adds key s s' := by
  have hsilent : Silent key [(name, value)] := fun m hm => List.mem_singleton.mp hm ▸ hname.symm
  exact .of_report (r := .platform (.object [(name, value)])) hsilent h

variable (hnames : key ∉ historyNames)
include hnames

theorem adds_update (single : History) (s : HistoryState) :
    Adds key s (wrapperHistoryUpdateCb single s) :=
  adds_object (fun hk => hnames (by rw [hk]; decide)) rfl

omit hnames in
/-- An eviction is told as an array. -/
theorem adds_delete (id : Int) (s : HistoryState) : Adds key s (wrapperHistoryDeleteCb id s) :=
  .of_report (r := .platform (.array [.number id])) .nil rfl

theorem adds_insert {single : History} {rowid : Int}
    (h : wrapperHistoryInsertCb single rowid s = some s') : Adds key s s' := by
  obtain ⟨t, -, h⟩ := Option.bind_eq_some_iff.mp h
  have hout := selectSeqidRows_keeps (I := fun u => u.out = s.out)
    (selectSeqidFromTable (s.gHistorySeqid + 1) t) (fun _ _ _ _ hu => hu)
    (s := { s with history := t }) [] rfl
  dsimp only at h
  split at h
  · exact Option.some.inj h ▸ .of_eq hout
  · obtain rfl := Option.some.inj h
    exact (Adds.of_eq hout).trans (adds_object (fun hk => hnames (by rw [hk]; decide)) rfl)

theorem adds_insertHistory {single : History} {now rowid : Int}
    (h : insertHistory single now rowid s = some s') : Adds key s s' := by
  obtain ⟨record, l, rfl | hins⟩ := insertHistory_writes h
  · exact adds_update hnames record { s with historyList := l }
  · refine Adds.trans ?_ (adds_insert hnames hins)
    rcases makeRoom_cases { s with historyList := l } with hsame | ⟨id, hdelete⟩
    · rw [hsame]
      exact .of_eq rfl
    · rw [hdelete]
      exact adds_delete id { s with historyList := l }

theorem adds_cookHistory {root : CJson} {now rowid : Int}
    (h : cookHistory root now rowid s = some s') : Adds key s s' := by
  rcases cookHistory_cases h with ⟨-, rfl⟩ | ⟨recipe, -, -, hins⟩
  · exact .of_eq rfl
  · exact adds_insertHistory hnames hins

theorem adds_updateHistoryCb {item : CJson} (h : updateHistoryCb item s = some s') :
    Adds key s s' := by
  rcases updateHistoryCb_cases h with ⟨rfl, -⟩ | ⟨id, single, iter, -, -, -, rfl⟩
  · exact .of_eq rfl
  · refine Adds.trans ?_ (adds_update hnames _ _)
    rcases makeRoomFor_cases single iter s with hsame | hdelete
    · rw [hsame]
      exact .of_eq rfl
    · rw [hdelete]
      exact adds_delete single.id s

omit hnames in
theorem out_deleteHistoryCb (item : CJson) (s : HistoryState) :
    (deleteHistoryCb item s).1.out = s.out :=
  deleteHistoryCb_keeps (I := fun t => t.out = s.out) (fun _ _ ht => ht) item rfl

/-- What is removed on request is told under `DeleteHistory`. -/
theorem adds_deleteHistoryCb (item : CJson) {s s' : HistoryState} (h : Adds key s s') :
    Adds key s (deleteHistoryCb item s').1 ∧
      Silent key ((deleteHistoryCb item s').2.map fun ids =>
        (cstr "DeleteHistory", ids)).toList := by
  refine ⟨h.trans (.of_eq (out_deleteHistoryCb item s')), fun m hm => ?_⟩
  obtain ⟨ids, -, rfl⟩ := Option.map_eq_some_iff.mp (Option.mem_toList.mp hm)
  have hmem : cstr "DeleteHistory" ∈ historyNames := by decide
  exact fun hk => hnames (hk ▸ hmem)

/-- **A SET request and the history**: what is told has the names of the history. -/
theorem databaseRespSet_adds {root : CJson} {now rowid : Int}
    {out : HistoryState × List (CStr × CJson)} (h : databaseRespSet root now rowid s = some out) :
    Adds key s out.1 ∧ Silent key out.2 := by
  obtain ⟨s₁, hcook, h⟩ := Option.bind_eq_some_iff.mp h
  have hadds := adds_cookHistory hnames hcook
  dsimp only at h
  split at h
  · obtain ⟨s₂, hupdate, h⟩ := Option.bind_eq_some_iff.mp h
    have hadds₂ := hadds.trans (adds_updateHistoryCb hnames hupdate)
    split at h
    · exact Option.some.inj h ▸ ⟨hadds₂, .nil⟩
    · exact Option.some.inj h ▸ adds_deleteHistoryCb hnames _ hadds₂
  · split at h
    · exact Option.some.inj h ▸ ⟨hadds, .nil⟩
    · exact Option.some.inj h ▸ adds_deleteHistoryCb hnames _ hadds

end Database

/-- **A SET request**: the watched attribute is as before, and nothing is said of it. -/
theorem cloudRespSet_leaves {key : CStr} {j : Nat} {root : CJson} {now rowid : Int}
    {b b' : Board} (hw : Watched key j b.dev.attr) (hnames : key ∉ historyNames)
    (h : cloudRespSet root now rowid b = some b') :
    Watched key j b'.dev.attr ∧ b'.dev.attr[j]? = b.dev.attr[j]? ∧ Adds key b.db b'.db := by
  obtain ⟨b₁, db, respDb, hframe, hdb, rfl⟩ := cloudRespSet_cases h
  have hleaves := respSetFrame_leaves hw hframe
  obtain ⟨hadds, hsilent⟩ := databaseRespSet_adds hnames hdb
  refine ⟨hleaves.watched, hleaves.stays, ?_⟩
  rw [hleaves.db] at hadds
  obtain ⟨last, hlast, hposted, -⟩ := reportMsgAllPlatform_members respDb db.out
  refine hadds.trans (.of_hushed (fun r hr m hm => hsilent m ?_) hlast)
  rw [← hposted]
  exact List.mem_flatMap.mpr ⟨r, hr, hm⟩

/-! ## A client -/

/-- The board, and what one client has been told. -/
structure ClientState where
  board : Board
  copy : Copy

inductive ClientAct where
  /-- `send_data_to_cloud`, with the memory behind its pointer -/
  | report (value : Nat → UInt8) (valueLen : Nat)
  /-- a SET request of any client; `others` is what the other tasks answer it with,
  and what EVENTs they send on it -/
  | set (root : CJson) (now rowid : Int) (others : Members)

/-- The client merges every EVENT on the way to `board`. -/
def ClientState.hear (s : ClientState) (board : Board) : ClientState where
  board := board
  copy := merge s.copy ((board.db.out.drop s.board.db.out.length).flatMap Report.told)

/-- The reply to GETALL has arrived, with what the other tasks have put into it. -/
def ClientState.init (out : Board × Members) (others : Members) : ClientState where
  board := out.1
  copy := merge (fun _ => none) (out.2 ++ others)

def clientMachine : Machine ClientState ClientAct where
  step s
    | .report value valueLen => (sendDataToCloud value valueLen s.board).map s.hear
    | .set root now rowid others => (cloudRespSet root now rowid s.board).map fun board =>
        let s' := s.hear board
        { s' with copy := merge s'.copy others }

/-- The other tasks do not use the key. -/
def ClientAct.Apart (key : CStr) : ClientAct → Prop
  | .report _ _ => True
  | .set _ _ _ others => Silent key others

/-- The client has the value of attribute `j` that is stored, and that a GET for its key
would give it. -/
def ClientCurrent (key : CStr) (j : Nat) (s : ClientState) : Prop :=
  ∃ a, s.board.dev.attr[j]? = some a ∧ s.copy key = some a.shown ∧
    ∀ root resp out, root.hasObjectItem key = true → cloudRespGet root s.board resp = some out →
      merge (fun _ => none) out.2 key = s.copy key

section Client

variable {key : CStr} {j : Nat}

/-- An attribute that is watched, and a copy that is up to date. -/
structure ClientInv (key : CStr) (j : Nat) (s : ClientState) : Prop where
  watched : Watched key j s.board.dev.attr
  upToDate : UpToDate key j s.board s.copy

theorem ClientInv.current {s : ClientState} (h : ClientInv key j s) : ClientCurrent key j s := by
  obtain ⟨a, ha, -⟩ := h.watched.number
  have hcopy := h.upToDate a ha
  refine ⟨a, ha, hcopy, fun root resp out hroot hget => ?_⟩
  obtain ⟨-, hstays, extra, hresp, htold⟩ := cloudRespGet_told h.watched hroot hget
  rw [hresp, merge_append, htold _ a (hstays.trans ha), hcopy]

theorem clientInv_step {s s' : ClientState} {act : ClientAct} (hnames : key ∉ historyNames)
    (hact : act.Apart key) (h : ClientInv key j s) (hs : clientMachine.step s act = some s') :
    ClientInv key j s' := by
  cases act with
  | report value valueLen =>
      obtain ⟨board, hboard, rfl⟩ := Option.map_eq_some_iff.mp hs
      obtain ⟨new, hout, hkeep⟩ := sendDataToCloud_speaks h.watched hboard
      refine ⟨sendDataToCloud_watched h.watched hboard, ?_⟩
      rw [ClientState.hear, hout, List.drop_left]
      exact (hkeep s.copy h.upToDate).2
  | set root now rowid others =>
      obtain ⟨board, hboard, rfl⟩ := Option.map_eq_some_iff.mp hs
      obtain ⟨hwatched, hstays, new, hout, hhushed⟩ := cloudRespSet_leaves h.watched hnames hboard
      refine ⟨hwatched, fun a ha => ?_⟩
      have hothers : Silent key others := hact
      have hheard : (s.hear board).copy key = s.copy key := by
        show merge s.copy ((board.db.out.drop s.board.db.out.length).flatMap Report.told) key = _
        rw [hout, List.drop_left]
        exact hhushed.told.merge
      calc merge (s.hear board).copy others key
          = (s.hear board).copy key := hothers.merge
        _ = s.copy key := hheard
        _ = some a.shown := h.upToDate a (hstays ▸ ha)

/-- **A client is current.**  From the reply to its GETALL on, through any frames of the
board and any SET requests, it has the value of a number that GET would give. -/
theorem client_current {b : Board} {resp others : Members} {out : Board × Members}
    (hw : Watched key j b.dev.attr) (hnames : key ∉ historyNames)
    (hgetall : cloudRespGetall b resp = some out) (hothers : Silent key others)
    {acts : List ClientAct} (hacts : ∀ act ∈ acts, act.Apart key) :
    clientMachine.Along (ClientCurrent key j) (.init out others) acts := by
  obtain ⟨hspeaks, -, extra, hresp, htold⟩ := cloudRespGetall_told hw hgetall
  have hinit : ClientInv key j (.init out others) := by
    refine ⟨hspeaks.watched, fun a ha => ?_⟩
    show merge (fun _ => none) (out.2 ++ others) key = _
    rw [merge_append, hothers.merge, hresp, merge_append]
    exact htold _ a ha
  have hinv : clientMachine.Along (ClientInv key j) (.init out others) acts :=
    Machine.along_of_invariant (V := ClientAct.Apart key)
      (fun _ _ _ hact hs h => clientInv_step hnames hact hs h) hacts hinit
  exact hinv.mono fun s hs => hs.current

end Client

/-- A client of a board with one number: a frame, and a SET request that cooks. -/
theorem client_current_power :
    ∃ out, cloudRespGetall powerBoard [] = some out ∧
      clientMachine.Along (ClientCurrent (cstr "SysPower") 0) (.init out [])
        [.report powerPayload 2, .set (exampleCook 100) 5 1 []] := by
  have hsome : (cloudRespGetall powerBoard []).isSome = true := by decide +kernel
  obtain ⟨out, hout⟩ := Option.isSome_iff_exists.mp hsome
  refine ⟨out, hout, client_current powerBoard_watched (by decide) hout .nil fun act hact => ?_⟩
  simp only [List.mem_cons, List.not_mem_nil, or_false] at hact
  rcases hact with rfl | rfl
  · trivial
  · exact .nil

/-! ### Names of the program's own -/

/-- A board with a number of this name, and with `CookbookID`. -/
def namedBoard (name : CStr) : Board :=
  startBoard oneRecipe [⟨name, .num, .attrReportCtrl, 1, 1, [0]⟩,
    ⟨cstr "CookbookID", .num, .attrReportCtrl, 80, 4, List.replicate 4 0⟩]

/-- A client of that board does not stay current. -/
def Outdated (name : CStr) (acts : List ClientAct) : Prop :=
  ∃ out, cloudRespGetall (namedBoard name) [] = some out ∧
    ¬ clientMachine.Along (ClientCurrent name 0) (.init out []) acts

/-- What the client has and what is stored, as they are printed. -/
def printedPair (name : CStr) (acts : List ClientAct) : Option (Option CStr × Option CStr) := do
  let out ← cloudRespGetall (namedBoard name) []
  let s ← clientMachine.run (.init out []) acts
  pure ((s.copy name).map CJson.printUnformatted,
    s.board.dev.attr[0]?.map fun a => a.shown.printUnformatted)

theorem outdated_of_printed {name : CStr} {acts : List ClientAct}
    (h : (printedPair name acts).any (fun p => p.1 ≠ p.2) = true) : Outdated name acts := by
  obtain ⟨p, hp, hne⟩ := (Option.any_eq_true _ _).mp h
  obtain ⟨out, hout, hp⟩ := Option.bind_eq_some_iff.mp hp
  obtain ⟨s, hs, hp⟩ := Option.bind_eq_some_iff.mp hp
  obtain rfl := Option.some.inj hp
  refine ⟨out, hout, fun halong => ?_⟩
  obtain ⟨a, ha, hcopy, -⟩ := halong.last hs
  simp [ha, hcopy] at hne

/-- Each of the names is one an attribute must not have. -/
theorem client_outdated :
    Outdated (cstr "CookbookName") [.report cookbookPayload 5] ∧
    Outdated (cstr "InsertHistory") [.set (exampleCook 100) 5 1 []] ∧
    Outdated (cstr "UpdateHistory") [.set (exampleCook 100) 5 1 [],
      .set (.object [(cstr "UpdateHistory", exampleRename 1 "soup")]) 6 2 []] ∧
    Outdated (cstr "DeleteHistory")
      [.set (.object [(cstr "DeleteHistory", .array [.number 1])]) 5 1 []] := by
  refine ⟨outdated_of_printed ?_, outdated_of_printed ?_, outdated_of_printed ?_,
    outdated_of_printed ?_⟩
  · decide +kernel
  · decide +kernel
  · decide +kernel
  · decide +kernel

end X50
