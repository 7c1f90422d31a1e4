/-
# `X50.CloudLink` — the connection to the cloud

`linkkit_user_post_property` drops what it is given in two cases, and what is
dropped is not sent again:

    not connected                a new connection posts all attributes
    `OTA_DOWNLOAD_START`         nothing is done when that state ends

A download that fails leaves the connection as it is, so that a change made while it
ran stays unknown to the cloud until the attribute is reported again; and a
connection that is made while it runs posts nothing at all.

For an attribute the cloud is current, then, exactly if the attribute has, whenever
that state ends on a connection, the value it had when posts were last let through
(`cloud_current_iff`).
-/
import X50.CloudCopy
import X50.Ota

namespace X50

open X50.Lib

/-! ## The connection -/

structure LinkState where
  board : Board
  /-- `g_user_example_ctx.cloud_connected` -/
  cloudConnected : Bool
  ota : OtaState
  /-- what `IOT_Linkkit_Report` has been handed since the last connect -/
  cloud : Copy
  /-- for the record only: the table behind the last call whose posts were let
  through, if there was one since the last connect -/
  seen : Option (List CloudAttr)

namespace LinkState

/-- `linkkit_user_post_property` -/
def linkkitUserPostProperty (property : CJson) (s : LinkState) : LinkState :=
  if s.cloudConnected = false then s
  else if s.ota.gOtaState = .downloadStart then s
  else { s with cloud := merge s.cloud property.members }

/-- What a report posts; events are no properties. -/
def post (s : LinkState) : Report → LinkState
  | .platform root => s.linkkitUserPostProperty root
  | .property root => s.linkkitUserPostProperty root
  | .event _ _ => s

/-- Posts are let through. -/
def Posts (s : LinkState) : Prop :=
  s.cloudConnected = true ∧ s.ota.gOtaState ≠ .downloadStart

instance (s : LinkState) : Decidable s.Posts := inferInstanceAs (Decidable (_ ∧ _))

/-- A call that reports. -/
def call (f : Board → Option Board) (s : LinkState) : Option LinkState := do
  let board ← f s.board
  let s' := (board.db.out.drop s.board.db.out.length).foldl post { s with board := board }
  pure { s' with seen := if s.Posts then some board.dev.attr else s.seen }

/-- `user_connected_event_handler`; `property_report_all_cb` is `send_all_to_cloud`. -/
def userConnectedEventHandler (s : LinkState) : Option LinkState :=
  call sendAllToCloud { s with cloudConnected := true, cloud := fun _ => none, seen := none }

/-- `user_disconnected_event_handler` and `user_connect_fail_event_handler` -/
def userDisconnectedEventHandler (s : LinkState) : LinkState := { s with cloudConnected := false }

/-- The program has just been started. -/
def init (board : Board) : LinkState := ⟨board, false, OtaState.init, fun _ => none, none⟩

end LinkState

inductive LinkAct where
  | connected
  | disconnected
  /-- `send_data_to_cloud`, with the memory behind its pointer -/
  | report (value : Nat → UInt8) (valueLen : Nat)
  | ota (act : OtaAct)

def linkMachine : Machine LinkState LinkAct where
  step s
    | .connected => s.userConnectedEventHandler
    | .disconnected => some s.userDisconnectedEventHandler
    | .report value valueLen => s.call (sendDataToCloud value valueLen)
    | .ota act => (otaMachine.step s.ota act).map fun ota => { s with ota := ota }

/-! ## Calls -/

section Calls

variable {s s' : LinkState} {f : Board → Option Board} {new : List Report}

theorem post_of_posts (h : s.Posts) (r : Report) :
    s.post r = { s with cloud := merge s.cloud r.posted } := by
  have hlet : ∀ root, s.linkkitUserPostProperty root =
      { s with cloud := merge s.cloud root.members } := by
    intro root
    rw [LinkState.linkkitUserPostProperty, if_neg (by rw [h.1]; decide), if_neg h.2]
  cases r with
  | platform root => exact hlet root
  | property root => exact hlet root
  | event eventId payload => rfl

theorem post_of_not (h : ¬ s.Posts) (r : Report) : s.post r = s := by
  have hdrop : ∀ root, s.linkkitUserPostProperty root = s := by
    intro root
    unfold LinkState.linkkitUserPostProperty
    split
    · rfl
    · rename_i hconnected
      split
      · rfl
      · rename_i hstart
        exact absurd ⟨Bool.eq_true_of_not_eq_false hconnected, hstart⟩ h
  cases r with
  | platform root => exact hdrop root
  | property root => exact hdrop root
  | event eventId payload => rfl

/-- The posts of a call, where posts are let through. -/
theorem foldl_post_of_posts (h : s.Posts) :
    new.foldl LinkState.post s = { s with cloud := merge s.cloud (new.flatMap Report.posted) } := by
  induction new generalizing s with
  | nil => rfl
  | cons r new ih =>
      have hrest := @ih { s with cloud := merge s.cloud r.posted } h
      rw [List.foldl_cons, post_of_posts h, hrest, List.flatMap_cons, merge_append]

theorem foldl_post_of_not (h : ¬ s.Posts) : new.foldl LinkState.post s = s := by
  induction new with
  | nil => rfl
  | cons r new ih => rw [List.foldl_cons, post_of_not h, ih]

/-- What a call does. -/
theorem call_cases (h : s.call f = some s') :
    ∃ board, f s.board = some board ∧
      ((s.Posts ∧ s' = { s with
          board := board
          cloud := merge s.cloud
            ((board.db.out.drop s.board.db.out.length).flatMap Report.posted)
          seen := some board.dev.attr }) ∨
        (¬ s.Posts ∧ s' = { s with board := board })) := by
  obtain ⟨board, hboard, h⟩ := Option.bind_eq_some_iff.mp h
  obtain rfl := Option.some.inj h
  refine ⟨board, hboard, ?_⟩
  by_cases hposts : s.Posts
  · have hposts' : LinkState.Posts { s with board := board } := hposts
    refine Or.inl ⟨hposts, ?_⟩
    rw [foldl_post_of_posts hposts', if_pos hposts]
  · have hposts' : ¬ LinkState.Posts { s with board := board } := hposts
    refine Or.inr ⟨hposts, ?_⟩
    rw [foldl_post_of_not hposts', if_neg hposts]

end Calls

/-! ## The cloud's copy -/

/-- The number an attribute holds. -/
def valAt (attr : List CloudAttr) (j : Nat) : Option Int := attr[j]?.map fun a => cloudVal a.bytes

/-- Attribute `j`, of which the cloud knows under `key`, is current. -/
def CloudCurrent (key : CStr) (j : Nat) (s : LinkState) : Prop :=
  s.cloud key = (valAt s.board.dev.attr j).map CJson.number

/-- An OTA step ends `OTA_DOWNLOAD_START` on a connection. -/
def Resumes (s : LinkState) (act : OtaAct) : Prop :=
  s.cloudConnected = true ∧ s.ota.gOtaState = .downloadStart ∧
    ∃ ota ∈ otaMachine.step s.ota act, ota.gOtaState ≠ .downloadStart

instance (s : LinkState) (act : OtaAct) : Decidable (Resumes s act) :=
  inferInstanceAs (Decidable (_ ∧ _ ∧ ∃ ota ∈ otaMachine.step s.ota act, _))

/-- Where posts resume, attribute `j` has the value it had when they were last let
through on this connection. -/
def CaughtUp (j : Nat) (s : LinkState) : LinkAct → Prop
  | .ota act => Resumes s act → s.seen.bind (valAt · j) = valAt s.board.dev.attr j
  | _ => True

instance (j : Nat) (s : LinkState) : ∀ act, Decidable (CaughtUp j s act)
  | .ota act => inferInstanceAs (Decidable (Resumes s act → _))
  | .connected => isTrue trivial
  | .disconnected => isTrue trivial
  | .report _ _ => isTrue trivial

/-- Attribute `j` is a NUM attribute under `key`, which nothing else is posted under. -/
structure CloudNumber (key : CStr) (j : Nat) (attr : List CloudAttr) : Prop where
  watched : Watched key j attr
  num : ∀ a, attr[j]? = some a → a.cloudValueType = .num
  notSimple : key ≠ cstr "CookHistorySimple"

section Number

variable {key : CStr} {j : Nat} {attr attr' : List CloudAttr} {b : Board}

theorem CloudNumber.congr (h : CloudNumber key j attr) (hl : SameLayout attr attr') :
    CloudNumber key j attr' where
  watched := h.watched.congr hl
  num := by
    intro a' ha'
    obtain ⟨a, ha, hlay⟩ := hl.symm.get ha'
    exact (CloudAttr.layout_cloudValueType hlay).symm.trans (h.num a ha)
  notSimple := h.notSimple

theorem CloudNumber.upToDate_iff (h : CloudNumber key j b.dev.attr) {copy : Copy} :
    UpToDate key j b copy ↔ copy key = (valAt b.dev.attr j).map CJson.number := by
  obtain ⟨a, ha, -⟩ := h.watched.number
  have hshown : a.shown = .number (cloudVal a.bytes) := if_neg (by rw [h.num a ha]; decide)
  rw [valAt, ha, Option.map_some, Option.map_some, ← hshown]
  constructor
  · exact fun hc => hc a ha
  · intro hc a' ha'
    rw [← Option.some.inj (ha.symm.trans ha'), hc]

end Number

/-! ## Steps -/

/-- What the cloud knows is what it was last told, and that is current where posts are
let through. -/
structure LinkInv (key : CStr) (j : Nat) (s : LinkState) : Prop where
  number : CloudNumber key j s.board.dev.attr
  told : s.cloudConnected = true →
    s.cloud key = (s.seen.bind (valAt · j)).map CJson.number
  current : s.Posts → s.seen.bind (valAt · j) = valAt s.board.dev.attr j

section Steps

variable {key : CStr} {j : Nat} {s s' : LinkState}

theorem LinkInv.cloudCurrent (h : LinkInv key j s) (hposts : s.Posts) : CloudCurrent key j s := by
  rw [CloudCurrent, h.told hposts.1, h.current hposts]

/-- A call that is let through and brings the cloud's copy up to date. -/
theorem linkInv_posted {board : Board} {cloud : Copy} (h : CloudNumber key j board.dev.attr)
    (hcloud : UpToDate key j board cloud) :
    LinkInv key j { s with board := board, cloud := cloud, seen := some board.dev.attr } where
  number := h
  told := fun _ => h.upToDate_iff.mp hcloud
  current := fun _ => rfl

theorem linkInv_report {value : Nat → UInt8} {valueLen : Nat} (h : LinkInv key j s)
    (hs : s.call (sendDataToCloud value valueLen) = some s') : LinkInv key j s' := by
  obtain ⟨board, hboard, hcase⟩ := call_cases hs
  have hlayout : SameLayout s.board.dev.attr board.dev.attr :=
    (@report_keeps_requests (.sendData value valueLen) s.board board hboard).2
  have hnumber := h.number.congr hlayout
  rcases hcase with ⟨hposts, rfl⟩ | ⟨hno, rfl⟩
  · refine linkInv_posted hnumber ?_
    obtain ⟨new, hout, hkeep⟩ := sendDataToCloud_speaks h.number.watched hboard
    have hbefore : UpToDate key j s.board s.cloud :=
      h.number.upToDate_iff.mpr (h.cloudCurrent hposts)
    rw [hout, List.drop_left]
    exact (hkeep s.cloud hbefore).1
  · exact ⟨hnumber, h.told, fun hposts => absurd hposts hno⟩

theorem linkInv_connected (h : LinkInv key j s) (hs : s.userConnectedEventHandler = some s') :
    LinkInv key j s' := by
  obtain ⟨board, hboard, hcase⟩ := call_cases hs
  have hlayout : SameLayout s.board.dev.attr board.dev.attr :=
    (@report_keeps_requests .sendAll s.board board hboard).2
  have hnumber := h.number.congr hlayout
  rcases hcase with ⟨-, rfl⟩ | ⟨hno, rfl⟩
  · refine linkInv_posted hnumber ?_
    obtain ⟨new, hout, htold⟩ := sendAllToCloud_told h.number.watched h.number.notSimple hboard
    have hdrop : board.db.out.drop s.board.db.out.length = new := by
      rw [hout, List.drop_left]
    have hdone := htold fun _ => none
    rwa [← hdrop] at hdone
  · exact ⟨hnumber, fun _ => rfl, fun hposts => absurd hposts hno⟩

/-- An OTA step keeps what the cloud knows.  Where it makes posts resume, that is
current only if the value is the one it was told. -/
theorem linkInv_ota {act : OtaAct} {ota : OtaState} (h : LinkInv key j s)
    (hota : otaMachine.step s.ota act = some ota) :
    (CaughtUp j s (.ota act) → LinkInv key j { s with ota := ota }) ∧
      ((LinkState.Posts { s with ota := ota } → CloudCurrent key j { s with ota := ota }) →
        CaughtUp j s (.ota act)) := by
  constructor
  · intro hcaught
    refine ⟨h.number, h.told, ?_⟩
    rintro ⟨hconnected, hgoes⟩
    rcases eq_or_ne s.ota.gOtaState .downloadStart with hstart | hno
    · exact hcaught ⟨hconnected, hstart, ota, hota, hgoes⟩
    · exact h.current ⟨hconnected, hno⟩
  · rintro hcurrent ⟨hconnected, -, ota', hota', hgoes⟩
    obtain rfl := Option.some.inj (hota.symm.trans hota')
    have hvalue : s.cloud key = (valAt s.board.dev.attr j).map CJson.number :=
      hcurrent ⟨hconnected, hgoes⟩
    rw [h.told hconnected] at hvalue
    exact Option.map_injective (fun _ _ hn => CJson.number.inj hn) hvalue

theorem linkInv_step {act : LinkAct} (h : LinkInv key j s)
    (hs : linkMachine.step s act = some s') :
    (CaughtUp j s act → LinkInv key j s') ∧
      ((s'.Posts → CloudCurrent key j s') → CaughtUp j s act) := by
  cases act with
  | connected => exact ⟨fun _ => linkInv_connected h hs, fun _ => trivial⟩
  | disconnected =>
      obtain rfl := Option.some.inj hs
      exact ⟨fun _ => ⟨h.number, fun hc => absurd hc Bool.false_ne_true,
        fun hp => absurd hp.1 Bool.false_ne_true⟩, fun _ => trivial⟩
  | report value valueLen => exact ⟨fun _ => linkInv_report h hs, fun _ => trivial⟩
  | ota act =>
      obtain ⟨ota, hota, rfl⟩ := Option.map_eq_some_iff.mp hs
      exact linkInv_ota h hota

theorem linkInv_init {b : Board} (h : CloudNumber key j b.dev.attr) : LinkInv key j (.init b) where
  number := h
  told := fun hc => absurd hc Bool.false_ne_true
  current := fun hp => absurd hp.1 Bool.false_ne_true

end Steps

/-! ## Downloads -/

/-- Where `get_ota_state` says so, a download has been started and has not ended. -/
def StartRuns (s : OtaState) : Prop :=
  s.gOtaState = .downloadStart → ∃ t, s.phase t = .downloading

section Downloads

variable {s s' : OtaState} {act : OtaAct}

/-- A thread that is not downloading goes somewhere else. -/
theorem StartRuns.goto (h : StartRuns s) {t : OtaThread} {phase : OtaPhase}
    (ht : s.phase t ≠ .downloading) : StartRuns (s.goto t phase) := by
  intro hstart
  obtain ⟨t', ht'⟩ := h hstart
  have hne : t' ≠ t := fun heq => ht (heq ▸ ht')
  exact ⟨t', (Function.update_of_ne hne _ _).trans ht'⟩

theorem startRuns_download (t : OtaThread) : StartRuns (s.downloadFotaImage t) :=
  fun _ => ⟨t, Function.update_self _ _ _⟩

theorem startRuns_step (h : StartRuns s) (hs : otaMachine.step s act = some s') :
    StartRuns s' := by
  have hstep := otaMachine_step hs
  cases act with
  | otaRquest valueint =>
      obtain ⟨-, rfl⟩ := hstep
      split
      · intro hstart
        cases hstart
      · exact startRuns_download _
  | requested res =>
      obtain ⟨hphase, rfl⟩ := hstep
      rw [OtaState.requestFotaImageDone]
      split
      · intro hstart
        cases hstart
      · exact StartRuns.goto (s := { s with timer := true }) h (by rw [hphase]; decide)
  | notify type =>
      obtain ⟨hphase, rfl⟩ := hstep
      rw [OtaState.userFotaEventHandler]
      split
      · exact h.goto (by rw [hphase]; decide)
      · exact h
  | download =>
      obtain ⟨-, rfl⟩ := hstep
      exact startRuns_download _
  | queried t res =>
      obtain ⟨-, rfl⟩ := hstep
      rw [OtaState.downloadFotaImageDone]
      split
      · intro hstart
        cases hstart
      · intro hstart
        cases hstart
  | install t =>
      obtain ⟨-, rfl⟩ := hstep
      intro hstart
      cases hstart
  | complete t =>
      obtain ⟨-, rfl⟩ := hstep
      intro hstart
      cases hstart
  | expire =>
      obtain ⟨-, rfl⟩ := hstep
      intro hstart
      cases hstart

end Downloads

/-! ## Runs -/

section Runs

variable {b : Board} {acts : List LinkAct}

theorem startRuns_run : linkMachine.Along (fun s => StartRuns s.ota) (.init b) acts := by
  refine Machine.along_of_invariant (V := fun _ => True) ?_ (fun _ _ => trivial) nofun
  intro s act s' _ hs h
  cases act with
  | connected =>
      obtain ⟨board, -, ⟨-, rfl⟩ | ⟨-, rfl⟩⟩ := call_cases h
      · exact hs
      · exact hs
  | disconnected => exact Option.some.inj h ▸ hs
  | report value valueLen =>
      obtain ⟨board, -, ⟨-, rfl⟩ | ⟨-, rfl⟩⟩ := call_cases h
      · exact hs
      · exact hs
  | ota act =>
      obtain ⟨ota, hota, rfl⟩ := Option.map_eq_some_iff.mp h
      exact startRuns_step hs hota

/-- **The cloud's copy.**  Through any connects, disconnects, frames of the board and
OTA steps, the cloud has the value of a NUM attribute wherever posts are let through,
exactly if the attribute has, whenever `OTA_DOWNLOAD_START` ends on a connection, the
value it had when they last were.  In particular the cloud then has it wherever it is
connected and no download is in progress. -/
theorem cloud_current_iff {key : CStr} {j : Nat} (h : CloudNumber key j b.dev.attr) :
    (linkMachine.Along (fun s => s.Posts → CloudCurrent key j s) (.init b) acts ↔
      linkMachine.Meets (CaughtUp j) (.init b) acts) ∧
    (linkMachine.Meets (CaughtUp j) (.init b) acts →
      linkMachine.Along (fun s => s.cloudConnected = true → (∀ t, ¬ Downloads s.ota t) →
        CloudCurrent key j s) (.init b) acts) := by
  have hiff : linkMachine.Along (fun s => s.Posts → CloudCurrent key j s) (.init b) acts ↔
      linkMachine.Meets (CaughtUp j) (.init b) acts :=
    Machine.along_iff_meets_of (V := fun _ => True) (I := LinkInv key j)
      (fun _ hs hposts => hs.cloudCurrent hposts) (fun _ _ _ _ hs hstep => linkInv_step hs hstep)
      (fun _ _ => trivial) (linkInv_init h)
  refine ⟨hiff, fun hmeets => ?_⟩
  have hboth := Machine.along_and.mpr ⟨hiff.mpr hmeets, startRuns_run⟩
  refine hboth.mono fun s hs hconnected hnone => hs.1 ⟨hconnected, fun hstart => ?_⟩
  obtain ⟨t, ht⟩ := hs.2 hstart
  exact hnone t (by rw [Downloads, ht]; decide)

end Runs

theorem powerBoard_number : CloudNumber (cstr "SysPower") 0 powerBoard.dev.attr where
  watched := powerBoard_watched
  num := by
    intro a ha
    rw [← Option.some.inj ha]
  notSimple := by decide

/-- A connection, a download that fails, a frame. -/
theorem cloud_current_power :
    linkMachine.Along (fun s => s.Posts → CloudCurrent (cstr "SysPower") 0 s) (.init powerBoard)
      [.connected, .ota (.otaRquest 1), .ota (.queried .ui 1), .report powerPayload 2] :=
  (cloud_current_iff powerBoard_number).1.mpr (by decide +kernel)

/-- The frame comes while the download runs: the cloud keeps the old value. -/
theorem cloud_not_current :
    ¬ linkMachine.Along (fun s => s.cloudConnected = true → (∀ t, ¬ Downloads s.ota t) →
      CloudCurrent (cstr "SysPower") 0 s) (.init powerBoard)
      [.connected, .ota (.otaRquest 1), .report powerPayload 2, .ota (.queried .ui 1)] := by
  have hrun : ((linkMachine.run (.init powerBoard) [.connected, .ota (.otaRquest 1),
      .report powerPayload 2, .ota (.queried .ui 1)]).map fun s =>
        (s.cloudConnected, decide (Downloads s.ota .ui), decide (Downloads s.ota .cloud),
          (s.cloud (cstr "SysPower")).map CJson.valueint, valAt s.board.dev.attr 0)) =
      some (true, false, false, some 0, some 1) := by decide +kernel
  obtain ⟨s, hs, hvalues⟩ := Option.map_eq_some_iff.mp hrun
  simp only [Prod.mk.injEq, decide_eq_false_iff_not] at hvalues
  obtain ⟨hconnected, hui, hcloud, hold, hnew⟩ := hvalues
  intro h
  have hcurrent := h.last hs hconnected fun t => by
    cases t with
    | ui => exact hui
    | cloud => exact hcloud
  rw [CloudCurrent, hnew] at hcurrent
  rw [hcurrent] at hold
  exact absurd hold (by decide)

end X50
