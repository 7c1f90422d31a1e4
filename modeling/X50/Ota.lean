/-
# `X50.Ota` — the OTA state and the threads that write it

One variable, `g_ota_state`, says how far an update is.  Three threads write it,
each through `set_ota_state`: the thread of the UI socket (`OTARquest_cb`), the
thread of the cloud SDK (`user_fota_event_handler`), and a timer armed by a
request that waits for its answer (`POSIXTimer_cb`).  A download occupies the
thread it was asked for in until it has failed or is installed.

Only the cloud thread looks at the state before it starts a download.  So a
download is undisturbed exactly as long as the others keep still
(`ota_exclusive_iff`).

The functions are cut where they block, and `user_fota_event_handler` also
between its guard and its download, since another thread may come in there.
`fota_event_handler`, which would disarm the timer, is not called by anything.
-/
import X50.Lib.Machine
import Mathlib.Logic.Function.Basic

namespace X50

open X50.Lib

/-! ## The threads -/

/-- `enum OTA_TYPE` -/
inductive OtaType where
  | idle
  | noFirmware
  | newFirmware
  | downloadStart
  | downloadFail
  | downloadSuccess
  | installStart
  | installFail
  | installSuccess
deriving DecidableEq, Repr

/-- The threads a download can run in. -/
inductive OtaThread where
  | ui
  | cloud
deriving DecidableEq, Repr

inductive OtaPhase where
  /-- in none of the functions -/
  | idle
  /-- `request_fota_image` waits for its query -/
  | requesting
  /-- `user_fota_event_handler` has passed its guard -/
  | noticed
  /-- `download_fota_image` waits for its query, sleeps, and installs -/
  | downloading
  | downloaded
  | installing
deriving DecidableEq, Repr

structure OtaState where
  gOtaState : OtaType
  phase : OtaThread → OtaPhase
  /-- `g_ota_timer` is armed -/
  timer : Bool

namespace OtaState

def setOtaState (otaState : OtaType) (s : OtaState) : OtaState := { s with gOtaState := otaState }

def goto (t : OtaThread) (phase : OtaPhase) (s : OtaState) : OtaState :=
  { s with phase := Function.update s.phase t phase }

/-- `request_fota_image`, up to its query -/
def requestFotaImage (s : OtaState) : OtaState := (s.setOtaState .idle).goto .ui .requesting

/-- `request_fota_image`, after its query -/
def requestFotaImageDone (res : Int) (s : OtaState) : OtaState :=
  (if res ≠ 0 then s.setOtaState .noFirmware else { s with timer := true }).goto .ui .idle

/-- `download_fota_image`, up to its query -/
def downloadFotaImage (t : OtaThread) (s : OtaState) : OtaState :=
  (s.setOtaState .downloadStart).goto t .downloading

/-- `download_fota_image`, after its query -/
def downloadFotaImageDone (t : OtaThread) (res : Int) (s : OtaState) : OtaState :=
  if res ≠ 0 then (s.setOtaState .downloadFail).goto t .idle
  else (s.setOtaState .downloadSuccess).goto t .downloaded

def userFotaEventHandler (type : Int) (s : OtaState) : OtaState :=
  if type = 0 ∧ (s.gOtaState = .idle ∨ s.gOtaState = .noFirmware ∨ s.gOtaState = .downloadFail ∨
      s.gOtaState = .installFail) then s.goto .cloud .noticed
  else s

/-- `POSIXTimer_cb`; the timer is armed for one expiry. -/
def posixTimerCb (s : OtaState) : OtaState := { s.setOtaState .noFirmware with timer := false }

/-- `linkkit_ota_init` -/
def init : OtaState := ⟨.idle, fun _ => .idle, false⟩

end OtaState

inductive OtaAct where
  /-- UI thread: `OTARquest_cb` begins -/
  | otaRquest (valueint : Int)
  /-- UI thread: the query of `request_fota_image` returns -/
  | requested (res : Int)
  /-- cloud thread: `user_fota_event_handler` begins -/
  | notify (type : Int)
  /-- cloud thread: past the guard, `download_fota_image` begins -/
  | download
  /-- the query of a download returns -/
  | queried (t : OtaThread) (res : Int)
  /-- a download has slept -/
  | install (t : OtaThread)
  /-- a download is installed; the reboot behind it ends the run -/
  | complete (t : OtaThread)
  /-- the timer expires -/
  | expire
deriving DecidableEq, Repr

/-- The thread of a step; the timer has one of its own. -/
def OtaAct.thread : OtaAct → Option OtaThread
  | .otaRquest _ => some .ui
  | .requested _ => some .ui
  | .notify _ => some .cloud
  | .download => some .cloud
  | .queried t _ => some t
  | .install t => some t
  | .complete t => some t
  | .expire => none

/-- The threads; a step has no result where its thread is somewhere else. -/
def otaMachine : Machine OtaState OtaAct where
  step s
    | .otaRquest valueint =>
        if s.phase .ui = .idle then
          some (if valueint = 0 then s.requestFotaImage else s.downloadFotaImage .ui)
        else none
    | .requested res =>
        if s.phase .ui = .requesting then some (s.requestFotaImageDone res) else none
    | .notify type =>
        if s.phase .cloud = .idle then some (s.userFotaEventHandler type) else none
    | .download => if s.phase .cloud = .noticed then some (s.downloadFotaImage .cloud) else none
    | .queried t res =>
        if s.phase t = .downloading then some (s.downloadFotaImageDone t res) else none
    | .install t =>
        if s.phase t = .downloaded then some ((s.setOtaState .installStart).goto t .installing)
        else none
    | .complete t =>
        if s.phase t = .installing then some ((s.setOtaState .installSuccess).goto t .idle)
        else none
    | .expire => if s.timer = true then some s.posixTimerCb else none

/-! ## Exclusive downloads -/

def OtaPhase.sets : OtaPhase → Option OtaType
  | .downloading => some .downloadStart
  | .downloaded => some .downloadSuccess
  | .installing => some .installStart
  | _ => none

/-- A download runs in thread `t`: it has set `OTA_DOWNLOAD_START`, and neither
`OTA_DOWNLOAD_FAIL` nor `OTA_INSTALL_SUCCESS` yet. -/
def Downloads (s : OtaState) (t : OtaThread) : Prop := (s.phase t).sets ≠ none

instance (s : OtaState) : DecidablePred (Downloads s) := fun t =>
  inferInstanceAs (Decidable ((s.phase t).sets ≠ none))

/-- The step leaves every download alone: it is a step of the download itself, or
neither changes the state nor starts another download. -/
def Undisturbed (s : OtaState) (act : OtaAct) : Prop :=
  ∀ s', otaMachine.step s act = some s' → ∀ t, Downloads s t → act.thread ≠ some t →
    s'.gOtaState = s.gOtaState ∧ ∀ t', Downloads s' t' → Downloads s t'

/-- A request of the UI, a request that fails, a download from the cloud that was
decided on before, the timer. -/
def OtaAct.Disturbs : OtaAct → Prop
  | .otaRquest _ => True
  | .requested res => res ≠ 0
  | .download => True
  | .expire => True
  | _ => False

/-- None of them comes while another thread downloads. -/
def KeepsStill (s : OtaState) (act : OtaAct) : Prop :=
  ∀ t, Downloads s t → act.thread ≠ some t → ¬ act.Disturbs

/-- One download at a time, and the state is what it has set. -/
structure OtaInv (s : OtaState) : Prop where
  one : ∀ t t', Downloads s t → Downloads s t' → t = t'
  state : ∀ t otaState, (s.phase t).sets = some otaState → s.gOtaState = otaState

theorem sets_downloads {p : OtaPhase} {otaState : OtaType} :
    p.sets = some otaState → otaState ≠ .idle ∧ otaState ≠ .noFirmware := by
  intro h
  cases p with
  | idle => cases h
  | requesting => cases h
  | noticed => cases h
  | downloading => cases h; decide
  | downloaded => cases h; decide
  | installing => cases h; decide

theorem downloads_of_phase {s : OtaState} {t : OtaThread} {p : OtaPhase} (h : s.phase t = p)
    (hp : p.sets ≠ none) : Downloads s t := by
  rwa [Downloads, h]

/-- While a step keeps still that would disturb, no thread but its own downloads. -/
theorem KeepsStill.alone {s : OtaState} {act : OtaAct} (h : KeepsStill s act)
    (hdis : act.Disturbs) {t : OtaThread} (ht : act.thread = some t) :
    ∀ t', t' ≠ t → ¬ Downloads s t' := by
  intro t' hne hd
  exact h t' hd (fun heq => hne (Option.some.inj (heq.symm.trans ht))) hdis

section Goto

variable {s : OtaState} {t t' : OtaThread} {p : OtaPhase} {otaState : OtaType}

theorem phase_goto_self : (s.goto t p).phase t = p := Function.update_self ..

theorem phase_goto_ne (h : t' ≠ t) : (s.goto t p).phase t' = s.phase t' :=
  Function.update_of_ne h ..

theorem downloads_downloadFotaImage : Downloads (s.downloadFotaImage t) t :=
  downloads_of_phase phase_goto_self (by decide)

theorem downloads_goto (h : p.sets = none) : Downloads (s.goto t p) t' → Downloads s t' := by
  intro hd
  by_cases ht : t' = t
  · subst ht
    exact absurd (by rw [phase_goto_self]; exact h) hd
  · rwa [Downloads, phase_goto_ne ht] at hd

/-- A thread that ends no download and starts none. -/
theorem OtaInv.goto (h : OtaInv s) (hp : p.sets = none) : OtaInv (s.goto t p) := by
  refine ⟨fun t₁ t₂ h₁ h₂ => h.one t₁ t₂ (downloads_goto hp h₁) (downloads_goto hp h₂), ?_⟩
  intro t₁ o ho
  by_cases ht : t₁ = t
  · subst ht
    rw [phase_goto_self, hp] at ho
    cases ho
  · rw [phase_goto_ne ht] at ho
    exact h.state t₁ o ho

/-- A thread that is alone sets the state. -/
theorem otaInv_alone (h : ∀ t', t' ≠ t → ¬ Downloads s t')
    (hp : p.sets = none ∨ p.sets = some otaState) :
    OtaInv ((s.setOtaState otaState).goto t p) := by
  have honly : ∀ t', Downloads ((s.setOtaState otaState).goto t p) t' → t' = t := by
    intro t' hd
    by_contra ht
    rw [Downloads, phase_goto_ne ht] at hd
    exact h t' ht hd
  refine ⟨fun t₁ t₂ h₁ h₂ => (honly t₁ h₁).trans (honly t₂ h₂).symm, ?_⟩
  intro t' o ho
  obtain rfl := honly t' (by rw [Downloads, ho]; exact Option.some_ne_none o)
  rw [phase_goto_self] at ho
  rcases hp with hp | hp
  · cases hp.symm.trans ho
  · exact Option.some.inj (hp.symm.trans ho)

end Goto

/-- The step's thread is somewhere in a download, so no other is. -/
theorem OtaInv.alone {s : OtaState} {t : OtaThread} (otaState : OtaType) (h : OtaInv s)
    (ht : (s.phase t).sets = some otaState) : ∀ t', t' ≠ t → ¬ Downloads s t' := by
  intro t' hne hd
  refine hne (h.one t' t hd ?_)
  rw [Downloads, ht]
  exact Option.some_ne_none _

/-- What a defined step is: where its thread is, and the state behind it. -/
theorem otaMachine_step {s s' : OtaState} {act : OtaAct} :
    otaMachine.step s act = some s' →
      match act with
      | .otaRquest valueint => s.phase .ui = .idle ∧
          s' = if valueint = 0 then s.requestFotaImage else s.downloadFotaImage .ui
      | .requested res => s.phase .ui = .requesting ∧ s' = s.requestFotaImageDone res
      | .notify type => s.phase .cloud = .idle ∧ s' = s.userFotaEventHandler type
      | .download => s.phase .cloud = .noticed ∧ s' = s.downloadFotaImage .cloud
      | .queried t res => s.phase t = .downloading ∧ s' = s.downloadFotaImageDone t res
      | .install t => s.phase t = .downloaded ∧
          s' = (s.setOtaState .installStart).goto t .installing
      | .complete t => s.phase t = .installing ∧
          s' = (s.setOtaState .installSuccess).goto t .idle
      | .expire => s.timer = true ∧ s' = s.posixTimerCb := by
  intro h
  have hif : ∀ {c : Prop} [Decidable c] {x : OtaState}, (if c then some x else none) = some s' →
      c ∧ s' = x := by
    intro c _ x hx
    split at hx
    · exact ⟨‹c›, (Option.some.inj hx).symm⟩
    · cases hx
  cases act with
  | otaRquest valueint => exact hif h
  | requested res => exact hif h
  | notify type => exact hif h
  | download => exact hif h
  | queried t res => exact hif h
  | install t => exact hif h
  | complete t => exact hif h
  | expire => exact hif h

/-- A step that keeps still keeps downloads exclusive. -/
theorem otaInv_step {s s' : OtaState} {act : OtaAct} (hstill : KeepsStill s act) (h : OtaInv s)
    (hs : otaMachine.step s act = some s') : OtaInv s' := by
  have hstep := otaMachine_step hs
  cases act with
  | otaRquest valueint =>
      obtain ⟨-, rfl⟩ := hstep
      have halone := hstill.alone (t := .ui) trivial rfl
      split
      · exact otaInv_alone halone (Or.inl rfl)
      · exact otaInv_alone halone (Or.inr rfl)
  | requested res =>
      obtain ⟨-, rfl⟩ := hstep
      rw [OtaState.requestFotaImageDone]
      split
      · rename_i hres
        exact otaInv_alone (hstill.alone (t := .ui) hres rfl) (Or.inl rfl)
      · exact OtaInv.goto ⟨h.one, h.state⟩ rfl
  | notify type =>
      obtain ⟨-, rfl⟩ := hstep
      rw [OtaState.userFotaEventHandler]
      split
      · exact h.goto rfl
      · exact h
  | download =>
      obtain ⟨-, rfl⟩ := hstep
      exact otaInv_alone (hstill.alone (t := .cloud) trivial rfl) (Or.inr rfl)
  | queried t res =>
      obtain ⟨hphase, rfl⟩ := hstep
      have halone := h.alone (t := t) .downloadStart (by rw [hphase]; rfl)
      rw [OtaState.downloadFotaImageDone]
      split
      · exact otaInv_alone halone (Or.inl rfl)
      · exact otaInv_alone halone (Or.inr rfl)
  | install t =>
      obtain ⟨hphase, rfl⟩ := hstep
      exact otaInv_alone (h.alone (t := t) .downloadSuccess (by rw [hphase]; rfl))
        (Or.inr rfl)
  | complete t =>
      obtain ⟨hphase, rfl⟩ := hstep
      exact otaInv_alone (h.alone (t := t) .installStart (by rw [hphase]; rfl))
        (Or.inl rfl)
  | expire =>
      obtain ⟨-, rfl⟩ := hstep
      have hnone : ∀ t', ¬ Downloads s t' := fun t' hd => hstill t' hd nofun trivial
      refine ⟨fun t₁ t₂ h₁ _ => absurd h₁ (hnone t₁), ?_⟩
      intro t' o ho
      refine absurd ?_ (hnone t')
      rw [Downloads]
      exact Option.ne_none_iff_exists'.mpr ⟨o, ho⟩

/-- The thread of the step downloads, and no other can. -/
theorem OtaInv.own {s : OtaState} {t t' : OtaThread} (h : OtaInv s) (ht : Downloads s t)
    (hd : Downloads s t') : some t = some t' :=
  congrArg some (h.one t t' ht hd)

theorem undisturbed_of_keepsStill {s s' : OtaState} {act : OtaAct} (h : OtaInv s)
    (hs : otaMachine.step s act = some s') (hstill : KeepsStill s act) : Undisturbed s act := by
  intro s₁ hs₁ t hd hne
  obtain rfl := Option.some.inj (hs.symm.trans hs₁)
  have hstep := otaMachine_step hs
  have hno := hstill t hd hne
  cases act with
  | otaRquest valueint => exact absurd trivial hno
  | requested res =>
      obtain ⟨-, rfl⟩ := hstep
      have hres : ¬ res ≠ 0 := hno
      rw [OtaState.requestFotaImageDone, if_neg hres]
      exact ⟨rfl, fun t' hd' => downloads_goto (s := { s with timer := true }) rfl hd'⟩
  | notify type =>
      obtain ⟨-, rfl⟩ := hstep
      rw [OtaState.userFotaEventHandler]
      split
      · exact ⟨rfl, fun t' hd' => downloads_goto rfl hd'⟩
      · exact ⟨rfl, fun t' hd' => hd'⟩
  | download => exact absurd trivial hno
  | queried t₀ res =>
      exact absurd (h.own (downloads_of_phase hstep.1 (by decide)) hd) hne
  | install t₀ =>
      exact absurd (h.own (downloads_of_phase hstep.1 (by decide)) hd) hne
  | complete t₀ =>
      exact absurd (h.own (downloads_of_phase hstep.1 (by decide)) hd) hne
  | expire => exact absurd trivial hno

/-- A step that disturbs starts a download, or sets a state no download sets. -/
theorem keepsStill_of_undisturbed {s s' : OtaState} {act : OtaAct} (h : OtaInv s)
    (hs : otaMachine.step s act = some s') (hund : Undisturbed s act) : KeepsStill s act := by
  intro t hd hne hdis
  have hstep := otaMachine_step hs
  obtain ⟨hstate, hnew⟩ := hund s' hs t hd hne
  obtain ⟨o, ho⟩ := Option.ne_none_iff_exists'.mp hd
  have hset := sets_downloads ho
  rw [h.state t o ho] at hstate
  cases act with
  | otaRquest valueint =>
      obtain ⟨hphase, rfl⟩ := hstep
      by_cases hv : valueint = 0
      · rw [if_pos hv] at hstate
        exact hset.1 hstate.symm
      · rw [if_neg hv] at hnew
        exact hnew .ui downloads_downloadFotaImage (by rw [hphase]; rfl)
  | requested res =>
      obtain ⟨-, rfl⟩ := hstep
      have hres : res ≠ 0 := hdis
      rw [OtaState.requestFotaImageDone, if_pos hres] at hstate
      exact hset.2 hstate.symm
  | notify type => exact hdis
  | download =>
      obtain ⟨hphase, rfl⟩ := hstep
      exact hnew .cloud downloads_downloadFotaImage (by rw [hphase]; rfl)
  | queried t₀ res => exact hdis
  | install t₀ => exact hdis
  | complete t₀ => exact hdis
  | expire =>
      obtain ⟨-, rfl⟩ := hstep
      exact hset.2 hstate.symm

/-- **One step**: a download is disturbed by exactly those steps. -/
theorem keepsStill_iff {s s' : OtaState} {act : OtaAct} (h : OtaInv s)
    (hs : otaMachine.step s act = some s') : KeepsStill s act ↔ Undisturbed s act :=
  ⟨undisturbed_of_keepsStill h hs, keepsStill_of_undisturbed h hs⟩

theorem otaInv_init : OtaInv OtaState.init where
  one := fun _ _ h => absurd rfl h
  state := fun _ _ h => by cases h

/-- **Downloads are exclusive** in a run, from the start of the program on, exactly
when during each of them the UI makes no request, none of its requests fails, no
other download decided on before begins, and the timer does not expire. -/
theorem ota_exclusive_iff (acts : List OtaAct) :
    otaMachine.Meets Undisturbed .init acts ↔ otaMachine.Meets KeepsStill .init acts :=
  (Machine.meets_congr (P := OtaInv) (V := fun _ => True)
    (fun _ _ _ _ hC h hs => otaInv_step hC h hs) (fun _ _ _ _ h hs => keepsStill_iff h hs)
    (fun _ _ => trivial) otaInv_init).symm

/-- A request arms the timer, a download is started, and the timer expires. -/
def disturbedDownload : List OtaAct := [.otaRquest 0, .requested 0, .otaRquest 1, .expire]

theorem ota_not_exclusive : ¬ otaMachine.Meets Undisturbed .init disturbedDownload := by
  intro h
  obtain ⟨s, hs⟩ : ∃ s, otaMachine.run .init [.otaRquest 0, .requested 0, .otaRquest 1] = some s :=
    ⟨_, rfl⟩
  have hlast : otaMachine.Meets Undisturbed s [.expire] :=
    Machine.Meets.of_append h hs
  obtain rfl := Option.some.inj hs
  have hstate := ((hlast _ rfl).1 _ rfl .ui (by decide) (by decide)).1
  cases hstate

end X50
