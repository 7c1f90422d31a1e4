/-
# `X50.Unbind` — the request to unbind the device

`linkkit_unbind` notes in the key-value file that the device is to be unbound and tells
the cloud; at each connection `linkkit_unbind_check` tells it again if the note is there,
and the cloud's answer clears it.

    set         another module stores a key of its own
    unbind      `linkkit_unbind`; in `unbindCut` the power fails behind the note
    connected   `linkkit_unbind_check`, from `user_connected_event_handler`
    reply       the answer arrives (`linkkit_devrst_evt_handle`)
    restart     the power has failed

What `HAL_Kv_Set` returns is not looked at.  `unbind_kept`: through any of this the cloud
is told at a connection exactly if the last of requests and answers was a request, unless
the row of the note was full before the first of them.
-/
import X50.KvStore
import X50.Quad

namespace X50

open X50.Lib

/-! ## The functions -/

/-- `LINKKIT_RST`. -/
def linkkitRst : CStr := cstr "awss.rst"

/-- The file, `g_dev_reset_sub_flag`, whether `g_devrst_event_handle` is set, and how many
resets were published. -/
structure ResetState where
  rows : KvRows
  devResetSubFlag : Bool
  devrstEventHandle : Bool
  published : Nat

def ResetState.created (written : Nat) : ResetState := ⟨createHashFile written, false, false, 0⟩

/-- What the calls into the MQTT client return. -/
structure ResetNet where
  subscribe : Int
  publish : Int

/-- `IOT_DevReset_Report`. -/
def iotDevResetReport (net : ResetNet) (s : ResetState) : Int × ResetState :=
  let s := { s with devrstEventHandle := true }
  if s.devResetSubFlag = false ∧ net.subscribe < 0 then (-1, s)
  else (net.publish, { s with devResetSubFlag := true, published := s.published + 1 })

/-- `linkkit_dev_reset`. -/
def linkkitDevReset (quad : Quad) (net : ResetNet) (s : ResetState) : Int × ResetState :=
  if quad.productKey = [] ∨ quad.deviceName = [] then (-1, s)
  else
    let r := iotDevResetReport net s
    if r.1 < 0 then (-1, r.2) else r

/-- The note is written, or cleared. -/
def ResetState.note (rst : UInt8) (s : ResetState) : ResetState :=
  { s with rows := (halKvSet linkkitRst [rst] s.rows).2 }

/-- `linkkit_unbind`. -/
def linkkitUnbind (quad : Quad) (net : ResetNet) (s : ResetState) : Int × ResetState :=
  linkkitDevReset quad net (s.note 1)

/-- `linkkit_unbind_check`. -/
def linkkitUnbindCheck (quad : Quad) (net : ResetNet) (s : ResetState) : Int × ResetState :=
  match halKvGet linkkitRst 1 s.rows with
  | none => (-1, s)
  | some rst => if rst = [0] then (-1, s) else linkkitDevReset quad net s

/-! ## Requests, answers and power cuts -/

inductive ResetAct where
  | set (key : CStr) (value : List UInt8)
  | unbind (net : ResetNet)
  | unbindCut
  | connected (net : ResetNet)
  | reply
  | restart

/-- An answer arrives where it was subscribed to, and is heard where there is a handle. -/
def ResetState.step (quad : Quad) (s : ResetState) : ResetAct → Option ResetState
  | .set key value => some { s with rows := (halKvSet key value s.rows).2 }
  | .unbind net => some (linkkitUnbind quad net s).2
  | .unbindCut => some { s.note 1 with devResetSubFlag := false, devrstEventHandle := false }
  | .connected net => some (linkkitUnbindCheck quad net s).2
  | .reply => if s.devResetSubFlag ∧ s.devrstEventHandle then some (s.note 0) else none
  | .restart => some { s with devResetSubFlag := false, devrstEventHandle := false }

def resetMachine (quad : Quad) : Machine ResetState ResetAct := ⟨ResetState.step quad⟩

/-- Other modules have other keys, which fit. -/
def ResetAct.Valid : ResetAct → Prop
  | .set key _ => key ≠ linkkitRst ∧ key.length < itemMaxKeyLen
  | _ => True

/-- The last of requests and answers was a request. -/
def ResetAct.pending (before : Bool) : ResetAct → Bool
  | .unbind _ | .unbindCut => true
  | .reply => false
  | .set _ _ | .connected _ | .restart => before

def requested (acts : List ResetAct) : Bool := acts.foldl ResetAct.pending false

/-! ## The note -/

section

variable {quad : Quad} {net : ResetNet} {s s' : ResetState}

@[simp] theorem rows_iotDevResetReport : (iotDevResetReport net s).2.rows = s.rows := by
  simp only [iotDevResetReport]
  split <;> rfl

@[simp] theorem rows_linkkitDevReset : (linkkitDevReset quad net s).2.rows = s.rows := by
  simp only [linkkitDevReset]
  split
  · rfl
  · split <;> exact rows_iotDevResetReport

@[simp] theorem rows_linkkitUnbindCheck : (linkkitUnbindCheck quad net s).2.rows = s.rows := by
  rw [linkkitUnbindCheck]
  split
  · rfl
  · split
    · rfl
    · exact rows_linkkitDevReset

/-- `HAL_Kv_Set` has room for the note. -/
def ResetState.Room (s : ResetState) : Prop := (halKvSet linkkitRst [1] s.rows).1 = 0

instance (s : ResetState) : Decidable s.Room := inferInstanceAs (Decidable (_ = _))

/-- The note as `linkkit_unbind_check` reads it. -/
def Noted (map : CStr → Option (List UInt8)) : Prop :=
  ∃ v, map linkkitRst = some v ∧ v.take 1 ≠ [0]

/-- The file holds a map with the right note, if it has room for one. -/
structure ResetState.Keeps (s : ResetState) (request : Bool) (map : CStr → Option (List UInt8)) :
    Prop where
  rep : Rep hashGen tableRowSize s.rows map
  noted : Fits hashGen s.rows.length tableRowSize map linkkitRst → (Noted map ↔ request = true)

theorem length_linkkitRst : linkkitRst.length < itemMaxKeyLen := by decide

/-- The key of another module takes no note away. -/
theorem keeps_set {request : Bool} {map : CStr → Option (List UInt8)} {key : CStr}
    (value : List UInt8) (h : s.Keeps request map) (hne : key ≠ linkkitRst)
    (hkey : key.length < itemMaxKeyLen) :
    ∃ map', ResetState.Keeps { s with rows := (halKvSet key value s.rows).2 } request map' ∧
      map' linkkitRst = map linkkitRst := by
  obtain ⟨hrep, hlength⟩ := holds_set (s := ⟨s.rows, map⟩) value h.rep hkey
  have hlength' : (halKvSet key value s.rows).2.length = s.rows.length := hlength
  refine ⟨kvMapStep s.rows.length map (.set key value), ⟨hrep, ?_⟩, ?_⟩
  · intro hfits
    have hfits' : Fits hashGen s.rows.length tableRowSize
        (kvMapStep s.rows.length map (.set key value)) linkkitRst := hlength' ▸ hfits
    rw [kvMapStep] at hfits' hrep ⊢
    split at hfits'
    · rename_i hput
      rw [if_pos hput] at hrep ⊢
      have hbefore := (hlength' ▸ hrep.fits_of_update (Ne.symm hne)) hfits'
      rw [Noted, Function.update_of_ne (Ne.symm hne)]
      exact h.noted hbefore
    · rename_i hput
      rw [if_neg hput]
      exact h.noted hfits'
  · rw [kvMapStep]
    split
    · rw [Function.update_of_ne (Ne.symm hne)]
    · rfl

/-- The note is written over, or there was no room for it. -/
theorem keeps_note {request : Bool} {map : CStr → Option (List UInt8)} (h : s.Keeps request map)
    (rst : UInt8) :
    ∃ map', (s.note rst).Keeps (rst != 0) map' ∧
      (Fits hashGen s.rows.length tableRowSize map linkkitRst → map' linkkitRst ≠ none) := by
  obtain ⟨hrep, hlength⟩ := holds_set (s := ⟨s.rows, map⟩) [rst] h.rep length_linkkitRst
  have hlength' : (s.note rst).rows.length = s.rows.length := hlength
  by_cases hfits : Fits hashGen s.rows.length tableRowSize map linkkitRst
  · have hmap : kvMapStep s.rows.length map (.set linkkitRst [rst]) =
        Function.update map linkkitRst (some [rst]) := by
      rw [kvMapStep, if_pos ⟨List.cons_ne_nil _ _, hfits⟩]
      rfl
    refine ⟨Function.update map linkkitRst (some [rst]), ⟨hmap ▸ hrep, fun _ => ?_⟩, fun _ => ?_⟩
    · simp [Noted]
    · simp
  · have hmap : kvMapStep s.rows.length map (.set linkkitRst [rst]) = map := by
      rw [kvMapStep, if_neg fun h' => hfits h'.2]
    refine ⟨map, ⟨hmap ▸ hrep, fun hfits' => ?_⟩, fun h' => absurd h' hfits⟩
    rw [hlength'] at hfits'
    exact absurd hfits' hfits

/-- Only the file matters. -/
theorem ResetState.Keeps.of_rows {request : Bool} {map : CStr → Option (List UInt8)}
    (h : s.Keeps request map) (hrows : s'.rows = s.rows) : s'.Keeps request map :=
  ⟨hrows ▸ h.rep, hrows ▸ h.noted⟩

/-- **A step.**  The note follows the requests and the answers, and once it is there it is
never gone. -/
theorem keeps_step {a : ResetAct} {request : Bool} {map : CStr → Option (List UInt8)}
    (h : s.Keeps request map) (ha : a.Valid) (hstep : (resetMachine quad).step s a = some s') :
    ∃ map', s'.Keeps (a.pending request) map' ∧
      (map linkkitRst ≠ none → map' linkkitRst ≠ none) := by
  have hthere : ∀ {map' : CStr → Option (List UInt8)},
      (Fits hashGen s.rows.length tableRowSize map linkkitRst → map' linkkitRst ≠ none) →
        map linkkitRst ≠ none → map' linkkitRst ≠ none := by
    intro map' hfits hmap
    exact hfits (h.rep.fits hmap)
  cases a with
  | set key value =>
      obtain rfl := Option.some.inj hstep
      obtain ⟨map', hkeeps, hsame⟩ := keeps_set value h ha.1 ha.2
      exact ⟨map', hkeeps, fun hmap => hsame ▸ hmap⟩
  | unbind net =>
      obtain rfl := Option.some.inj hstep
      obtain ⟨map', hkeeps, hfits⟩ := keeps_note h 1
      exact ⟨map', hkeeps.of_rows rows_linkkitDevReset, hthere hfits⟩
  | unbindCut =>
      obtain rfl := Option.some.inj hstep
      obtain ⟨map', hkeeps, hfits⟩ := keeps_note h 1
      exact ⟨map', hkeeps.of_rows rfl, hthere hfits⟩
  | connected net =>
      obtain rfl := Option.some.inj hstep
      exact ⟨map, h.of_rows rows_linkkitUnbindCheck, id⟩
  | reply =>
      obtain ⟨map', hkeeps, hfits⟩ := keeps_note h 0
      have hnote : s' = s.note 0 := by
        have hstep' : (if s.devResetSubFlag ∧ s.devrstEventHandle then some (s.note 0) else none) =
            some s' := hstep
        split at hstep'
        · exact (Option.some.inj hstep').symm
        · cases hstep'
      exact ⟨map', hnote ▸ hkeeps, hthere hfits⟩
  | restart =>
      obtain rfl := Option.some.inj hstep
      exact ⟨map, h.of_rows rfl, id⟩

theorem keeps_created (written : Nat) :
    (ResetState.created written).Keeps false fun _ => none :=
  ⟨holds_created written, fun _ => by simp [Noted]⟩

theorem keeps_run {written : Nat} {acts : List ResetAct} (hvalid : ∀ a ∈ acts, a.Valid)
    (hrun : (resetMachine quad).run (.created written) acts = some s) :
    ∃ map, s.Keeps (requested acts) map := by
  induction acts using List.reverseRecOn generalizing s with
  | nil =>
      obtain rfl := Option.some.inj hrun
      exact ⟨_, keeps_created written⟩
  | append_singleton acts a ih =>
      obtain ⟨t, ht, hlast⟩ := Machine.run_append.mp hrun
      obtain ⟨u, hstep, hu⟩ := Machine.run_cons.mp hlast
      obtain rfl := Option.some.inj hu
      obtain ⟨map, hkeeps⟩ := ih (fun b hb => hvalid b (List.mem_append_left _ hb)) ht
      obtain ⟨map', hkeeps', -⟩ := keeps_step hkeeps
        (hvalid a (List.mem_append_right _ List.mem_cons_self)) hstep
      refine ⟨map', ?_⟩
      rw [requested, List.foldl_append]
      exact hkeeps'

/-- There is room for the note where it has a place in the map. -/
theorem ResetState.Keeps.room {request : Bool} {map : CStr → Option (List UInt8)}
    (h : s.Keeps request map) :
    s.Room ↔ Fits hashGen s.rows.length tableRowSize map linkkitRst := by
  rw [ResetState.Room, halKvSet_zero _ h.rep length_linkkitRst]
  exact and_iff_right (List.cons_ne_nil _ _)

/-- A note that is there is read at the next connection. -/
theorem ResetState.Keeps.check {request : Bool} {map : CStr → Option (List UInt8)}
    (h : s.Keeps request map) :
    linkkitUnbindCheck quad net s =
      if request = true ∧ s.Room then linkkitDevReset quad net s else (-1, s) := by
  have hget : halKvGet linkkitRst 1 s.rows = (map linkkitRst).map (·.take 1) := by
    rw [halKvGet, if_neg (by decide), h.rep.get]
  rw [linkkitUnbindCheck, hget]
  cases hmap : map linkkitRst with
  | none =>
      have hnot : ¬ (request = true ∧ s.Room) := by
        rintro ⟨hrequest, hroom⟩
        obtain ⟨v, hv, -⟩ := (h.noted (h.room.mp hroom)).mpr hrequest
        rw [hmap] at hv
        cases hv
      rw [if_neg hnot]
      rfl
  | some v =>
      have hfits := h.rep.fits (hmap ▸ Option.some_ne_none v)
      have hnoted := h.noted hfits
      simp only [Noted, hmap, Option.some.injEq, exists_eq_left'] at hnoted
      rw [Option.map_some]
      by_cases hzero : v.take 1 = [0]
      · have hnot : ¬ (request = true ∧ s.Room) := fun h' => hnoted.mpr h'.1 hzero
        rw [if_neg hnot]
        exact if_pos hzero
      · rw [if_pos ⟨hnoted.mp hzero, h.room.mpr hfits⟩]
        exact if_neg hzero

/-- When a report is handed to the MQTT client. -/
theorem published_linkkitDevReset :
    (linkkitDevReset quad net s).2.published = s.published +
      if quad.productKey ≠ [] ∧ quad.deviceName ≠ [] ∧
        (s.devResetSubFlag = true ∨ 0 ≤ net.subscribe) then 1 else 0 := by
  have hreport : (iotDevResetReport net s).2.published = s.published +
      if s.devResetSubFlag = true ∨ 0 ≤ net.subscribe then 1 else 0 := by
    rw [iotDevResetReport]
    by_cases hfail : s.devResetSubFlag = false ∧ net.subscribe < 0
    · have hnot : ¬ (s.devResetSubFlag = true ∨ 0 ≤ net.subscribe) := by
        rw [hfail.1]
        rintro (h | h)
        · cases h
        · omega
      rw [if_pos hfail, if_neg hnot]
      rfl
    · have hyes : s.devResetSubFlag = true ∨ 0 ≤ net.subscribe := by
        by_contra hno
        rw [not_or, Bool.not_eq_true, Int.not_le] at hno
        exact hfail hno
      rw [if_neg hfail, if_pos hyes]
  rw [linkkitDevReset]
  by_cases hnames : quad.productKey = [] ∨ quad.deviceName = []
  · have hnot : ¬ (quad.productKey ≠ [] ∧ quad.deviceName ≠ [] ∧
        (s.devResetSubFlag = true ∨ 0 ≤ net.subscribe)) := by
      rintro ⟨hkey, hname, -⟩
      exact hnames.elim hkey hname
    rw [if_pos hnames, if_neg hnot]
    rfl
  · rw [not_or] at hnames
    rw [if_neg (not_or.mpr hnames)]
    have hiff : (quad.productKey ≠ [] ∧ quad.deviceName ≠ [] ∧
        (s.devResetSubFlag = true ∨ 0 ≤ net.subscribe)) ↔
          (s.devResetSubFlag = true ∨ 0 ≤ net.subscribe) := by
      simp [hnames.1, hnames.2]
    simp only [hiff, ← hreport]
    split <;> rfl

end

/-- **The request is kept.**  Take any run of requests, answers, connections, power cuts and
calls of other modules, from a file just created, whole or cut.  The next connection hands a
report to the MQTT client if and only if the last of requests and answers was a request, the
note has room in the file, the device has its names and the topic is subscribed to.  And a
request that found room for the note leaves it there for ever. -/
theorem unbind_kept {quad : Quad} {written : Nat} {acts : List ResetAct} {s : ResetState}
    (hvalid : ∀ a ∈ acts, a.Valid)
    (hrun : (resetMachine quad).run (.created written) acts = some s) :
    (∀ net, ∃ s', (resetMachine quad).step s (.connected net) = some s' ∧
      s'.published = s.published +
        if requested acts = true ∧ s.Room ∧ quad.productKey ≠ [] ∧ quad.deviceName ≠ [] ∧
          (s.devResetSubFlag = true ∨ 0 ≤ net.subscribe) then 1 else 0) ∧
      ∀ before a after s₁, acts = before ++ a :: after →
        (resetMachine quad).run (.created written) before = some s₁ →
        (a = .unbindCut ∨ ∃ net, a = .unbind net) → s₁.Room → s.Room := by
  obtain ⟨map, hkeeps⟩ := keeps_run hvalid hrun
  refine ⟨fun net => ⟨_, rfl, ?_⟩, ?_⟩
  · rw [hkeeps.check]
    by_cases hasks : requested acts = true ∧ s.Room
    · rw [if_pos hasks, published_linkkitDevReset]
      simp only [hasks.1, hasks.2, true_and]
    · rw [if_neg hasks, if_neg fun h => hasks ⟨h.1, h.2.1⟩]
      rfl
  · rintro before a after s₁ rfl hbefore ha hroom
    obtain ⟨t, ht, hafter⟩ := Machine.run_append.mp hrun
    obtain rfl := Option.some.inj (hbefore.symm.trans ht)
    obtain ⟨u, hstep, hafter⟩ := Machine.run_cons.mp hafter
    obtain ⟨map₁, hkeeps₁⟩ := keeps_run
      (fun b hb => hvalid b (List.mem_append_left _ hb)) hbefore
    obtain ⟨map₂, hkeeps₂, hthere⟩ : ∃ map₂, u.Keeps true map₂ ∧ map₂ linkkitRst ≠ none := by
      obtain ⟨map₂, hnote, hfits⟩ := keeps_note hkeeps₁ 1
      have hthere := hfits (hkeeps₁.room.mp hroom)
      rcases ha with rfl | ⟨net, rfl⟩
      · obtain rfl := Option.some.inj hstep
        exact ⟨map₂, hnote.of_rows rfl, hthere⟩
      · obtain rfl := Option.some.inj hstep
        exact ⟨map₂, hnote.of_rows rows_linkkitDevReset, hthere⟩
    have hlast : ∃ request map, s.Keeps request map ∧ map linkkitRst ≠ none :=
      Machine.run_invariant (V := ResetAct.Valid)
        (P := fun s => ∃ request map, s.Keeps request map ∧ map linkkitRst ≠ none)
        (fun s b s' hb ⟨request, map, hk, hm⟩ hs => by
          obtain ⟨map', hk', hkeep⟩ := keeps_step hk hb hs
          exact ⟨_, map', hk', hkeep hm⟩)
        (fun b hb => hvalid b (List.mem_append_right _ (List.mem_cons_of_mem _ hb)))
        ⟨true, map₂, hkeeps₂, hthere⟩ hafter
    obtain ⟨request, map₃, hkeeps₃, hthere₃⟩ := hlast
    exact hkeeps₃.room.mpr (hkeeps₃.rep.fits hthere₃)

/-- A request cut behind its note, beside the key of another module; then a connection, its
answer, and a second request. -/
def resetActs : List ResetAct :=
  [.set (cstr "bind_rst") [0, 0, 0, 0], .unbindCut, .connected ⟨0, 0⟩, .reply,
    .unbind ⟨-1, -1⟩, .restart]

theorem unbind_kept_cut :
    ∃ s, (resetMachine ⟨cstr "a1YTZpQDGwn", [], cstr "48e1e9d1c0ff", []⟩).run (.created 384)
        resetActs = some s ∧
      ∀ net, ∃ s', (resetMachine ⟨cstr "a1YTZpQDGwn", [], cstr "48e1e9d1c0ff", []⟩).step s
          (.connected net) = some s' ∧
        s'.published = s.published +
          if requested resetActs = true ∧ s.Room ∧ cstr "a1YTZpQDGwn" ≠ [] ∧
            cstr "48e1e9d1c0ff" ≠ [] ∧ (s.devResetSubFlag = true ∨ 0 ≤ net.subscribe)
          then 1 else 0 := by
  have hvalid : ∀ a ∈ resetActs, a.Valid := by
    intro a ha
    simp only [resetActs, List.mem_cons, List.not_mem_nil, or_false] at ha
    rcases ha with rfl | rfl | rfl | rfl | rfl | rfl
    · exact ⟨by decide, by decide⟩
    all_goals trivial
  obtain ⟨s, hs⟩ := Option.isSome_iff_exists.mp
    (show ((resetMachine ⟨cstr "a1YTZpQDGwn", [], cstr "48e1e9d1c0ff", []⟩).run (.created 384)
      resetActs).isSome by decide +kernel)
  exact ⟨s, hs, (unbind_kept hvalid hs).1⟩

end X50
