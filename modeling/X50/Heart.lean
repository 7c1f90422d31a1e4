/-
# `X50.Heart` — the power board's heart beat

The loop of `uart/uart_task.c` calls `ecb_timeout_cb` when nothing has come for
200 ms, and `ecb_recv_cb` when something has.  The former resends, asks the board
for its state now and then, and counts; a HEART frame sets the count back.  When
the count reaches `MSG_HEART_TIME` the cloud is told that the power board is gone,
and from then on the count stands still.

`history` is what has happened so far, for the record only.  It is what the calls of the
loop bring (`run_record`); the HEART frames cut it into stretches, and `heart_alarm` says
what the alarm has to do with them.
-/
import X50.Lib.Stretch
import X50.Resend

namespace X50

open X50.Lib

/-! ## The state of the task -/

/-- `MSG_GET_SHORT_TIME`, in ticks -/
def msgGetShortTime : Nat := 3 * 5

/-- `MSG_GET_LONG_TIME` -/
def msgGetLongTime : Nat := 3 * 30 * 5

/-- `MSG_HEART_TIME` -/
def msgHeartTime : Nat := 15 * 5

/-- `POWER_BOARD_ERROR_CODE` -/
def powerBoardErrorCode : Nat := 9

/-- `ECB_UART_DISCONNECT_COUNT` -/
def ecbUartDisconnectCount : Nat := 4

/-- `ecb_uart_status_t` -/
inductive EcbUartStatus where
  | connected
  | connectint
  | disconnect
deriving DecidableEq, Repr

/-- What happens to the task: a tick, with its number, or a frame that has been
parsed. -/
inductive EcbHappening where
  | tick (number : Nat)
  | parsed (event : EcbEvent)
deriving DecidableEq, Repr

/-- The variables of `ecb_uart.c` and `ecb_uart_parse_msg.c`.  `ticks`, `history` and
`errors` are for the record: how many ticks there were, all that happened, and the
calls of `send_error_to_cloud`, each with the number of its tick. -/
structure EcbTask where
  receiver : EcbReceiver
  resend : ResendState
  msgGetTimeoutCount : Nat
  ecbHeartCount : Nat
  ecbMsgGetCount : Nat
  ecbMsgGetTimeout : Nat
  ticks : Nat
  history : List EcbHappening
  errors : List (Nat × Nat)

/-! ## The tick -/

/-- `ecb_uart_msg_get(true)`, at `now` -/
def EcbTask.msgGet (s : EcbTask) (now : Nat) : EcbTask :=
  { s with
    msgGetTimeoutCount :=
      if s.msgGetTimeoutCount ≤ ecbUartDisconnectCount then s.msgGetTimeoutCount + 1
      else s.msgGetTimeoutCount
    resend := s.resend.send 0x01 [] false now }

/-- `ecb_uart_msg_get(false)` -/
def EcbTask.msgGetStatus (s : EcbTask) : EcbUartStatus :=
  if ecbUartDisconnectCount ≤ s.msgGetTimeoutCount then .disconnect
  else if s.msgGetTimeoutCount = 0 then .connected
  else .connectint

/-- The part of `ecb_timeout_cb` that asks the board for its state. -/
def EcbTask.askBoard (s : EcbTask) (now : Nat) : EcbTask :=
  let timeout :=
    if s.ecbMsgGetTimeout = msgGetShortTime ∧ s.msgGetStatus = .connected then msgGetLongTime
    else if s.ecbMsgGetTimeout = msgGetLongTime ∧ s.msgGetStatus = .disconnect then msgGetShortTime
    else s.ecbMsgGetTimeout
  let count := s.ecbMsgGetCount + 1
  if timeout < count then ({ s with ecbMsgGetTimeout := timeout, ecbMsgGetCount := 0 }).msgGet now
  else { s with ecbMsgGetTimeout := timeout, ecbMsgGetCount := count }

/-- `send_error_to_cloud` -/
def EcbTask.sendErrorToCloud (s : EcbTask) (errorCode : Nat) : EcbTask :=
  { s with errors := s.errors ++ [(s.ticks, errorCode)] }

/-- The part of `ecb_timeout_cb` that waits for the heart beat;
`ecb_uart_heart_timeout` is the count, or the count after one more. -/
def EcbTask.heartTimeout (s : EcbTask) : EcbTask :=
  if s.ecbHeartCount < msgHeartTime then
    let s := { s with ecbHeartCount := s.ecbHeartCount + 1 }
    if s.ecbHeartCount = msgHeartTime then s.sendErrorToCloud powerBoardErrorCode else s
  else s

/-- `ecb_timeout_cb`, at `now` -/
def EcbTask.ecbTimeoutCb (s : EcbTask) (now : Nat) : EcbTask :=
  let s := ({ s with resend := s.resend.timeout now }).askBoard now
  let s := s.heartTimeout
  { s with ticks := s.ticks + 1, history := s.history ++ [.tick s.ticks] }

/-! ## The frames -/

/-- What an action of the parser does to the counts. -/
def EcbTask.act (s : EcbTask) : EcbAction → EcbTask
  | .heart => { s with ecbHeartCount := 0 }
  | .getAck => { s with msgGetTimeoutCount := 0 }
  | _ => s

/-- A frame that has been parsed. -/
def EcbTask.parsed (s : EcbTask) (event : EcbEvent) : EcbTask :=
  let s := event.actions.foldl EcbTask.act s
  { s with resend := s.resend.recv event, history := s.history ++ [.parsed event] }

/-- `ecb_recv_cb`, when `read` delivers `chunk` -/
def EcbTask.ecbRecvCb (s : EcbTask) (chunk : List UInt8) : Option EcbTask :=
  (X50.ecbRecvCb chunk s.receiver).map fun receiver =>
    (receiver.events.drop s.receiver.events.length).foldl EcbTask.parsed
      { s with receiver := receiver }

/-- What the loop calls. -/
inductive EcbStep where
  | timeout (now : Nat)
  | recv (chunk : List UInt8)

def ecbTask : Machine EcbTask EcbStep where
  step s
    | .timeout now => some (s.ecbTimeoutCb now)
    | .recv chunk => s.ecbRecvCb chunk

/-- The task behind `ecb_uart_init`, at `now`. -/
def EcbTask.init (now : Nat) : EcbTask :=
  let s : EcbTask :=
    { receiver := .init, resend := .init 0, msgGetTimeoutCount := 0, ecbHeartCount := 0
      ecbMsgGetCount := 0, ecbMsgGetTimeout := msgGetShortTime, ticks := 0, history := []
      errors := [] }
  s.msgGet now

/-! ## The stretches -/

/-- A HEART frame. -/
def EcbHappening.IsHeart : EcbHappening → Bool
  | .parsed (.dispatch m _) => decide (m.command = 0x0c)
  | _ => false

/-- The number of a tick. -/
def EcbHappening.tickNumber : EcbHappening → Option Nat
  | .tick number => some number
  | .parsed _ => none

/-- The ticks of a stretch. -/
def stretchTicks (stretch : List EcbHappening) : List Nat :=
  stretch.filterMap EcbHappening.tickNumber

/-- The tick of a stretch on which the alarm is due: the one numbered
`MSG_HEART_TIME`, if the stretch is that long. -/
def stretchAlarm (stretch : List EcbHappening) : Option (Nat × Nat) :=
  (stretchTicks stretch)[msgHeartTime - 1]?.map fun number => (number, powerBoardErrorCode)

/-- The count is that of the ticks of the last stretch, as far as it goes, and the
alarm has been given where it was due. -/
structure HeartInv (s : EcbTask) : Prop where
  numbers : stretchTicks s.history = List.range s.ticks
  counted : ∃ before last, s.history.splitOnP EcbHappening.IsHeart = before ++ [last] ∧
    s.ecbHeartCount = min msgHeartTime (stretchTicks last).length
  alarms : s.errors = (s.history.splitOnP EcbHappening.IsHeart).filterMap stretchAlarm

variable {s s' : EcbTask}

theorem stretchTicks_concat (stretch : List EcbHappening) (x : EcbHappening) :
    stretchTicks (stretch ++ [x]) = stretchTicks stretch ++ x.tickNumber.toList := by
  rw [stretchTicks, List.filterMap_append]
  cases h : x.tickNumber <;> simp [stretchTicks, h]

/-- A tick makes the alarm due when it is the last that is waited for. -/
theorem stretchAlarm_tick (stretch : List EcbHappening) (number : Nat) :
    stretchAlarm (stretch ++ [.tick number]) =
      if (stretchTicks stretch).length + 1 = msgHeartTime then some (number, powerBoardErrorCode)
      else stretchAlarm stretch := by
  have hticks : stretchTicks (stretch ++ [.tick number]) = stretchTicks stretch ++ [number] :=
    stretchTicks_concat stretch (.tick number)
  rw [stretchAlarm, stretchAlarm, hticks]
  rcases Nat.lt_trichotomy (stretchTicks stretch).length (msgHeartTime - 1) with hlt | heq | hgt
  · have hshort : (stretchTicks stretch ++ [number]).length ≤ msgHeartTime - 1 := by
      rw [List.length_append]
      exact hlt
    rw [if_neg (by omega), List.getElem?_eq_none hshort, List.getElem?_eq_none hlt.le]
  · have hpos : 0 < msgHeartTime := by decide
    rw [if_pos (by omega), ← heq]
    simp
  · rw [if_neg (by omega), List.getElem?_append_left hgt]

/-- Asking the board leaves the heart beat alone. -/
theorem askBoard_keeps (s : EcbTask) (now : Nat) :
    (s.askBoard now).ecbHeartCount = s.ecbHeartCount ∧ (s.askBoard now).ticks = s.ticks ∧
      (s.askBoard now).history = s.history ∧ (s.askBoard now).errors = s.errors := by
  rw [EcbTask.askBoard]
  repeat' split
  all_goals exact ⟨rfl, rfl, rfl, rfl⟩

theorem heartTimeout_keeps (s : EcbTask) :
    s.heartTimeout.ticks = s.ticks ∧ s.heartTimeout.history = s.history := by
  rw [EcbTask.heartTimeout]
  split
  · dsimp only
    split <;> exact ⟨rfl, rfl⟩
  · exact ⟨rfl, rfl⟩

/-- The count goes up while it is below the limit, and the alarm is given when it
arrives there. -/
theorem heartTimeout_count (s : EcbTask) {n : Nat} (hn : s.ecbHeartCount = min msgHeartTime n) :
    s.heartTimeout.ecbHeartCount = min msgHeartTime (n + 1) ∧
      s.heartTimeout.errors = s.errors ++
        if n + 1 = msgHeartTime then [(s.ticks, powerBoardErrorCode)] else [] := by
  rw [EcbTask.heartTimeout]
  split
  · rename_i hlt
    have hcount : s.ecbHeartCount = n := by omega
    dsimp only
    split
    · rename_i hlast
      refine ⟨?_, ?_⟩
      · change s.ecbHeartCount + 1 = _
        omega
      · rw [if_pos (by omega)]
        rfl
    · rename_i hlast
      refine ⟨?_, ?_⟩
      · change s.ecbHeartCount + 1 = _
        omega
      · rw [if_neg (by omega), List.append_nil]
  · rename_i hge
    refine ⟨by omega, ?_⟩
    rw [if_neg (by omega), List.append_nil]

/-- What a tick leaves behind. -/
theorem ecbTimeoutCb_eq (s : EcbTask) (now : Nat) {n : Nat}
    (hn : s.ecbHeartCount = min msgHeartTime n) :
    (s.ecbTimeoutCb now).ecbHeartCount = min msgHeartTime (n + 1) ∧
      (s.ecbTimeoutCb now).ticks = s.ticks + 1 ∧
      (s.ecbTimeoutCb now).history = s.history ++ [.tick s.ticks] ∧
      (s.ecbTimeoutCb now).errors = s.errors ++
        if n + 1 = msgHeartTime then [(s.ticks, powerBoardErrorCode)] else [] := by
  obtain ⟨hcount, hticks, hhistory, herrors⟩ :=
    askBoard_keeps { s with resend := s.resend.timeout now } now
  obtain ⟨hcount', herrors'⟩ := heartTimeout_count _ (hcount.trans hn)
  obtain ⟨hticks', hhistory'⟩ :=
    heartTimeout_keeps (EcbTask.askBoard { s with resend := s.resend.timeout now } now)
  refine ⟨hcount', ?_, ?_, ?_⟩
  · rw [EcbTask.ecbTimeoutCb, hticks', hticks]
  · rw [EcbTask.ecbTimeoutCb, hhistory', hhistory, hticks', hticks]
  · rw [EcbTask.ecbTimeoutCb, herrors', herrors, hticks]

theorem HeartInv.tick (h : HeartInv s) (now : Nat) : HeartInv (s.ecbTimeoutCb now) := by
  obtain ⟨before, last, hsplit, hcount⟩ := h.counted
  obtain ⟨hcount', hticks, hhistory, herrors⟩ := ecbTimeoutCb_eq s now hcount
  have hsplit' : (s.history ++ [EcbHappening.tick s.ticks]).splitOnP EcbHappening.IsHeart =
      before ++ [last ++ [.tick s.ticks]] := splitOnP_concat_neg rfl hsplit
  have hlast : stretchTicks (last ++ [.tick s.ticks]) = stretchTicks last ++ [s.ticks] :=
    stretchTicks_concat last (.tick s.ticks)
  constructor
  · rw [hhistory, stretchTicks_concat, h.numbers, hticks, List.range_succ]
    rfl
  · refine ⟨before, last ++ [.tick s.ticks], ?_, ?_⟩
    · rw [hhistory, hsplit']
    · rw [hcount', hlast, List.length_append]
      rfl
  · rw [herrors, h.alarms, hhistory, hsplit', hsplit, List.filterMap_append, List.filterMap_append,
      List.append_assoc]
    congr 1
    by_cases hdue : (stretchTicks last).length + 1 = msgHeartTime
    · -- the stretch was too short for an alarm before
      have hshort : stretchAlarm last = none := by
        rw [stretchAlarm, List.getElem?_eq_none (by omega)]
        rfl
      have halarm : stretchAlarm (last ++ [.tick s.ticks]) = some (s.ticks, powerBoardErrorCode) := by
        rw [stretchAlarm_tick, if_pos hdue]
      rw [if_pos hdue, List.filterMap_cons_none hshort, List.filterMap_cons_some halarm]
      rfl
    · have halarm : stretchAlarm (last ++ [.tick s.ticks]) = stretchAlarm last := by
        rw [stretchAlarm_tick, if_neg hdue]
      rw [if_neg hdue, List.append_nil, List.filterMap_cons, List.filterMap_cons, halarm]

/-- What the actions of a frame do to the count. -/
theorem foldl_act_keeps (acts : List EcbAction) (s : EcbTask) :
    (acts.foldl EcbTask.act s).ticks = s.ticks ∧ (acts.foldl EcbTask.act s).history = s.history ∧
      (acts.foldl EcbTask.act s).errors = s.errors ∧
      (acts.foldl EcbTask.act s).ecbHeartCount =
        if .heart ∈ acts then 0 else s.ecbHeartCount := by
  induction acts generalizing s with
  | nil => exact ⟨rfl, rfl, rfl, rfl⟩
  | cons act acts ih =>
      obtain ⟨hticks, hhistory, herrors, hcount⟩ := ih (s.act act)
      rw [List.foldl_cons, hticks, hhistory, herrors, hcount]
      cases act <;> simp [EcbTask.act]

/-- HEART is the frame that beats. -/
theorem heart_mem_actions (event : EcbEvent) :
    .heart ∈ event.actions ↔ (EcbHappening.parsed event).IsHeart = true := by
  cases event with
  | nakTailer seqId => simp [EcbEvent.actions, EcbHappening.IsHeart]
  | dispatch m next =>
      simp only [EcbHappening.IsHeart, decide_eq_true_eq]
      constructor
      · intro hmem
        by_contra hne
        rw [EcbEvent.actions, if_neg hne] at hmem
        revert hmem
        repeat' split
        all_goals simp
      · intro heq
        rw [EcbEvent.actions, heq]
        exact List.mem_cons_self

theorem HeartInv.frame (h : HeartInv s) (event : EcbEvent) : HeartInv (s.parsed event) := by
  obtain ⟨hticks, hhistory, herrors, hcount⟩ := foldl_act_keeps event.actions s
  obtain ⟨before, last, hsplit, hcounted⟩ := h.counted
  have hnew : (s.parsed event).history = s.history ++ [.parsed event] := by
    rw [EcbTask.parsed, hhistory]
  have hcount' : (s.parsed event).ecbHeartCount =
      if .heart ∈ event.actions then 0 else s.ecbHeartCount := hcount
  have herrors' : (s.parsed event).errors = s.errors := herrors
  have hticks' : (s.parsed event).ticks = s.ticks := hticks
  have hnumbers : stretchTicks (s.parsed event).history = List.range (s.parsed event).ticks := by
    rw [hnew, stretchTicks_concat, h.numbers, hticks']
    exact List.append_nil _
  by_cases hheart : (EcbHappening.parsed event).IsHeart = true
  · have hsplit' := splitOnP_concat_pos s.history hheart
    refine ⟨hnumbers, ⟨_, [], hnew ▸ hsplit', ?_⟩, ?_⟩
    · rw [hcount', if_pos ((heart_mem_actions event).mpr hheart)]
      rfl
    · rw [herrors', h.alarms, hnew, hsplit', List.filterMap_append]
      exact (List.append_nil _).symm
  · have hsplit' := splitOnP_concat_neg (Bool.not_eq_true _ ▸ hheart) hsplit
    have hlast : stretchTicks (last ++ [.parsed event]) = stretchTicks last := by
      rw [stretchTicks_concat]
      exact List.append_nil _
    refine ⟨hnumbers, ⟨before, _, hnew ▸ hsplit', ?_⟩, ?_⟩
    · rw [hcount', if_neg fun hmem => hheart ((heart_mem_actions event).mp hmem), hlast, hcounted]
    · have halarm : stretchAlarm (last ++ [.parsed event]) = stretchAlarm last := by
        rw [stretchAlarm, hlast, stretchAlarm]
      rw [herrors', h.alarms, hnew, hsplit', hsplit, List.filterMap_append, List.filterMap_append,
        List.filterMap_cons, List.filterMap_cons, halarm]

theorem heartInv_step {a : EcbStep} (h : HeartInv s) (hstep : ecbTask.step s a = some s') :
    HeartInv s' := by
  cases a with
  | timeout now =>
      obtain rfl := Option.some.inj hstep
      exact h.tick now
  | recv chunk =>
      obtain ⟨receiver, -, rfl⟩ := Option.map_eq_some_iff.mp hstep
      have hstart : HeartInv { s with receiver := receiver } := ⟨h.numbers, h.counted, h.alarms⟩
      generalize receiver.events.drop s.receiver.events.length = events
      revert hstart
      generalize ({ s with receiver := receiver } : EcbTask) = t
      intro hstart
      induction events generalizing t with
      | nil => exact hstart
      | cons event events ih => exact ih _ (hstart.frame event)

theorem heartInv_init (now : Nat) : HeartInv (EcbTask.init now) :=
  ⟨rfl, ⟨[], [], rfl, rfl⟩, rfl⟩

/-! ## Runs -/

/-- A tick. -/
def EcbStep.isTimeout : EcbStep → Bool
  | .timeout _ => true
  | .recv _ => false

/-- What the calls of the loop bring: a tick each, with its number, and the frames the
parser finds in what is read. -/
def ecbHappenings (receiver : EcbReceiver) (ticks : Nat) : List EcbStep → List EcbHappening
  | [] => []
  | .timeout _ :: steps => .tick ticks :: ecbHappenings receiver (ticks + 1) steps
  | .recv chunk :: steps =>
      match X50.ecbRecvCb chunk receiver with
      | none => []
      | some receiver' =>
          (receiver'.events.drop receiver.events.length).map .parsed ++
            ecbHappenings receiver' ticks steps

theorem receiver_askBoard (s : EcbTask) (now : Nat) : (s.askBoard now).receiver = s.receiver := by
  rw [EcbTask.askBoard]
  repeat' split
  all_goals rfl

theorem receiver_heartTimeout (s : EcbTask) : s.heartTimeout.receiver = s.receiver := by
  rw [EcbTask.heartTimeout]
  split
  · dsimp only
    split <;> rfl
  · rfl

/-- A tick is counted, and written down. -/
theorem ecbTimeoutCb_record (s : EcbTask) (now : Nat) :
    (s.ecbTimeoutCb now).ticks = s.ticks + 1 ∧
      (s.ecbTimeoutCb now).history = s.history ++ [.tick s.ticks] ∧
      (s.ecbTimeoutCb now).receiver = s.receiver := by
  obtain ⟨-, hticks, hhistory, -⟩ := askBoard_keeps { s with resend := s.resend.timeout now } now
  obtain ⟨hticks', hhistory'⟩ :=
    heartTimeout_keeps (EcbTask.askBoard { s with resend := s.resend.timeout now } now)
  refine ⟨?_, ?_, ?_⟩
  · rw [EcbTask.ecbTimeoutCb, hticks', hticks]
  · rw [EcbTask.ecbTimeoutCb, hhistory', hhistory, hticks', hticks]
  · exact (receiver_heartTimeout _).trans (receiver_askBoard _ now)

theorem receiver_foldl_act (acts : List EcbAction) (s : EcbTask) :
    (acts.foldl EcbTask.act s).receiver = s.receiver := by
  induction acts generalizing s with
  | nil => rfl
  | cons act acts ih =>
      rw [List.foldl_cons, ih]
      cases act <;> rfl

theorem receiver_foldl_parsed (events : List EcbEvent) (s : EcbTask) :
    (events.foldl EcbTask.parsed s).receiver = s.receiver := by
  induction events generalizing s with
  | nil => rfl
  | cons event events ih =>
      rw [List.foldl_cons, ih]
      exact receiver_foldl_act event.actions s

/-- The frames of a read are written down. -/
theorem foldl_parsed_record (events : List EcbEvent) (s : EcbTask) :
    (events.foldl EcbTask.parsed s).ticks = s.ticks ∧
      (events.foldl EcbTask.parsed s).history = s.history ++ events.map .parsed := by
  induction events generalizing s with
  | nil => exact ⟨rfl, (List.append_nil _).symm⟩
  | cons event events ih =>
      obtain ⟨hticks, hhistory, -⟩ := foldl_act_keeps event.actions s
      obtain ⟨hticks', hhistory'⟩ := ih (s.parsed event)
      have hone : (s.parsed event).history = s.history ++ [.parsed event] := by
        rw [EcbTask.parsed, hhistory]
      rw [List.foldl_cons, hticks', hhistory', hone, List.append_assoc]
      exact ⟨hticks, rfl⟩

/-- **The record of a run** is what the calls of the loop bring. -/
theorem run_record {steps : List EcbStep} (hrun : ecbTask.run s steps = some s') :
    s'.ticks = s.ticks + steps.countP EcbStep.isTimeout ∧
      s'.history = s.history ++ ecbHappenings s.receiver s.ticks steps := by
  induction steps generalizing s with
  | nil =>
      obtain rfl := Option.some.inj hrun
      exact ⟨rfl, (List.append_nil _).symm⟩
  | cons step steps ih =>
      obtain ⟨t, ht, hrest⟩ := Machine.run_cons.mp hrun
      obtain ⟨hticks, hhistory⟩ := ih hrest
      cases step with
      | timeout now =>
          obtain rfl := Option.some.inj ht
          obtain ⟨hone, htick, hreceiver⟩ := ecbTimeoutCb_record s now
          rw [hticks, hhistory, hone, htick, hreceiver, List.countP_cons_of_pos rfl]
          refine ⟨by omega, ?_⟩
          rw [List.append_assoc]
          rfl
      | recv chunk =>
          obtain ⟨receiver, hreceiver, rfl⟩ := Option.map_eq_some_iff.mp ht
          obtain ⟨hsame, hparsed⟩ := foldl_parsed_record
            (receiver.events.drop s.receiver.events.length) { s with receiver := receiver }
          have hnew := receiver_foldl_parsed
            (receiver.events.drop s.receiver.events.length) { s with receiver := receiver }
          rw [hticks, hhistory, hsame, hparsed, hnew, List.countP_cons_of_neg (by simp [EcbStep.isTimeout]),
            ecbHappenings, hreceiver]
          exact ⟨rfl, List.append_assoc _ _ _⟩

/-- **The alarm is given once for every silence that is long enough.**  Cut what the calls
of a run bring at the HEART frames: the calls of `send_error_to_cloud` are, in order, one
for each stretch of at least `MSG_HEART_TIME` ticks, at that tick. -/
theorem heart_alarm (now : Nat) (steps : List EcbStep) (s : EcbTask)
    (hrun : ecbTask.run (EcbTask.init now) steps = some s) :
    s.errors = ((ecbHappenings .init 0 steps).splitOnP EcbHappening.IsHeart).filterMap
        stretchAlarm ∧
      s.ecbHeartCount ≤ msgHeartTime ∧
      stretchTicks (ecbHappenings .init 0 steps) =
        List.range (steps.countP EcbStep.isTimeout) := by
  have h : HeartInv s := Machine.run_invariant (P := HeartInv) (V := fun _ => True)
    (fun t a t' _ ht hstep => heartInv_step ht hstep) (fun _ _ => trivial) (heartInv_init now) hrun
  obtain ⟨before, last, -, hcount⟩ := h.counted
  obtain ⟨hticks, hhistory⟩ := run_record hrun
  have hticks' : s.ticks = steps.countP EcbStep.isTimeout := hticks.trans (Nat.zero_add _)
  have hhistory' : s.history = ecbHappenings .init 0 steps := hhistory
  rw [← hhistory', ← hticks']
  refine ⟨h.alarms, ?_, h.numbers⟩
  rw [hcount]
  exact Nat.min_le_left _ _

/-- A silence of 80 ticks, a HEART frame, and a silence of 75. -/
def heartSteps : List EcbStep :=
  List.replicate 80 (.timeout 0) ++
    .recv [0xe6, 0xe6, 0x00, 0x01, 0x0c, 0x00, 0x00, 0x12, 0x34, 0x6e, 0x6e] ::
    List.replicate 75 (.timeout 0)

theorem heart_alarm_twice : ∃ s, ecbTask.run (EcbTask.init 0) heartSteps = some s ∧
    s.errors = [(74, 9), (154, 9)] := by
  obtain ⟨s, hrun⟩ := Option.isSome_iff_exists.mp
    (show (ecbTask.run (EcbTask.init 0) heartSteps).isSome = true by decide +kernel)
  have halarms : ((ecbHappenings .init 0 heartSteps).splitOnP EcbHappening.IsHeart).filterMap
      stretchAlarm = [(74, 9), (154, 9)] := by decide +kernel
  exact ⟨s, hrun, (heart_alarm 0 heartSteps s hrun).1.trans halarms⟩

end X50
