/-
# `X50.Poll` — when the power board is asked for its state

`ecb_timeout_cb` sends a GET when its counter has run out, and lets it run for
`MSG_GET_SHORT_TIME` or for `MSG_GET_LONG_TIME` ticks depending on whether the board
answers.  The counter, the limit, the count of unanswered GETs and the status made of
it are spread over two files and change at different moments.

What they amount to is a schedule: `Poll` is a GET that has been sent, and says when
the next one is due.

    answered                                            451 ticks after it
    one of the first three unanswered since an answer   451
    a later one, or none was ever answered               16

`ecb_poll`: in any run the GETs are sent on schedule, each of them and no other.
-/
import X50.Heart
import X50.Lib.Simulation

namespace X50

open X50.Lib

/-! ## The schedule -/

/-- The last GET: after how many ticks it was sent, how many in a row are unanswered
with it, whether it was one of the slow ones, and whether it has been answered. -/
structure Poll where
  sentAt : Nat
  unanswered : Nat
  slow : Bool
  answered : Bool
deriving DecidableEq, Repr

namespace Poll

/-- The first GET is that of `ecb_uart_init`. -/
def init : Poll := ⟨0, 1, false, false⟩

/-- The board has time until the long limit. -/
def Patient (p : Poll) : Prop := p.answered = true ∨ p.slow = true ∧ p.unanswered < ecbUartDisconnectCount

instance (p : Poll) : Decidable p.Patient := inferInstanceAs (Decidable (_ ∨ _))

/-- After how many ticks the next one is sent. -/
def due (p : Poll) : Nat := p.sentAt + 1 + if p.Patient then msgGetLongTime else msgGetShortTime

/-- The next one. -/
def next (p : Poll) : Poll where
  sentAt := p.due
  unanswered := if p.answered then 1 else min (ecbUartDisconnectCount + 1) (p.unanswered + 1)
  slow := decide p.Patient
  answered := false

def status (p : Poll) : EcbUartStatus :=
  if p.answered then .connected
  else if ecbUartDisconnectCount ≤ p.unanswered then .disconnect
  else .connectint

end Poll

/-- What is seen of the task: a GET after so many ticks, a GETACK. -/
inductive PollEvent where
  | get (ticks : Nat)
  | getAck
deriving DecidableEq, Repr

/-- The schedule as a machine: a GET at another time is not on it. -/
def pollMachine : Machine Poll PollEvent where
  step p
    | .get ticks => if ticks = p.due then some p.next else none
    | .getAck => some { p with answered := true }

/-- What is seen of a step of the task.  The only frame `ecb_timeout_cb` sends, and
does not send again, is the GET. -/
def pollEvents (s : EcbTask) (a : EcbStep) (s' : EcbTask) : List PollEvent :=
  match a with
  | .timeout _ => if s'.resend.sends = s.resend.sends then [] else [.get s'.ticks]
  | .recv _ =>
      if ∃ event ∈ s'.receiver.events.drop s.receiver.events.length,
        EcbAction.getAck ∈ event.actions then [.getAck] else []

/-! ## A tick -/

/-- The variables of the task, read as a schedule.  Between two ticks the limit may be
behind: the tick after a GET, or after a GETACK, puts it right. -/
structure Scheduled (s : EcbTask) (p : Poll) : Prop where
  ticks : p.sentAt + s.ecbMsgGetCount = s.ticks
  unanswered : 1 ≤ p.unanswered ∧ p.unanswered ≤ ecbUartDisconnectCount + 1
  timeoutCount : s.msgGetTimeoutCount = if p.answered then 0 else p.unanswered
  limit : s.ecbMsgGetTimeout = msgGetShortTime ∨ s.ecbMsgGetTimeout = msgGetLongTime
  first : s.ecbMsgGetCount = 0 → (s.ecbMsgGetTimeout = msgGetLongTime ↔ p.slow = true)
  long : s.ecbMsgGetCount ≠ 0 → s.ecbMsgGetTimeout = msgGetLongTime → p.Patient
  short : s.ecbMsgGetCount ≠ 0 → s.ecbMsgGetTimeout = msgGetShortTime →
    ¬ (p.slow = true ∧ p.unanswered < ecbUartDisconnectCount)
  bound : s.ecbMsgGetCount ≤ s.ecbMsgGetTimeout

namespace Scheduled

variable {s : EcbTask} {p : Poll}

theorem status (h : Scheduled s p) : s.msgGetStatus = p.status := by
  obtain ⟨hpos, -⟩ := h.unanswered
  rw [EcbTask.msgGetStatus, h.timeoutCount, Poll.status]
  cases p.answered with
  | true => rfl
  | false => simp [Nat.ne_of_gt hpos]

/-- The limit of `ecb_timeout_cb` once it has been put right. -/
def limitOf (s : EcbTask) : Nat :=
  if s.ecbMsgGetTimeout = msgGetShortTime ∧ s.msgGetStatus = .connected then msgGetLongTime
  else if s.ecbMsgGetTimeout = msgGetLongTime ∧ s.msgGetStatus = .disconnect then msgGetShortTime
  else s.ecbMsgGetTimeout

theorem limitOf_eq (h : Scheduled s p) :
    limitOf s = if p.Patient then msgGetLongTime else msgGetShortTime := by
  have hne : msgGetShortTime ≠ msgGetLongTime := by decide
  rw [limitOf, h.status, Poll.status]
  by_cases hanswered : p.answered = true
  · -- connected: the long limit, sooner or later
    have hpatient : p.Patient := Or.inl hanswered
    rw [if_pos hpatient, if_pos hanswered]
    rcases h.limit with hl | hl
    · rw [if_pos ⟨hl, rfl⟩]
    · rw [hl, if_neg (fun hc => hne hc.1.symm), if_neg (fun hc => by cases hc.2)]
  · rw [if_neg hanswered]
    by_cases hlost : ecbUartDisconnectCount ≤ p.unanswered
    · -- disconnected: the short one
      have hpatient : ¬ p.Patient := by
        rintro (hp | ⟨-, hp⟩)
        · exact hanswered hp
        · omega
      rw [if_neg hpatient, if_pos hlost, if_neg (fun hc => by cases hc.2)]
      rcases h.limit with hl | hl
      · rw [if_neg (fun hc => hne (hl.symm.trans hc.1)), hl]
      · rw [if_pos ⟨hl, rfl⟩]
    · -- in between: the one there was
      rw [if_neg hlost, if_neg (fun hc => by cases hc.2), if_neg (fun hc => by cases hc.2)]
      have hpatient : p.Patient ↔ p.slow = true := by
        rw [Poll.Patient]
        constructor
        · rintro (hp | ⟨hp, -⟩)
          · exact absurd hp hanswered
          · exact hp
        · intro hp
          exact Or.inr ⟨hp, Nat.not_le.mp hlost⟩
      by_cases hcount : s.ecbMsgGetCount = 0
      · by_cases hslow : p.slow = true
        · rw [if_pos (hpatient.mpr hslow)]
          exact (h.first hcount).mpr hslow
        · rw [if_neg (fun hp => hslow (hpatient.mp hp))]
          exact h.limit.resolve_right fun hl => hslow ((h.first hcount).mp hl)
      · rcases h.limit with hl | hl
        · have hslow := h.short hcount hl
          rw [if_neg, hl]
          intro hp
          exact hslow ⟨hpatient.mp hp, Nat.not_le.mp hlost⟩
        · rw [if_pos (h.long hcount hl), hl]

/-- The counter does not run past the limit, put right or not. -/
theorem count_le_limitOf (h : Scheduled s p) : s.ecbMsgGetCount ≤ limitOf s := by
  rw [h.limitOf_eq]
  have hbound := h.bound
  have hle : msgGetShortTime ≤ msgGetLongTime := by decide
  by_cases hpatient : p.Patient
  · rw [if_pos hpatient]
    rcases h.limit with hl | hl <;> omega
  · rw [if_neg hpatient]
    by_cases hcount : s.ecbMsgGetCount = 0
    · omega
    · rcases h.limit with hl | hl
      · omega
      · exact absurd (h.long hcount hl) hpatient

theorem ticks_lt_due (h : Scheduled s p) : s.ticks < p.due := by
  have hle := h.count_le_limitOf
  rw [h.limitOf_eq] at hle
  have hticks := h.ticks
  rw [Poll.due]
  omega

end Scheduled

/-- What `ecb_timeout_cb` does to the variables of the schedule. -/
theorem askBoard_eq (s : EcbTask) (now : Nat) :
    s.askBoard now =
      if Scheduled.limitOf s < s.ecbMsgGetCount + 1 then
        ({ s with ecbMsgGetTimeout := Scheduled.limitOf s, ecbMsgGetCount := 0 }).msgGet now
      else { s with
        ecbMsgGetTimeout := Scheduled.limitOf s, ecbMsgGetCount := s.ecbMsgGetCount + 1 } := rfl

/-- `ecb_uart_heart_timeout` has nothing to do with it. -/
theorem heartTimeout_poll (s : EcbTask) :
    s.heartTimeout.msgGetTimeoutCount = s.msgGetTimeoutCount ∧
      s.heartTimeout.ecbMsgGetCount = s.ecbMsgGetCount ∧
      s.heartTimeout.ecbMsgGetTimeout = s.ecbMsgGetTimeout ∧
      s.heartTimeout.resend = s.resend ∧ s.heartTimeout.ticks = s.ticks := by
  rw [EcbTask.heartTimeout]
  split
  · dsimp only
    split <;> exact ⟨rfl, rfl, rfl, rfl, rfl⟩
  · exact ⟨rfl, rfl, rfl, rfl, rfl⟩

theorem ecbTimeoutCb_poll (s : EcbTask) (now : Nat) :
    let t := EcbTask.askBoard { s with resend := s.resend.timeout now } now
    (s.ecbTimeoutCb now).msgGetTimeoutCount = t.msgGetTimeoutCount ∧
      (s.ecbTimeoutCb now).ecbMsgGetCount = t.ecbMsgGetCount ∧
      (s.ecbTimeoutCb now).ecbMsgGetTimeout = t.ecbMsgGetTimeout ∧
      (s.ecbTimeoutCb now).resend = t.resend ∧ (s.ecbTimeoutCb now).ticks = s.ticks + 1 := by
  obtain ⟨hcount, hget, htimeout, hresend, hticks⟩ :=
    heartTimeout_poll (EcbTask.askBoard { s with resend := s.resend.timeout now } now)
  have hticks' := (askBoard_keeps { s with resend := s.resend.timeout now } now).2.1
  refine ⟨hcount, hget, htimeout, hresend, ?_⟩
  show EcbTask.ticks _ + 1 = _
  rw [hticks, hticks']

section Tick

variable {s : EcbTask} (now : Nat)

/-- A tick that finds the counter run out. -/
theorem ecbTimeoutCb_sends (h : Scheduled.limitOf s < s.ecbMsgGetCount + 1) :
    (s.ecbTimeoutCb now).msgGetTimeoutCount =
        (if s.msgGetTimeoutCount ≤ ecbUartDisconnectCount then s.msgGetTimeoutCount + 1
          else s.msgGetTimeoutCount) ∧
      (s.ecbTimeoutCb now).ecbMsgGetCount = 0 ∧
      (s.ecbTimeoutCb now).ecbMsgGetTimeout = Scheduled.limitOf s ∧
      (s.ecbTimeoutCb now).resend.sends = s.resend.sends + 1 := by
  obtain ⟨hcount, hget, htimeout, hresend, -⟩ := ecbTimeoutCb_poll s now
  have hask : EcbTask.askBoard { s with resend := s.resend.timeout now } now = _ :=
    (askBoard_eq _ now).trans (if_pos h)
  rw [hask] at hcount hget htimeout hresend
  refine ⟨hcount, hget, htimeout, ?_⟩
  rw [hresend]
  rfl

theorem ecbTimeoutCb_waits (h : ¬ Scheduled.limitOf s < s.ecbMsgGetCount + 1) :
    (s.ecbTimeoutCb now).msgGetTimeoutCount = s.msgGetTimeoutCount ∧
      (s.ecbTimeoutCb now).ecbMsgGetCount = s.ecbMsgGetCount + 1 ∧
      (s.ecbTimeoutCb now).ecbMsgGetTimeout = Scheduled.limitOf s ∧
      (s.ecbTimeoutCb now).resend.sends = s.resend.sends := by
  obtain ⟨hcount, hget, htimeout, hresend, -⟩ := ecbTimeoutCb_poll s now
  have hask : EcbTask.askBoard { s with resend := s.resend.timeout now } now = _ :=
    (askBoard_eq _ now).trans (if_neg h)
  rw [hask] at hcount hget htimeout hresend
  refine ⟨hcount, hget, htimeout, ?_⟩
  rw [hresend]
  rfl

end Tick

namespace Scheduled

variable {s : EcbTask} {p : Poll}

theorem limitOf_long (h : Scheduled s p) : limitOf s = msgGetLongTime ↔ p.Patient := by
  have hne : msgGetShortTime ≠ msgGetLongTime := by decide
  rw [h.limitOf_eq]
  by_cases hpatient : p.Patient
  · rw [if_pos hpatient]
    exact ⟨fun _ => hpatient, fun _ => rfl⟩
  · rw [if_neg hpatient]
    exact ⟨fun heq => absurd heq hne, fun hp => absurd hp hpatient⟩

theorem limitOf_cases (h : Scheduled s p) :
    limitOf s = msgGetShortTime ∨ limitOf s = msgGetLongTime := by
  rw [h.limitOf_eq]
  split
  · exact Or.inr rfl
  · exact Or.inl rfl

/-- The tick that sends the GET is the one it is due at. -/
theorem sends (h : Scheduled s p) (now : Nat) (hfire : limitOf s < s.ecbMsgGetCount + 1) :
    (s.ecbTimeoutCb now).ticks = p.due ∧ Scheduled (s.ecbTimeoutCb now) p.next := by
  obtain ⟨hcount, hget, htimeout, -⟩ := ecbTimeoutCb_sends now hfire
  have hticks : (s.ecbTimeoutCb now).ticks = p.due := by
    have hle := h.count_le_limitOf
    have hsent := h.ticks
    rw [(ecbTimeoutCb_poll s now).2.2.2.2, Poll.due, ← h.limitOf_eq]
    omega
  refine ⟨hticks, ?_, ?_, ?_, htimeout ▸ h.limitOf_cases, ?_, ?_, ?_, ?_⟩
  · rw [hget, hticks]
    rfl
  · show 1 ≤ (if p.answered = true then 1 else _) ∧ (if p.answered = true then 1 else _) ≤ _
    have hpos : 1 ≤ ecbUartDisconnectCount + 1 := by decide
    split
    · exact ⟨le_refl 1, hpos⟩
    · exact ⟨le_min hpos (Nat.le_add_left 1 _), Nat.min_le_left _ _⟩
  · rw [hcount, h.timeoutCount]
    show _ = if p.answered = true then 1 else _
    have hmax := h.unanswered.2
    cases p.answered with
    | true => rfl
    | false =>
        simp only [Bool.false_eq_true, if_false]
        by_cases hroom : p.unanswered ≤ ecbUartDisconnectCount
        · rw [if_pos hroom, Nat.min_eq_right (Nat.succ_le_succ hroom)]
        · rw [if_neg hroom]
          omega
  · intro _
    rw [htimeout, h.limitOf_long]
    exact decide_eq_true_iff.symm
  · intro hnz
    exact absurd hget hnz
  · intro hnz
    exact absurd hget hnz
  · rw [hget]
    exact Nat.zero_le _

theorem waits (h : Scheduled s p) (now : Nat) (hwait : ¬ limitOf s < s.ecbMsgGetCount + 1) :
    Scheduled (s.ecbTimeoutCb now) p := by
  obtain ⟨hcount, hget, htimeout, -⟩ := ecbTimeoutCb_waits now hwait
  refine ⟨?_, h.unanswered, hcount.trans h.timeoutCount, htimeout ▸ h.limitOf_cases, ?_, ?_, ?_, ?_⟩
  · rw [hget, (ecbTimeoutCb_poll s now).2.2.2.2, ← h.ticks]
    rfl
  · intro hz
    rw [hget] at hz
    cases hz
  · intro _ hl
    exact h.limitOf_long.mp (htimeout.symm.trans hl)
  · intro _ hl hslow
    have hlong := h.limitOf_long.mpr (Or.inr hslow)
    rw [htimeout, hlong] at hl
    cases hl
  · rw [hget, htimeout]
    omega

/-- **A tick** sends the GET when it is due, and no other. -/
theorem tick (h : Scheduled s p) (now : Nat) :
    ∃ p', pollMachine.run p (pollEvents s (.timeout now) (s.ecbTimeoutCb now)) = some p' ∧
      Scheduled (s.ecbTimeoutCb now) p' := by
  by_cases hfire : limitOf s < s.ecbMsgGetCount + 1
  · have hsends := (ecbTimeoutCb_sends now hfire).2.2.2
    obtain ⟨hticks, hnext⟩ := h.sends now hfire
    refine ⟨p.next, ?_, hnext⟩
    rw [pollEvents, if_neg (by omega)]
    exact Machine.run_cons.mpr ⟨p.next, if_pos hticks, rfl⟩
  · have hsends := (ecbTimeoutCb_waits now hfire).2.2.2
    refine ⟨p, ?_, h.waits now hfire⟩
    rw [pollEvents, if_pos hsends]
    rfl

end Scheduled

/-! ## A read -/

/-- A GETACK sets the count back, and no other frame comes near the schedule. -/
theorem foldl_act_poll (acts : List EcbAction) (s : EcbTask) :
    (acts.foldl EcbTask.act s).msgGetTimeoutCount =
        (if .getAck ∈ acts then 0 else s.msgGetTimeoutCount) ∧
      (acts.foldl EcbTask.act s).ecbMsgGetCount = s.ecbMsgGetCount ∧
      (acts.foldl EcbTask.act s).ecbMsgGetTimeout = s.ecbMsgGetTimeout ∧
      (acts.foldl EcbTask.act s).ticks = s.ticks := by
  induction acts generalizing s with
  | nil => exact ⟨rfl, rfl, rfl, rfl⟩
  | cons act acts ih =>
      obtain ⟨hcount, hget, htimeout, hticks⟩ := ih (s.act act)
      rw [List.foldl_cons, hcount, hget, htimeout, hticks]
      cases act <;> simp [EcbTask.act]

theorem foldl_parsed_poll (events : List EcbEvent) (s : EcbTask) :
    (events.foldl EcbTask.parsed s).msgGetTimeoutCount =
        (if ∃ event ∈ events, EcbAction.getAck ∈ event.actions then 0 else s.msgGetTimeoutCount) ∧
      (events.foldl EcbTask.parsed s).ecbMsgGetCount = s.ecbMsgGetCount ∧
      (events.foldl EcbTask.parsed s).ecbMsgGetTimeout = s.ecbMsgGetTimeout ∧
      (events.foldl EcbTask.parsed s).ticks = s.ticks := by
  induction events generalizing s with
  | nil => exact ⟨by simp, rfl, rfl, rfl⟩
  | cons event events ih =>
      obtain ⟨hcount, hget, htimeout, hticks⟩ := ih (s.parsed event)
      obtain ⟨hcount', hget', htimeout', hticks'⟩ := foldl_act_poll event.actions s
      refine ⟨?_, hget.trans hget', htimeout.trans htimeout', hticks.trans hticks'⟩
      have hparsed : (s.parsed event).msgGetTimeoutCount = _ := hcount'
      rw [List.foldl_cons, hcount, hparsed]
      simp only [List.exists_mem_cons_iff]
      by_cases hrest : ∃ event ∈ events, EcbAction.getAck ∈ event.actions
      · rw [if_pos hrest, if_pos (Or.inr hrest)]
      · rw [if_neg hrest]
        by_cases hhere : EcbAction.getAck ∈ event.actions
        · rw [if_pos hhere, if_pos (Or.inl hhere)]
        · rw [if_neg hhere, if_neg (not_or.mpr ⟨hhere, hrest⟩)]

/-- **A read** answers the last GET, if there is a GETACK in it. -/
theorem Scheduled.read {s s' : EcbTask} {p : Poll} (h : Scheduled s p) {chunk : List UInt8}
    (hs : s.ecbRecvCb chunk = some s') :
    ∃ p', pollMachine.run p (pollEvents s (.recv chunk) s') = some p' ∧ Scheduled s' p' := by
  obtain ⟨receiver, -, rfl⟩ := Option.map_eq_some_iff.mp hs
  obtain ⟨events, hevents⟩ : ∃ events,
      receiver.events.drop s.receiver.events.length = events := ⟨_, rfl⟩
  obtain ⟨hcount, hget, htimeout, hticks⟩ :=
    foldl_parsed_poll events { s with receiver := receiver }
  have hreceiver : (events.foldl EcbTask.parsed { s with receiver := receiver }).receiver =
      receiver := receiver_foldl_parsed events _
  rw [hevents]
  have hseen : pollEvents s (.recv chunk)
      (events.foldl EcbTask.parsed { s with receiver := receiver }) =
      if ∃ event ∈ events, EcbAction.getAck ∈ event.actions then [.getAck] else [] := by
    rw [pollEvents, hreceiver, hevents]
  rw [hseen]
  by_cases hack : ∃ event ∈ events, EcbAction.getAck ∈ event.actions
  · rw [if_pos hack] at hcount ⊢
    refine ⟨{ p with answered := true }, rfl, ?_, h.unanswered, hcount, ?_, ?_, ?_, ?_, ?_⟩
    · rw [hget, hticks]
      exact h.ticks
    · rw [htimeout]
      exact h.limit
    · rw [hget, htimeout]
      exact h.first
    · intro _ _
      exact Or.inl rfl
    · rw [hget, htimeout]
      exact h.short
    · rw [hget, htimeout]
      exact h.bound
  · rw [if_neg hack] at hcount ⊢
    refine ⟨p, rfl, ?_, h.unanswered, hcount.trans h.timeoutCount, ?_, ?_, ?_, ?_, ?_⟩
    · rw [hget, hticks]
      exact h.ticks
    · rw [htimeout]
      exact h.limit
    · rw [hget, htimeout]
      exact h.first
    · rw [hget, htimeout]
      exact h.long
    · rw [hget, htimeout]
      exact h.short
    · rw [hget, htimeout]
      exact h.bound

/-! ## Runs -/

theorem scheduled_init (now : Nat) : Scheduled (.init now) .init where
  ticks := rfl
  unanswered := ⟨le_refl 1, by decide⟩
  timeoutCount := rfl
  limit := Or.inl rfl
  first := by
    intro _
    show msgGetShortTime = msgGetLongTime ↔ false = true
    decide
  long := by
    intro h
    exact absurd rfl h
  short := by
    intro h
    exact absurd rfl h
  bound := Nat.zero_le _

theorem scheduled_step (s : EcbTask) (p : Poll) (a : EcbStep) (s' : EcbTask) (h : Scheduled s p)
    (hs : ecbTask.step s a = some s') :
    ∃ p', pollMachine.run p (pollEvents s a s') = some p' ∧ Scheduled s' p' := by
  cases a with
  | timeout now =>
      obtain rfl := Option.some.inj hs
      exact h.tick now
  | recv chunk => exact h.read hs

/-- **The GETs are on schedule.**  In any run, the one of `ecb_uart_init` first, each is
sent when the one before it and its answer say so, none is overdue, and the status is
that of the last one.  The time is the number of calls of `ecb_timeout_cb`. -/
theorem ecb_poll {now : Nat} {steps : List EcbStep} {s : EcbTask}
    (hrun : ecbTask.run (.init now) steps = some s) :
    s.ticks = steps.countP EcbStep.isTimeout ∧
      ∃ p, pollMachine.run .init (ecbTask.trace pollEvents (.init now) steps) = some p ∧
        p.sentAt ≤ s.ticks ∧ s.ticks < p.due ∧ s.msgGetStatus = p.status := by
  obtain ⟨p, hp, hsched⟩ := Machine.trace_simulation scheduled_step (scheduled_init now) hrun
  refine ⟨(run_record hrun).1.trans (Nat.zero_add _), p, hp, ?_, hsched.ticks_lt_due,
    hsched.status⟩
  rw [← hsched.ticks]
  exact Nat.le_add_right _ _

/-- A board that does not answer at first, then does, and then no more. -/
def pollSteps : List EcbStep :=
  List.replicate 40 (.timeout 0) ++
    .recv [0xe6, 0xe6, 0x00, 0x01, 0x0d, 0x00, 0x00, 0x12, 0x34, 0x6e, 0x6e] ::
    List.replicate 460 (.timeout 0)

theorem ecb_poll_steps :
    ∃ s, ecbTask.run (.init 0) pollSteps = some s ∧ s.ticks = 500 ∧
      ∃ p, pollMachine.run .init (ecbTask.trace pollEvents (.init 0) pollSteps) = some p ∧
        p.sentAt ≤ s.ticks ∧ s.ticks < p.due ∧ s.msgGetStatus = p.status := by
  obtain ⟨s, hs⟩ := Option.isSome_iff_exists.mp
    (show (ecbTask.run (.init 0) pollSteps).isSome = true by decide +kernel)
  obtain ⟨hticks, hsched⟩ := ecb_poll hs
  have hcount : pollSteps.countP EcbStep.isTimeout = 500 := by decide +kernel
  exact ⟨s, hs, hticks.trans hcount, hsched⟩

end X50
