/-
# `X50.Resend` — the resend queue of the link

Some frames have to arrive.  `ecb_uart_send` keeps a copy of such a frame in
`ECB_LIST_RESEND`; a timer writes it again, at most `RESEND_CNT` times, and an
ACK or a NAK with its sequence number takes it out (`uart/uart_resend.c`).

The sequence number is the only name a frame has on the link, and it wraps
around after 65536 frames.  The model gives every frame a second one that does
not, its place among all the frames sent (`frame`), to say which writes are
writes of the same frame; no function reads it.

Sends, frames of the board and ticks of the timer are steps.  A step that writes
comes with the time it reads from the clock; nothing is assumed of the clock but
that it does not wrap.

Each step is taken as a whole, and that is assumed: the program does not see to it.
`ecb_uart_send` writes the frame before it puts it into the queue, under a lock that
neither `ecb_resend_list_del_by_id` nor `resend_list_each` takes.  Of threads that
meet inside such a step nothing is said here.
-/
import X50.EcbScan
import X50.Lib.Records

namespace X50

open X50.Lib

/-! ## The queue -/

/-- `RESEND_CNT` -/
def resendCnt : Nat := 2

/-- `RESEND_WAIT_TICK`, in ms -/
def resendWaitTick : Nat := 500

/-- `uart_resend_t`.  `send_len` is the length of `sendData`, and `resend_cb` is
`ecb_uart_resend_cb` in all of them. -/
structure UartResend where
  resendCnt : Nat
  sendData : List UInt8
  resendSeqId : Nat
  waitTick : Nat
  frame : Nat
deriving DecidableEq, Repr

/-- A `write` to the link: of which frame, when, and what. -/
structure UartWrite where
  frame : Nat
  tick : Nat
  data : List UInt8
deriving DecidableEq, Repr

/-- `resend_tick_set` -/
def resendTickSet (currentTick setTick : Nat) : Nat := currentTick + setTick

/-- `resend_tick_compare` -/
def resendTickCompare (currentTick compareTick : Nat) : Bool := decide (compareTick ≤ currentTick)

/-- `resend_list_add`; `list_add` puts the node in front. -/
def resendListAdd (head : List UartResend) (node : UartResend) : List UartResend := node :: head

/-- `resend_list_del_by_id`: the first entry with the sequence number. -/
def resendListDelById (resendSeqId : Nat) (head : List UartResend) : List UartResend :=
  head.eraseP fun ptr => ptr.resendSeqId == resendSeqId

/-- The first half of a turn of `resend_list_each`: the entry, and what its
`resend_cb` writes. -/
def resendTurn (currentTick : Nat) (ptr : UartResend) : UartResend × List UartWrite :=
  if ptr.resendCnt ≠ 0 ∧ resendTickCompare currentTick ptr.waitTick = true then
    ({ ptr with
        waitTick := resendTickSet currentTick resendWaitTick
        resendCnt := ptr.resendCnt - 1 },
      [{ frame := ptr.frame, tick := currentTick, data := ptr.sendData }])
  else (ptr, [])

/-- `resend_list_each`; an entry with nothing left to resend is deleted on the
way. -/
def resendListEach (currentTick : Nat) : List UartResend → List UartResend × List UartWrite
  | [] => ([], [])
  | ptr :: next =>
      let turn := resendTurn currentTick ptr
      let rest := resendListEach currentTick next
      (if turn.1.resendCnt = 0 then rest.1 else turn.1 :: rest.1, turn.2 ++ rest.2)

/-! ## The machine -/

/-- The sending side of the link. -/
structure ResendState where
  /-- `ECB_LIST_RESEND` -/
  list : List UartResend
  ecbSeqId : UInt16
  /-- for the record only: the frames sent so far, and the writes of frames -/
  sends : Nat
  writes : List UartWrite

/-- `send_data[2] * 256 + send_data[3]` -/
def seqIdOf (sendData : List UInt8) : Nat := be16 (byteAt sendData 2) (byteAt sendData 3)

/-- `ecb_uart_send_msg(command, msg, msg_len, resend, -1)`, at `now`: the write and
the entry as one step.  A frame is longer than the four bytes `ecb_uart_send` asks
for. -/
def ResendState.send (command : UInt8) (msg : List UInt8) (resend : Bool) (now : Nat)
    (s : ResendState) : ResendState :=
  let sent := ecbUartSendMsg command msg (-1) s.ecbSeqId
  { list :=
      if resend then
        resendListAdd s.list
          { resendCnt := resendCnt, sendData := sent.1, resendSeqId := seqIdOf sent.1,
            waitTick := resendTickSet now resendWaitTick, frame := s.sends }
      else s.list
    ecbSeqId := sent.2
    sends := s.sends + 1
    writes := s.writes ++ [{ frame := s.sends, tick := now, data := sent.1 }] }

/-- The sequence number an action of the parser takes out of the queue. -/
def EcbAction.deletes : EcbAction → Option Nat
  | .resendListDelById seqId => some seqId.toNat
  | _ => none

/-- A frame of the board has been parsed.  Its answer, an ACK or a NAK with the
sequence number of the board, is not a frame of this side and is not resent.  The
result of a factory test, which `keypress_local_pro` sends from inside, is a send of
its own. -/
def ResendState.recv (event : EcbEvent) (s : ResendState) : ResendState :=
  { s with
    list := (event.actions.filterMap EcbAction.deletes).foldl
      (fun list seqId => resendListDelById seqId list) s.list }

/-- `resend_list_each` in `ecb_timeout_cb`, at `now`. -/
def ResendState.timeout (now : Nat) (s : ResendState) : ResendState :=
  let each := resendListEach now s.list
  { s with list := each.1, writes := s.writes ++ each.2 }

/-- What happens on the link. -/
inductive ResendAct where
  | send (command : UInt8) (msg : List UInt8) (resend : Bool) (now : Nat)
  | recv (event : EcbEvent)
  | timeout (now : Nat)

def resendMachine : Machine ResendState ResendAct where
  step s
    | .send command msg resend now => some (s.send command msg resend now)
    | .recv event => some (s.recv event)
    | .timeout now => some (s.timeout now)

/-- `ecb_uart_init`, with any counter. -/
def ResendState.init (ecbSeqId : UInt16) : ResendState := ⟨[], ecbSeqId, 0, []⟩

/-- The writes of a frame, in order. -/
def ResendState.writesOf (s : ResendState) (frame : Nat) : List UartWrite :=
  s.writes.filter (·.frame == frame)

/-- The event is an ACK or a NAK with that sequence number. -/
def EcbEvent.Answers (event : EcbEvent) (seqId : Nat) : Prop :=
  ∃ m next, event = .dispatch m next ∧ (m.command = 0x0e ∨ m.command = 0x0f) ∧
    m.seqId.toNat = seqId

/-- What the surroundings promise: fewer than 65536 frames are sent while one is
in the queue. -/
def ResendState.Allows (s : ResendState) : ResendAct → Prop
  | .send _ _ _ _ => ∀ ptr ∈ s.list, s.sends < ptr.frame + 65536
  | _ => True

instance (s : ResendState) : DecidablePred s.Allows
  | .send _ _ _ _ => inferInstanceAs (Decidable (∀ ptr ∈ s.list, s.sends < ptr.frame + 65536))
  | .recv _ => .isTrue trivial
  | .timeout _ => .isTrue trivial

/-! ## What the functions do -/

section Turn

variable {currentTick : Nat} {ptr : UartResend}

/-- The entry is written by this tick. -/
def Due (currentTick : Nat) (ptr : UartResend) : Prop :=
  ptr.resendCnt ≠ 0 ∧ ptr.waitTick ≤ currentTick

instance : Decidable (Due currentTick ptr) := inferInstanceAs (Decidable (_ ∧ _))

theorem resendTurn_due (h : Due currentTick ptr) :
    resendTurn currentTick ptr =
      ({ ptr with waitTick := currentTick + resendWaitTick, resendCnt := ptr.resendCnt - 1 },
        [⟨ptr.frame, currentTick, ptr.sendData⟩]) := by
  have hcompare : resendTickCompare currentTick ptr.waitTick = true := decide_eq_true h.2
  simp only [resendTurn, h.1, hcompare, ne_eq, not_false_eq_true, and_self, if_true, resendTickSet]

theorem resendTurn_not_due (h : ¬ Due currentTick ptr) :
    resendTurn currentTick ptr = (ptr, []) := by
  rw [resendTurn, if_neg]
  intro hd
  exact h ⟨hd.1, of_decide_eq_true hd.2⟩

theorem resendTurn_frame : (resendTurn currentTick ptr).1.frame = ptr.frame := by
  by_cases h : Due currentTick ptr
  · rw [resendTurn_due h]
  · rw [resendTurn_not_due h]

/-- A turn writes its own frame only. -/
theorem resendTurn_writes : ∀ w ∈ (resendTurn currentTick ptr).2, w.frame = ptr.frame := by
  intro w hw
  by_cases h : Due currentTick ptr
  · rw [resendTurn_due h] at hw
    rw [List.mem_singleton.mp hw]
  · rw [resendTurn_not_due h] at hw
    cases hw

end Turn

/-- What is left of the queue, entry by entry. -/
theorem mem_resendListEach {currentTick : Nat} {head : List UartResend} {p : UartResend} :
    p ∈ (resendListEach currentTick head).1 ↔
      ∃ ptr ∈ head, (resendTurn currentTick ptr).1 = p ∧ p.resendCnt ≠ 0 := by
  induction head with
  | nil => simp [resendListEach]
  | cons ptr next ih =>
      simp only [resendListEach, List.exists_mem_cons_iff, ← ih]
      split
      · rename_i h0
        constructor
        · exact Or.inr
        · rintro (⟨rfl, hp⟩ | hp)
          · exact absurd h0 hp
          · exact hp
      · rename_i h0
        rw [List.mem_cons]
        constructor
        · rintro (rfl | hp)
          · exact Or.inl ⟨rfl, h0⟩
          · exact Or.inr hp
        · rintro (⟨rfl, -⟩ | hp)
          · exact Or.inl rfl
          · exact Or.inr hp

theorem resendListEach_frames {currentTick : Nat} {head : List UartResend} :
    ((resendListEach currentTick head).1.map (·.frame)).Sublist (head.map (·.frame)) := by
  induction head with
  | nil => exact .slnil
  | cons ptr next ih =>
      simp only [resendListEach, List.map_cons]
      split
      · exact ih.cons _
      · rw [List.map_cons, resendTurn_frame]
        exact ih.cons_cons _

theorem resendListEach_writes {currentTick : Nat} {head : List UartResend} :
    (resendListEach currentTick head).2 = head.flatMap fun ptr => (resendTurn currentTick ptr).2 := by
  induction head with
  | nil => rfl
  | cons ptr next ih => simp only [resendListEach, List.flatMap_cons, ih]

/-- The parser deletes for an ACK and a NAK, and for nothing else. -/
theorem recv_list (event : EcbEvent) (s : ResendState) :
    (∃ seqId, event.Answers seqId ∧ (s.recv event).list = resendListDelById seqId s.list) ∨
      ((∀ seqId, ¬ event.Answers seqId) ∧ (s.recv event).list = s.list) := by
  cases event with
  | nakTailer seqId =>
      refine Or.inr ⟨?_, rfl⟩
      rintro seqId' ⟨m, next, hm, -⟩
      cases hm
  | dispatch m next =>
      by_cases hm : m.command = 0x0e ∨ m.command = 0x0f
      · refine Or.inl ⟨m.seqId.toNat, ⟨m, next, rfl, hm, rfl⟩, ?_⟩
        have hact : (EcbEvent.dispatch m next).actions = [.resendListDelById m.seqId] := by
          rcases hm with hm | hm
          · simp [EcbEvent.actions, hm]
          · simp [EcbEvent.actions, hm]
        simp [ResendState.recv, hact, EcbAction.deletes]
      · refine Or.inr ⟨?_, ?_⟩
        · rintro seqId ⟨m', next', heq, hm', -⟩
          cases heq
          exact hm hm'
        · have hact : (EcbEvent.dispatch m next).actions.filterMap EcbAction.deletes = [] := by
            simp only [EcbEvent.actions, if_neg hm]
            repeat' split
            · rfl
            · rw [List.filterMap_eq_nil_iff]
              intro act hact
              rcases List.mem_cons.mp hact with rfl | hact
              · rfl
              · obtain ⟨value, -, rfl⟩ := List.mem_map.mp hact
                rfl
            · rfl
            · rfl
            · rfl
          rw [ResendState.recv, hact]
          rfl

end X50
