/-
# `X50.ResendWrap` — the resend queue when the clock wraps

On the target `unsigned long` has 32 bits, so the milliseconds of `get_systime_ms`
begin anew every 49.7 days.  `X50.Resend` leaves that out; here the clock and the
deadlines have 32 bits, as the functions compute them.

`resend_tick_compare` compares two numbers that have both wrapped, and that is right
only if they have wrapped equally often.  A frame sent less than `RESEND_WAIT_TICK`
before the wrap is sent again by the very next tick, and a deadline that is reached
before the wrap, but not looked at until after it, is missed until the clock has come
round (`resend_wraps`).  `resend_onTime_iff` says that nothing else goes wrong, and
`resendListEach_widen` that this is the queue of `X50.Resend` as long as no wrap is
near.
-/
import X50.Resend

namespace X50.Arm

open X50.Lib

/-! ## The clock -/

/-- `struct timeval` -/
structure Timeval where
  sec : Nat
  usec : Nat
deriving DecidableEq, Repr

/-- The true time, in ms. -/
def Timeval.ms (tv : Timeval) : Nat := tv.sec * 1000 + tv.usec / 1000

/-- `get_systime_ms` -/
def getSystimeMs (tv : Timeval) : UInt32 :=
  UInt32.ofNat tv.sec * 1000 + UInt32.ofNat (tv.usec / 1000)

/-- `resend_tick_set` -/
def resendTickSet (currentTick setTick : UInt32) : UInt32 := currentTick + setTick

/-- `resend_tick_compare` -/
def resendTickCompare (currentTick compareTick : UInt32) : Bool :=
  decide (compareTick ≤ currentTick)

theorem getSystimeMs_toNat (tv : Timeval) : (getSystimeMs tv).toNat = tv.ms % 2 ^ 32 := by
  rw [getSystimeMs, Timeval.ms, UInt32.toNat_add, UInt32.toNat_mul, UInt32.toNat_ofNat',
    UInt32.toNat_ofNat']
  show (tv.sec % 2 ^ 32 * 1000 % 2 ^ 32 + tv.usec / 1000 % 2 ^ 32) % 2 ^ 32 = _
  omega

theorem resendTickSet_toNat (tv : Timeval) :
    (resendTickSet (getSystimeMs tv) (UInt32.ofNat resendWaitTick)).toNat =
      (tv.ms + resendWaitTick) % 2 ^ 32 := by
  rw [resendTickSet, UInt32.toNat_add, getSystimeMs_toNat]
  exact Nat.mod_add_mod ..

/-- **Two wrapped numbers** that are less than a round apart compare as the numbers
themselves exactly if they have wrapped equally often. -/
theorem wrapped_le_iff {w t : Nat} (hwt : w < t + 2 ^ 32) (htw : t < w + 2 ^ 32) :
    ((w % 2 ^ 32 ≤ t % 2 ^ 32) ↔ w ≤ t) ↔ w / 2 ^ 32 = t / 2 ^ 32 := by
  omega

/-! ## The queue -/

/-- `uart_resend_t`.  `send_len` is the length of `sendData`, and `resend_cb` is
`ecb_uart_resend_cb` in all of them. -/
structure UartResend where
  resendCnt : Nat
  sendData : List UInt8
  resendSeqId : Nat
  waitTick : UInt32
  /-- for the record only: the place among all the frames sent -/
  frame : Nat
deriving DecidableEq, Repr

/-- `resend_list_add` -/
def resendListAdd (head : List UartResend) (node : UartResend) : List UartResend := node :: head

/-- `resend_list_del_by_id` -/
def resendListDelById (resendSeqId : Nat) (head : List UartResend) : List UartResend :=
  head.eraseP fun ptr => ptr.resendSeqId == resendSeqId

/-- The first half of a turn of `resend_list_each`: the entry, and what its
`resend_cb` writes, with the frame it is of. -/
def resendTurn (currentTick : UInt32) (ptr : UartResend) :
    UartResend × List (Nat × List UInt8) :=
  if ptr.resendCnt ≠ 0 ∧ resendTickCompare currentTick ptr.waitTick = true then
    ({ ptr with
        waitTick := resendTickSet currentTick (UInt32.ofNat resendWaitTick)
        resendCnt := ptr.resendCnt - 1 }, [(ptr.frame, ptr.sendData)])
  else (ptr, [])

/-- `resend_list_each`, where `get_systime_ms` returns `currentTick`. -/
def resendListEach (currentTick : UInt32) :
    List UartResend → List UartResend × List (Nat × List UInt8)
  | [] => ([], [])
  | ptr :: next =>
      let turn := resendTurn currentTick ptr
      let rest := resendListEach currentTick next
      (if turn.1.resendCnt = 0 then rest.1 else turn.1 :: rest.1, turn.2 ++ rest.2)

/-! ## The machine -/

/-- The sending side of the link. -/
structure ResendState where
  /-- `ECB_LIST_RESEND` -/
  list : List UartResend
  ecbSeqId : UInt16
  /-- for the record only: the frames sent so far, the writes of frames, each with
  the true time, and the true times of the last step and of the last tick -/
  sends : Nat
  writes : List UartWrite
  now : Nat
  ticked : Nat

/-- `ecb_uart_send_msg(command, msg, msg_len, resend, -1)` at `tv`. -/
def ResendState.send (command : UInt8) (msg : List UInt8) (resend : Bool) (tv : Timeval)
    (s : ResendState) : ResendState :=
  let sent := ecbUartSendMsg command msg (-1) s.ecbSeqId
  { s with
    list :=
      if resend then
        resendListAdd s.list
          { resendCnt := resendCnt, sendData := sent.1, resendSeqId := seqIdOf sent.1,
            waitTick := resendTickSet (getSystimeMs tv) (UInt32.ofNat resendWaitTick),
            frame := s.sends }
      else s.list
    ecbSeqId := sent.2
    sends := s.sends + 1
    writes := s.writes ++ [{ frame := s.sends, tick := tv.ms, data := sent.1 }]
    now := tv.ms }

/-- The answer to a frame. -/
def ResendState.answer (resendSeqId : Nat) (s : ResendState) : ResendState :=
  { s with list := resendListDelById resendSeqId s.list }

/-- `resend_list_each` in `ecb_timeout_cb` at `tv`. -/
def ResendState.timeout (tv : Timeval) (s : ResendState) : ResendState :=
  let each := resendListEach (getSystimeMs tv) s.list
  { s with
    list := each.1
    writes := s.writes ++ each.2.map fun w => { frame := w.1, tick := tv.ms, data := w.2 }
    now := tv.ms
    ticked := tv.ms }

/-- What happens on the link. -/
inductive ResendAct where
  | send (command : UInt8) (msg : List UInt8) (resend : Bool) (tv : Timeval)
  | answer (resendSeqId : Nat)
  | timeout (tv : Timeval)

def resendMachine : Machine ResendState ResendAct where
  step s
    | .send command msg resend tv => some (s.send command msg resend tv)
    | .answer resendSeqId => some (s.answer resendSeqId)
    | .timeout tv => some (s.timeout tv)

/-- `ecb_uart_init`, with any counter and at any time. -/
def ResendState.init (ecbSeqId : UInt16) (tv : Timeval) : ResendState :=
  ⟨[], ecbSeqId, 0, [], tv.ms, tv.ms⟩

/-- The true time of the last write of a frame. -/
def ResendState.lastWrite (s : ResendState) (frame : Nat) : Option Nat :=
  (s.writes.filter (·.frame == frame)).getLast?.map (·.tick)

/-- What the surroundings promise: time does not go back, and a tick comes less than
2³¹ ms after the one before. -/
def ResendState.Allows (s : ResendState) : ResendAct → Prop
  | .send _ _ _ tv => s.now ≤ tv.ms
  | .answer _ => True
  | .timeout tv => s.now ≤ tv.ms ∧ tv.ms < s.ticked + 2 ^ 31

/-- A tick writes the frames whose last write is `RESEND_WAIT_TICK` ago, and no
others. -/
def ResendState.OnTime (s : ResendState) : ResendAct → Prop
  | .timeout tv => ∀ ptr ∈ s.list, ∃ u ∈ s.lastWrite ptr.frame,
      ((∃ w ∈ (resendListEach (getSystimeMs tv) s.list).2, w.1 = ptr.frame) ↔
        u + resendWaitTick ≤ tv.ms)
  | _ => True

/-- At a tick the clock has wrapped as often as at the deadline of each frame. -/
def ResendState.SameRound (s : ResendState) : ResendAct → Prop
  | .timeout tv => ∀ ptr ∈ s.list, ∀ u ∈ s.lastWrite ptr.frame,
      (u + resendWaitTick) / 2 ^ 32 = tv.ms / 2 ^ 32
  | _ => True

/-! ## What the functions do -/

section Turn

variable {currentTick : UInt32} {ptr : UartResend}

/-- The entry is written by this tick. -/
def Due (currentTick : UInt32) (ptr : UartResend) : Prop :=
  ptr.resendCnt ≠ 0 ∧ ptr.waitTick ≤ currentTick

theorem resendTurn_due (h : Due currentTick ptr) :
    resendTurn currentTick ptr =
      ({ ptr with
          waitTick := resendTickSet currentTick (UInt32.ofNat resendWaitTick)
          resendCnt := ptr.resendCnt - 1 }, [(ptr.frame, ptr.sendData)]) := by
  have hcompare : resendTickCompare currentTick ptr.waitTick = true := decide_eq_true h.2
  rw [resendTurn, if_pos ⟨h.1, hcompare⟩]

theorem resendTurn_not_due (h : ¬ Due currentTick ptr) :
    resendTurn currentTick ptr = (ptr, []) := by
  rw [resendTurn, if_neg]
  intro hd
  exact h ⟨hd.1, of_decide_eq_true hd.2⟩

theorem resendTurn_frame : (resendTurn currentTick ptr).1.frame = ptr.frame := by
  by_cases h : Due currentTick ptr
  · rw [resendTurn_due h]
  · rw [resendTurn_not_due h]

/-- A turn writes its own frame only. -/
theorem resendTurn_writes : ∀ w ∈ (resendTurn currentTick ptr).2, w.1 = ptr.frame := by
  intro w hw
  by_cases h : Due currentTick ptr
  · rw [resendTurn_due h] at hw
    rw [List.mem_singleton.mp hw]
  · rw [resendTurn_not_due h] at hw
    cases hw

end Turn

section Each

variable {currentTick : UInt32} {head : List UartResend}

theorem resendListEach_writes :
    (resendListEach currentTick head).2 = head.flatMap fun ptr => (resendTurn currentTick ptr).2 := by
  induction head with
  | nil => rfl
  | cons ptr next ih => simp only [resendListEach, List.flatMap_cons, ih]

/-- What is left of the queue is what the turns leave, in order. -/
theorem resendListEach_list :
    (resendListEach currentTick head).1 =
      (head.map fun ptr => (resendTurn currentTick ptr).1).filter fun ptr => ptr.resendCnt ≠ 0 := by
  induction head with
  | nil => rfl
  | cons ptr next ih =>
      rw [resendListEach, List.map_cons, List.filter_cons, ih]
      by_cases h0 : (resendTurn currentTick ptr).1.resendCnt = 0 <;> simp [h0]

theorem resendListEach_frames :
    ((resendListEach currentTick head).1.map (·.frame)).Sublist (head.map (·.frame)) := by
  have hsub : ((resendListEach currentTick head).1.map (·.frame)).Sublist
      ((head.map fun ptr => (resendTurn currentTick ptr).1).map (·.frame)) := by
    rw [resendListEach_list]
    exact List.filter_sublist.map _
  have hframes : (head.map fun ptr => (resendTurn currentTick ptr).1).map (·.frame) =
      head.map (·.frame) := by
    rw [List.map_map]
    exact List.map_congr_left fun ptr _ => resendTurn_frame
  rwa [hframes] at hsub

/-- The frames a tick writes are those of the entries that are due. -/
theorem written_iff (hframes : (head.map (·.frame)).Nodup) {ptr : UartResend} (hptr : ptr ∈ head) :
    (∃ w ∈ (resendListEach currentTick head).2, w.1 = ptr.frame) ↔ Due currentTick ptr := by
  rw [resendListEach_writes]
  constructor
  · rintro ⟨w, hw, hframe⟩
    obtain ⟨p, hp, hw⟩ := List.mem_flatMap.mp hw
    have hpp : p = ptr :=
      List.inj_on_of_nodup_map hframes hp hptr ((resendTurn_writes w hw).symm.trans hframe)
    subst hpp
    by_contra h
    rw [resendTurn_not_due h] at hw
    cases hw
  · intro h
    refine ⟨(ptr.frame, ptr.sendData), List.mem_flatMap.mpr ⟨ptr, hptr, ?_⟩, rfl⟩
    rw [resendTurn_due h]
    exact List.mem_singleton_self _

end Each

/-! ## Before the wrap -/

/-- The entry of `X50.Resend` with the deadline of this one. -/
def UartResend.widen (ptr : UartResend) : X50.UartResend :=
  { resendCnt := ptr.resendCnt, sendData := ptr.sendData, resendSeqId := ptr.resendSeqId
    waitTick := ptr.waitTick.toNat, frame := ptr.frame }

section Widen

variable {currentTick : UInt32}

theorem resendTurn_widen (h : currentTick.toNat + resendWaitTick < 2 ^ 32) (ptr : UartResend) :
    X50.resendTurn currentTick.toNat ptr.widen =
      ((resendTurn currentTick ptr).1.widen,
        (resendTurn currentTick ptr).2.map fun w => ⟨w.1, currentTick.toNat, w.2⟩) := by
  have hset : (resendTickSet currentTick (UInt32.ofNat resendWaitTick)).toNat =
      currentTick.toNat + resendWaitTick := by
    rw [resendTickSet, UInt32.toNat_add]
    exact Nat.mod_eq_of_lt h
  by_cases hdue : Due currentTick ptr
  · have hdue' : X50.Due currentTick.toNat ptr.widen :=
      ⟨hdue.1, UInt32.le_iff_toNat_le.mp hdue.2⟩
    rw [resendTurn_due hdue, X50.resendTurn_due hdue']
    simp only [UartResend.widen, hset, List.map_cons, List.map_nil]
  · have hdue' : ¬ X50.Due currentTick.toNat ptr.widen := by
      intro hd
      exact hdue ⟨hd.1, UInt32.le_iff_toNat_le.mpr hd.2⟩
    rw [resendTurn_not_due hdue, X50.resendTurn_not_due hdue']
    rfl

/-- **A tick that is not about to wrap** is a tick of the clock that never does. -/
theorem resendListEach_widen (h : currentTick.toNat + resendWaitTick < 2 ^ 32)
    (head : List UartResend) :
    X50.resendListEach currentTick.toNat (head.map UartResend.widen) =
      ((resendListEach currentTick head).1.map UartResend.widen,
        (resendListEach currentTick head).2.map fun w => ⟨w.1, currentTick.toNat, w.2⟩) := by
  induction head with
  | nil => rfl
  | cons ptr next ih =>
      have hcnt : (resendTurn currentTick ptr).1.widen.resendCnt =
          (resendTurn currentTick ptr).1.resendCnt := rfl
      rw [List.map_cons, X50.resendListEach, ih, resendTurn_widen h ptr]
      simp only [resendListEach, hcnt, List.map_append]
      split
      · rfl
      · rfl

end Widen

/-! ## The invariant -/

/-- An entry of the queue: its deadline is that of its last write, and was not reached
by the last tick. -/
structure Pending (s : ResendState) (ptr : UartResend) : Prop where
  cnt : ptr.resendCnt ≠ 0
  frame : ptr.frame < s.sends
  wait : ∃ u, s.lastWrite ptr.frame = some u ∧
    ptr.waitTick.toNat = (u + resendWaitTick) % 2 ^ 32 ∧ u ≤ s.now ∧ s.ticked < u + resendWaitTick

structure ResendInv (s : ResendState) : Prop where
  frames : (s.list.map (·.frame)).Nodup
  pending : ∀ ptr ∈ s.list, Pending s ptr
  clock : s.ticked ≤ s.now

theorem resendInv_init (ecbSeqId : UInt16) (tv : Timeval) : ResendInv (.init ecbSeqId tv) := by
  refine ⟨List.nodup_nil, ?_, Nat.le_refl _⟩
  intro ptr hptr
  cases hptr

section Step

variable {s : ResendState} {command : UInt8} {msg : List UInt8} {resend : Bool} {tv : Timeval}

theorem lastWrite_send_self : (s.send command msg resend tv).lastWrite s.sends = some tv.ms := by
  simp [ResendState.lastWrite, ResendState.send, List.filter_append]

theorem lastWrite_send_ne {n : Nat} (hn : n ≠ s.sends) :
    (s.send command msg resend tv).lastWrite n = s.lastWrite n := by
  have hne : (s.sends == n) = false := beq_eq_false_iff_ne.mpr (Ne.symm hn)
  simp [ResendState.lastWrite, ResendState.send, List.filter_append, hne]

theorem mem_list_send {ptr : UartResend} (hptr : ptr ∈ (s.send command msg resend tv).list) :
    ptr ∈ s.list ∨
      ptr.frame = s.sends ∧ ptr.resendCnt = resendCnt ∧
        ptr.waitTick = resendTickSet (getSystimeMs tv) (UInt32.ofNat resendWaitTick) := by
  cases resend with
  | false => exact Or.inl hptr
  | true =>
      rcases List.mem_cons.mp hptr with rfl | hptr
      · exact Or.inr ⟨rfl, rfl, rfl⟩
      · exact Or.inl hptr

theorem resendInv_send (h : ResendInv s) (hnow : s.now ≤ tv.ms) :
    ResendInv (s.send command msg resend tv) := by
  have hclock := h.clock
  refine ⟨?_, ?_, hclock.trans hnow⟩
  · cases resend with
    | false => exact h.frames
    | true =>
        refine List.nodup_cons.mpr ⟨?_, h.frames⟩
        intro hmem
        obtain ⟨ptr, hptr, heq⟩ := List.mem_map.mp hmem
        exact absurd heq (Nat.ne_of_lt (h.pending ptr hptr).frame)
  · intro ptr hptr
    rcases mem_list_send hptr with hptr | ⟨hframe, hcnt, hwait⟩
    · have hp := h.pending ptr hptr
      obtain ⟨u, hu, hdeadline, hle, hlt⟩ := hp.wait
      refine ⟨hp.cnt, Nat.lt_succ_of_lt hp.frame, u, ?_, hdeadline, hle.trans hnow, hlt⟩
      rw [lastWrite_send_ne (Nat.ne_of_lt hp.frame), hu]
    · refine ⟨?_, ?_, tv.ms, ?_, ?_, Nat.le_refl _, ?_⟩
      · rw [hcnt]
        decide
      · rw [hframe]
        exact Nat.lt_succ_self _
      · rw [hframe]
        exact lastWrite_send_self
      · rw [hwait]
        exact resendTickSet_toNat tv
      · exact Nat.lt_of_le_of_lt (hclock.trans hnow) (Nat.lt_add_of_pos_right (by decide))

theorem resendInv_answer {resendSeqId : Nat} (h : ResendInv s) :
    ResendInv (s.answer resendSeqId) := by
  have hsub : (s.answer resendSeqId).list.Sublist s.list := List.eraseP_sublist
  refine ⟨h.frames.sublist (hsub.map _), ?_, h.clock⟩
  intro ptr hptr
  have hp := h.pending ptr (hsub.subset hptr)
  exact ⟨hp.cnt, hp.frame, hp.wait⟩

/-- The writes of the frame of an entry after a tick. -/
theorem lastWrite_timeout (h : ResendInv s) {ptr : UartResend} (hptr : ptr ∈ s.list) :
    (Due (getSystimeMs tv) ptr → (s.timeout tv).lastWrite ptr.frame = some tv.ms) ∧
      (¬ Due (getSystimeMs tv) ptr → (s.timeout tv).lastWrite ptr.frame = s.lastWrite ptr.frame) := by
  have hwrites : (s.timeout tv).writes.filter (·.frame == ptr.frame) =
      s.writes.filter (·.frame == ptr.frame) ++
        (resendTurn (getSystimeMs tv) ptr).2.map fun w => ⟨w.1, tv.ms, w.2⟩ := by
    simp only [ResendState.timeout, List.filter_append, resendListEach_writes, List.map_flatMap]
    refine congrArg _ (filter_flatMap_key ?_ h.frames hptr)
    intro r w hw
    obtain ⟨w', hw', rfl⟩ := List.mem_map.mp hw
    exact resendTurn_writes w' hw'
  rw [ResendState.lastWrite, ResendState.lastWrite, hwrites]
  constructor
  · intro hdue
    simp [resendTurn_due hdue]
  · intro hdue
    simp [resendTurn_not_due hdue]

/-- **Whether a tick is on time for an entry.** -/
theorem Pending.onTime_iff {ptr : UartResend} (h : Pending s ptr)
    (hallows : s.Allows (.timeout tv)) {u : Nat} (hu : s.lastWrite ptr.frame = some u) :
    (Due (getSystimeMs tv) ptr ↔ u + resendWaitTick ≤ tv.ms) ↔
      (u + resendWaitTick) / 2 ^ 32 = tv.ms / 2 ^ 32 := by
  obtain ⟨u', hu', hdeadline, hle, hlt⟩ := h.wait
  obtain rfl := Option.some.inj (hu.symm.trans hu')
  obtain ⟨hnow, hsoon⟩ := hallows
  have hdue : Due (getSystimeMs tv) ptr ↔ (u + resendWaitTick) % 2 ^ 32 ≤ tv.ms % 2 ^ 32 := by
    rw [← hdeadline, ← getSystimeMs_toNat, ← UInt32.le_iff_toNat_le]
    exact ⟨fun hd => hd.2, fun hd => ⟨h.cnt, hd⟩⟩
  rw [hdue]
  have hwait : resendWaitTick < 2 ^ 32 := by decide
  exact wrapped_le_iff (by omega) (by omega)

theorem onTime_iff (h : ResendInv s) {act : ResendAct} (hallows : s.Allows act) :
    s.OnTime act ↔ s.SameRound act := by
  cases act with
  | send command msg resend tv => exact Iff.rfl
  | answer resendSeqId => exact Iff.rfl
  | timeout tv =>
      constructor
      · intro hon ptr hptr u hu
        obtain ⟨u', hu', hiff⟩ := hon ptr hptr
        obtain rfl := Option.some.inj (hu.symm.trans hu')
        rw [written_iff h.frames hptr] at hiff
        exact ((h.pending ptr hptr).onTime_iff hallows hu).mp hiff
      · intro hround ptr hptr
        obtain ⟨u, hu, -⟩ := (h.pending ptr hptr).wait
        refine ⟨u, hu, ?_⟩
        rw [written_iff h.frames hptr]
        exact ((h.pending ptr hptr).onTime_iff hallows hu).mpr (hround ptr hptr u hu)

/-- A tick that is on time leaves deadlines that are ahead. -/
theorem resendInv_timeout (h : ResendInv s) (hallows : s.Allows (.timeout tv))
    (hon : s.OnTime (.timeout tv)) : ResendInv (s.timeout tv) := by
  refine ⟨h.frames.sublist resendListEach_frames, ?_, Nat.le_refl _⟩
  intro p hp
  have hp' : p ∈ (resendListEach (getSystimeMs tv) s.list).1 := hp
  rw [resendListEach_list] at hp'
  obtain ⟨hmem, hcnt⟩ := List.mem_filter.mp hp'
  obtain ⟨ptr, hptr, rfl⟩ := List.mem_map.mp hmem
  obtain ⟨u, hu, hiff⟩ := hon ptr hptr
  rw [written_iff h.frames hptr] at hiff
  have hpend := h.pending ptr hptr
  have hframe : (resendTurn (getSystimeMs tv) ptr).1.frame = ptr.frame := resendTurn_frame
  refine ⟨of_decide_eq_true hcnt, hframe.trans_lt hpend.frame, ?_⟩
  rw [hframe]
  by_cases hdue : Due (getSystimeMs tv) ptr
  · refine ⟨tv.ms, (lastWrite_timeout h hptr).1 hdue, ?_, Nat.le_refl _, ?_⟩
    · rw [resendTurn_due hdue]
      exact resendTickSet_toNat tv
    · exact Nat.lt_add_of_pos_right (by decide)
  · obtain ⟨u', hu', hdeadline, hle, -⟩ := hpend.wait
    obtain rfl := Option.some.inj (hu.symm.trans hu')
    refine ⟨u, ((lastWrite_timeout h hptr).2 hdue).trans hu, ?_, hle.trans hallows.1, ?_⟩
    · rw [resendTurn_not_due hdue]
      exact hdeadline
    · exact Nat.lt_of_not_le fun hlate => hdue (hiff.mpr hlate)

theorem resendInv_step {s' : ResendState} {act : ResendAct} (hallows : s.Allows act)
    (hon : s.OnTime act) (h : ResendInv s) (hs : resendMachine.step s act = some s') :
    ResendInv s' := by
  cases act with
  | send command msg resend tv =>
      obtain rfl := Option.some.inj hs
      exact resendInv_send h hallows
  | answer resendSeqId =>
      obtain rfl := Option.some.inj hs
      exact resendInv_answer h
  | timeout tv =>
      obtain rfl := Option.some.inj hs
      exact resendInv_timeout h hallows hon

end Step

/-! ## Runs -/

/-- **When the queue keeps time.**  From any time on, in a run whose ticks are less
than 2³¹ ms apart, every tick writes exactly the frames that were last written
`RESEND_WAIT_TICK` ago, if and only if at every tick the clock has wrapped as often
as at the deadlines. -/
theorem resend_onTime_iff (ecbSeqId : UInt16) (tv : Timeval) (acts : List ResendAct)
    (hclock : resendMachine.Meets ResendState.Allows (.init ecbSeqId tv) acts) :
    resendMachine.Meets ResendState.OnTime (.init ecbSeqId tv) acts ↔
      resendMachine.Meets ResendState.SameRound (.init ecbSeqId tv) acts :=
  Machine.meets_congr_of (fun _ _ _ hallows hon h hs => resendInv_step hallows hon h hs)
    (fun _ _ _ hallows h _ => onTime_iff h hallows) hclock (resendInv_init ecbSeqId tv)

instance (s : ResendState) : DecidablePred s.Allows
  | .send _ _ _ tv => inferInstanceAs (Decidable (s.now ≤ tv.ms))
  | .answer _ => .isTrue trivial
  | .timeout tv => inferInstanceAs (Decidable (s.now ≤ tv.ms ∧ tv.ms < s.ticked + 2 ^ 31))

instance (s : ResendState) : DecidablePred s.OnTime
  | .send _ _ _ _ => .isTrue trivial
  | .answer _ => .isTrue trivial
  | .timeout tv => inferInstanceAs (Decidable (∀ ptr ∈ s.list, ∃ u ∈ s.lastWrite ptr.frame,
      ((∃ w ∈ (resendListEach (getSystimeMs tv) s.list).2, w.1 = ptr.frame) ↔
        u + resendWaitTick ≤ tv.ms)))

instance (s : ResendState) : DecidablePred s.SameRound
  | .send _ _ _ _ => .isTrue trivial
  | .answer _ => .isTrue trivial
  | .timeout tv => inferInstanceAs (Decidable (∀ ptr ∈ s.list, ∀ u ∈ s.lastWrite ptr.frame,
      (u + resendWaitTick) / 2 ^ 32 = tv.ms / 2 ^ 32))

/-- Half a second before the wrap, and the tick behind it. -/
theorem resend_onTime_across :
    resendMachine.Meets ResendState.OnTime (.init 0 ⟨4294966, 0⟩)
      [.send 10 [] true ⟨4294966, 800000⟩, .timeout ⟨4294967, 300000⟩,
        .timeout ⟨4294967, 800000⟩] :=
  (resend_onTime_iff 0 _ _ (by decide +kernel)).mpr (by decide +kernel)

/-- **The wrap is felt.**  A frame is sent again after 1 ms, and a frame is not sent
again after 650 ms. -/
theorem resend_wraps :
    (resendMachine.Meets ResendState.Allows (.init 0 ⟨4294966, 0⟩)
        [.send 10 [] true ⟨4294966, 996000⟩, .timeout ⟨4294966, 997000⟩] ∧
      ¬ resendMachine.Meets ResendState.OnTime (.init 0 ⟨4294966, 0⟩)
        [.send 10 [] true ⟨4294966, 996000⟩, .timeout ⟨4294966, 997000⟩]) ∧
    resendMachine.Meets ResendState.Allows (.init 0 ⟨4294966, 0⟩)
        [.send 10 [] true ⟨4294966, 700000⟩, .timeout ⟨4294967, 350000⟩] ∧
      ¬ resendMachine.Meets ResendState.OnTime (.init 0 ⟨4294966, 0⟩)
        [.send 10 [] true ⟨4294966, 700000⟩, .timeout ⟨4294967, 350000⟩] := by
  decide +kernel

end X50.Arm
