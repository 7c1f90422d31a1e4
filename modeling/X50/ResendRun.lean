/-
# `X50.ResendRun` — what a frame can count on

`resend_protocol`: over any run of sends, frames of the board and ticks, a frame
is written at most `1 + RESEND_CNT` times, each time the same, at least
`RESEND_WAIT_TICK` ms apart, and never after its answer; and an entry is taken
out by its own answer, or by the tick that has written it for the last time.

The invariant says of an entry what it still may do (`resendCnt`, `waitTick`) in
terms of what has been done (`writesOf`), and ties its sequence number to the
counter.  Two entries with one sequence number would be 65536 frames apart.
-/
import X50.Resend

namespace X50

open X50.Lib

/-! ## The invariant -/

/-- The writes of a frame. -/
structure Written (s : ResendState) (n : Nat) : Prop where
  bound : (s.writesOf n).length ≤ 1 + resendCnt
  same : ∀ w ∈ s.writesOf n, ∀ w' ∈ s.writesOf n, w.data = w'.data
  apart : (s.writesOf n).Pairwise fun w w' => w.tick + resendWaitTick ≤ w'.tick

/-- An entry of the queue. -/
structure Pending (s : ResendState) (ptr : UartResend) : Prop where
  cnt : ptr.resendCnt ≠ 0
  frame : ptr.frame < s.sends
  recent : s.sends ≤ ptr.frame + 65536
  counter : (ptr.resendSeqId + (s.sends - ptr.frame)) % 65536 = s.ecbSeqId.toNat
  seqId : ptr.resendSeqId = seqIdOf ptr.sendData
  writes : (s.writesOf ptr.frame).length + ptr.resendCnt = 1 + resendCnt
  written : ∀ w ∈ s.writesOf ptr.frame,
    w.data = ptr.sendData ∧ w.tick + resendWaitTick ≤ ptr.waitTick

structure ResendInv (s : ResendState) : Prop where
  frames : (s.list.map (·.frame)).Nodup
  pending : ∀ ptr ∈ s.list, Pending s ptr
  written : ∀ n, Written s n
  past : ∀ w ∈ s.writes, w.frame < s.sends

/-- **A sequence number names one entry.** -/
theorem ResendInv.eq_of_seqId {s : ResendState} (h : ResendInv s) :
    ∀ p ∈ s.list, ∀ q ∈ s.list, p.resendSeqId = q.resendSeqId → p = q := by
  intro p hp q hq heq
  have hP := h.pending p hp
  have hQ := h.pending q hq
  have hframe : p.frame = q.frame := by
    have hp' := hP.counter
    have hq' := hQ.counter
    have := hP.frame
    have := hQ.frame
    have := hP.recent
    have := hQ.recent
    rw [heq] at hp'
    omega
  exact List.inj_on_of_nodup_map h.frames hp hq hframe

theorem resendInv_init (ecbSeqId : UInt16) : ResendInv (.init ecbSeqId) where
  frames := List.nodup_nil
  pending := by
    intro ptr hptr
    cases hptr
  written := by
    intro n
    exact ⟨Nat.zero_le _, by simp [ResendState.writesOf, ResendState.init], List.Pairwise.nil⟩
  past := by
    intro w hw
    cases hw

/-! ## One step -/

/-- A frame the queue does not know and never will: it is written no more. -/
structure Gone (s : ResendState) (n : Nat) : Prop where
  frame : n < s.sends
  absent : ∀ ptr ∈ s.list, ptr.frame ≠ n

section Send

variable {s : ResendState} {command : UInt8} {msg : List UInt8} {resend : Bool} {now : Nat}

theorem writesOf_send {n : Nat} :
    (s.send command msg resend now).writesOf n =
      s.writesOf n ++ if n = s.sends then
        [⟨s.sends, now, ecbFrame command msg s.ecbSeqId.toNat⟩] else [] := by
  simp only [ResendState.writesOf, ResendState.send, ecbUartSendMsg, List.filter_append]
  by_cases hn : n = s.sends
  · subst hn
    simp
  · have hne : (s.sends == n) = false := beq_eq_false_iff_ne.mpr (Ne.symm hn)
    simp [hn, hne]

theorem seqIdOf_ecbFrame {n : Nat} : seqIdOf (ecbFrame command msg n) = n % 65536 :=
  be16_hi8_lo8 n

theorem ResendInv.writesOf_new (h : ResendInv s) : s.writesOf s.sends = [] := by
  refine List.filter_eq_nil_iff.mpr ?_
  intro w hw heq
  have hlt := h.past w hw
  rw [beq_iff_eq.mp heq] at hlt
  exact Nat.lt_irrefl _ hlt

theorem writesOf_send_ne {n : Nat} (hn : n ≠ s.sends) :
    (s.send command msg resend now).writesOf n = s.writesOf n := by
  rw [writesOf_send, if_neg hn, List.append_nil]

theorem ResendInv.writesOf_send_self (h : ResendInv s) :
    (s.send command msg resend now).writesOf s.sends =
      [⟨s.sends, now, ecbFrame command msg s.ecbSeqId.toNat⟩] := by
  rw [writesOf_send, if_pos rfl, h.writesOf_new, List.nil_append]

theorem ecbSeqId_send : (s.send command msg resend now).ecbSeqId.toNat =
    (s.ecbSeqId.toNat + 1) % 65536 := by
  show (s.ecbSeqId + 1).toNat = _
  rw [UInt16.toNat_add]
  rfl

theorem mem_list_send {ptr : UartResend} (hptr : ptr ∈ (s.send command msg resend now).list) :
    ptr ∈ s.list ∨ ptr =
      { resendCnt := resendCnt, sendData := ecbFrame command msg s.ecbSeqId.toNat,
        resendSeqId := seqIdOf (ecbFrame command msg s.ecbSeqId.toNat),
        waitTick := resendTickSet now resendWaitTick, frame := s.sends } := by
  cases resend with
  | false => exact Or.inl hptr
  | true => exact (List.mem_cons.mp hptr).symm

theorem frames_send (h : ResendInv s) :
    ((s.send command msg resend now).list.map (·.frame)).Nodup := by
  cases resend with
  | false => exact h.frames
  | true =>
      refine List.nodup_cons.mpr ⟨?_, h.frames⟩
      intro hmem
      obtain ⟨ptr, hptr, heq⟩ := List.mem_map.mp hmem
      exact absurd heq (Nat.ne_of_lt (h.pending ptr hptr).frame)

/-- A send has nothing to do with the entries there are, but the sequence counter
comes nearer to theirs. -/
theorem Pending.send {ptr : UartResend} (hp : Pending s ptr)
    (hpace : s.sends < ptr.frame + 65536) : Pending (s.send command msg resend now) ptr := by
  have hne : ptr.frame ≠ s.sends := Nat.ne_of_lt hp.frame
  refine ⟨hp.cnt, Nat.lt_succ_of_lt hp.frame, hpace, ?_, hp.seqId, ?_, ?_⟩
  · have hframe := hp.frame
    have hc := hp.counter
    show (ptr.resendSeqId + (s.sends + 1 - ptr.frame)) % 65536 = _
    rw [ecbSeqId_send]
    omega
  · rw [writesOf_send_ne hne]
    exact hp.writes
  · rw [writesOf_send_ne hne]
    exact hp.written

theorem pending_send (h : ResendInv s) (hpace : ∀ ptr ∈ s.list, s.sends < ptr.frame + 65536) :
    ∀ ptr ∈ (s.send command msg resend now).list, Pending (s.send command msg resend now) ptr := by
  intro ptr hptr
  rcases mem_list_send hptr with hptr | rfl
  · exact (h.pending ptr hptr).send (hpace ptr hptr)
  · have hseq := s.ecbSeqId.toNat_lt
    refine ⟨?_, Nat.lt_succ_self _, ?_, ?_, rfl, ?_, ?_⟩
    · show resendCnt ≠ 0
      decide
    · show s.sends + 1 ≤ s.sends + 65536
      omega
    · show (seqIdOf (ecbFrame command msg s.ecbSeqId.toNat) + (s.sends + 1 - s.sends)) % 65536 = _
      rw [ecbSeqId_send, seqIdOf_ecbFrame]
      omega
    · rw [h.writesOf_send_self]
      rfl
    · rw [h.writesOf_send_self]
      intro w hw
      rw [List.mem_singleton.mp hw]
      exact ⟨rfl, Nat.le_refl _⟩

theorem written_send (h : ResendInv s) (n : Nat) :
    Written (s.send command msg resend now) n := by
  by_cases hn : n = s.sends
  · subst hn
    refine ⟨?_, ?_, ?_⟩
    · rw [h.writesOf_send_self]
      show 1 ≤ 1 + resendCnt
      decide
    · rw [h.writesOf_send_self]
      intro w hw w' hw'
      rw [List.mem_singleton.mp hw, List.mem_singleton.mp hw']
    · rw [h.writesOf_send_self]
      exact List.pairwise_singleton _ _
  · have hw := h.written n
    refine ⟨?_, ?_, ?_⟩
    · rw [writesOf_send_ne hn]
      exact hw.bound
    · rw [writesOf_send_ne hn]
      exact hw.same
    · rw [writesOf_send_ne hn]
      exact hw.apart

theorem resendInv_send (h : ResendInv s)
    (hpace : ∀ ptr ∈ s.list, s.sends < ptr.frame + 65536) :
    ResendInv (s.send command msg resend now) where
  frames := frames_send h
  pending := pending_send h hpace
  written := written_send h
  past := by
    intro w hw
    rcases List.mem_append.mp hw with hw | hw
    · exact Nat.lt_succ_of_lt (h.past w hw)
    · rw [List.mem_singleton.mp hw]
      exact Nat.lt_succ_self _

end Send

section Recv

variable {s : ResendState} {event : EcbEvent}

theorem recv_sublist : (s.recv event).list.Sublist s.list := by
  rcases recv_list event s with ⟨seqId, -, hl⟩ | ⟨-, hl⟩
  · rw [hl]
    exact List.eraseP_sublist
  · rw [hl]

theorem resendInv_recv (h : ResendInv s) : ResendInv (s.recv event) := by
  refine ⟨h.frames.sublist (recv_sublist.map _), ?_, ?_, h.past⟩
  · intro ptr hptr
    have hp := h.pending ptr (recv_sublist.subset hptr)
    exact ⟨hp.cnt, hp.frame, hp.recent, hp.counter, hp.seqId, hp.writes, hp.written⟩
  · intro n
    have hw := h.written n
    exact ⟨hw.bound, hw.same, hw.apart⟩

/-- **An answer takes out its own entry, and no other.** -/
theorem mem_recv (h : ResendInv s) {ptr : UartResend} :
    ptr ∈ (s.recv event).list ↔ ptr ∈ s.list ∧ ¬ event.Answers ptr.resendSeqId := by
  rcases recv_list event s with ⟨seqId, hans, hl⟩ | ⟨hans, hl⟩
  · have honly : ∀ k, event.Answers k → k = seqId := by
      rintro k ⟨m, next, rfl, -, rfl⟩
      obtain ⟨m', next', heq, -, rfl⟩ := hans
      cases heq
      rfl
    have hnodup : s.list.Nodup := List.Nodup.of_map _ h.frames
    rw [hl, resendListDelById]
    constructor
    · intro hmem
      have hin := List.mem_of_mem_eraseP hmem
      refine ⟨hin, ?_⟩
      intro hans'
      have hk := honly _ hans'
      obtain ⟨q, l₁, l₂, -, hq, hlist, herase⟩ :=
        List.exists_of_eraseP (p := fun ptr => ptr.resendSeqId == seqId) hin (beq_iff_eq.mpr hk)
      have hqs : q ∈ s.list := by rw [hlist]; simp
      have hpq : ptr = q :=
        h.eq_of_seqId ptr hin q hqs (hk.trans (beq_iff_eq.mp hq).symm)
      rw [herase] at hmem
      rw [hlist] at hnodup
      subst hpq
      exact (List.nodup_middle.mp hnodup).notMem hmem
    · rintro ⟨hin, hno⟩
      refine (List.mem_eraseP_of_neg ?_).mpr hin
      intro heq
      have hk : ptr.resendSeqId = seqId := by simpa using heq
      exact hno (hk ▸ hans)
  · rw [hl]
    exact ⟨fun hmem => ⟨hmem, hans _⟩, fun hmem => hmem.1⟩

end Recv

section Timeout

variable {s : ResendState} {now : Nat}

theorem writesOf_timeout (now : Nat) (h : ResendInv s) {ptr : UartResend} (hptr : ptr ∈ s.list) :
    (s.timeout now).writesOf ptr.frame = s.writesOf ptr.frame ++ (resendTurn now ptr).2 := by
  simp only [ResendState.writesOf, ResendState.timeout, List.filter_append]
  rw [resendListEach_writes]
  exact congrArg _ (filter_flatMap_key (fun _ => resendTurn_writes) h.frames hptr)

theorem writesOf_timeout_absent {n : Nat} (h : ∀ ptr ∈ s.list, ptr.frame ≠ n) :
    (s.timeout now).writesOf n = s.writesOf n := by
  simp only [ResendState.writesOf, ResendState.timeout, List.filter_append]
  rw [resendListEach_writes, filter_flatMap_key_nil (fun _ => resendTurn_writes) h,
    List.append_nil]

/-- What a tick leaves of an entry. -/
theorem pending_timeout (h : ResendInv s) {ptr : UartResend} (hptr : ptr ∈ s.list)
    (hcnt : (resendTurn now ptr).1.resendCnt ≠ 0) :
    Pending (s.timeout now) (resendTurn now ptr).1 := by
  have hp := h.pending ptr hptr
  have hw := writesOf_timeout now h hptr
  by_cases hdue : Due now ptr
  · rw [resendTurn_due hdue] at hcnt hw ⊢
    refine ⟨hcnt, hp.frame, hp.recent, hp.counter, hp.seqId, ?_, ?_⟩
    · have hwrites := hp.writes
      have hpos := hdue.1
      show ((s.timeout now).writesOf ptr.frame).length + (ptr.resendCnt - 1) = _
      rw [hw, List.length_append, List.length_singleton]
      omega
    · intro w hmem
      rw [hw] at hmem
      rcases List.mem_append.mp hmem with hmem | hmem
      · obtain ⟨hdata, htick⟩ := hp.written w hmem
        refine ⟨hdata, ?_⟩
        calc w.tick + resendWaitTick ≤ ptr.waitTick := htick
          _ ≤ now := hdue.2
          _ ≤ now + resendWaitTick := Nat.le_add_right _ _
      · rw [List.mem_singleton.mp hmem]
        exact ⟨rfl, Nat.le_refl _⟩
  · rw [resendTurn_not_due hdue] at hcnt hw ⊢
    rw [List.append_nil] at hw
    exact ⟨hcnt, hp.frame, hp.recent, hp.counter, hp.seqId, hw ▸ hp.writes, hw ▸ hp.written⟩

/-- A tick may add one write to those of an entry. -/
theorem written_timeout (h : ResendInv s) {ptr : UartResend} (hptr : ptr ∈ s.list) :
    Written (s.timeout now) ptr.frame := by
  have hp := h.pending ptr hptr
  have hold := h.written ptr.frame
  have hw := writesOf_timeout now h hptr
  by_cases hdue : Due now ptr
  · rw [resendTurn_due hdue] at hw
    refine ⟨?_, ?_, ?_⟩
    · have hwrites := hp.writes
      have hpos := hdue.1
      rw [hw, List.length_append, List.length_singleton]
      omega
    · have hdata : ∀ w ∈ (s.timeout now).writesOf ptr.frame, w.data = ptr.sendData := by
        intro w hmem
        rw [hw] at hmem
        rcases List.mem_append.mp hmem with hmem | hmem
        · exact (hp.written w hmem).1
        · rw [List.mem_singleton.mp hmem]
      intro w hmem w' hmem'
      rw [hdata w hmem, hdata w' hmem']
    · rw [hw]
      refine List.pairwise_append.mpr ⟨hold.apart, List.pairwise_singleton _ _, ?_⟩
      intro w hmem w' hmem'
      rw [List.mem_singleton.mp hmem']
      exact ((hp.written w hmem).2).trans hdue.2
  · rw [resendTurn_not_due hdue, List.append_nil] at hw
    exact ⟨hw ▸ hold.bound, hw ▸ hold.same, hw ▸ hold.apart⟩

theorem resendInv_timeout (h : ResendInv s) : ResendInv (s.timeout now) := by
  refine ⟨h.frames.sublist resendListEach_frames, ?_, ?_, ?_⟩
  · intro p hp
    obtain ⟨ptr, hptr, rfl, hcnt⟩ := mem_resendListEach.mp hp
    exact pending_timeout h hptr hcnt
  · intro n
    by_cases hn : ∃ ptr ∈ s.list, ptr.frame = n
    · obtain ⟨ptr, hptr, rfl⟩ := hn
      exact written_timeout h hptr
    · have hw : (s.timeout now).writesOf n = s.writesOf n :=
        writesOf_timeout_absent fun ptr hptr heq => hn ⟨ptr, hptr, heq⟩
      have hold := h.written n
      exact ⟨hw ▸ hold.bound, hw ▸ hold.same, hw ▸ hold.apart⟩
  · intro w hw
    rcases List.mem_append.mp hw with hw | hw
    · exact h.past w hw
    · rw [resendListEach_writes] at hw
      obtain ⟨ptr, hptr, hw⟩ := List.mem_flatMap.mp hw
      rw [resendTurn_writes w hw]
      exact (h.pending ptr hptr).frame

end Timeout

/-! ## Runs -/

theorem resendInv_step {s s' : ResendState} {act : ResendAct} (hallows : s.Allows act)
    (h : ResendInv s) (hs : resendMachine.step s act = some s') : ResendInv s' := by
  cases act with
  | send command msg resend now =>
      obtain rfl := Option.some.inj hs
      exact resendInv_send h hallows
  | recv event =>
      obtain rfl := Option.some.inj hs
      exact resendInv_recv h
  | timeout now =>
      obtain rfl := Option.some.inj hs
      exact resendInv_timeout h

/-- A frame that is gone stays gone. -/
theorem gone_step {s s' : ResendState} {act : ResendAct} {n : Nat} (h : Gone s n)
    (hs : resendMachine.step s act = some s') : Gone s' n ∧ s'.writesOf n = s.writesOf n := by
  cases act with
  | send command msg resend now =>
      obtain rfl := Option.some.inj hs
      refine ⟨⟨Nat.lt_succ_of_lt h.frame, ?_⟩, writesOf_send_ne (Nat.ne_of_lt h.frame)⟩
      intro ptr hptr
      rcases mem_list_send hptr with hptr | rfl
      · exact h.absent ptr hptr
      · exact Nat.ne_of_gt h.frame
  | recv event =>
      obtain rfl := Option.some.inj hs
      exact ⟨⟨h.frame, fun ptr hptr => h.absent ptr (recv_sublist.subset hptr)⟩, rfl⟩
  | timeout now =>
      obtain rfl := Option.some.inj hs
      refine ⟨⟨h.frame, ?_⟩, writesOf_timeout_absent h.absent⟩
      intro p hp
      obtain ⟨ptr, hptr, rfl, -⟩ := mem_resendListEach.mp hp
      rw [resendTurn_frame]
      exact h.absent ptr hptr

theorem gone_run {s s' : ResendState} {acts : List ResendAct} {n : Nat} (h : Gone s n)
    (hrun : resendMachine.run s acts = some s') : s'.writesOf n = s.writesOf n := by
  have hinv := Machine.run_invariant (M := resendMachine) (V := fun _ => True)
    (P := fun t => Gone t n ∧ t.writesOf n = s.writesOf n) ?_ (fun _ _ => trivial) ⟨h, rfl⟩ hrun
  · exact hinv.2
  · rintro t act t' - ⟨hg, hw⟩ ht
    obtain ⟨hg', hw'⟩ := gone_step hg ht
    exact ⟨hg', hw'.trans hw⟩

/-- An answered frame is gone. -/
theorem gone_recv {s : ResendState} {event : EcbEvent} {n : Nat} (h : ResendInv s)
    {w : UartWrite} (hw : w ∈ s.writesOf n) (hans : event.Answers (seqIdOf w.data)) :
    Gone (s.recv event) n := by
  obtain ⟨hmem, hframe⟩ := List.mem_filter.mp hw
  refine ⟨?_, ?_⟩
  · rw [← beq_iff_eq.mp hframe]
    exact h.past w hmem
  · intro ptr hptr heq
    obtain ⟨hin, hno⟩ := (mem_recv h).mp hptr
    have hp := h.pending ptr hin
    subst heq
    rw [(hp.written w hw).1, ← hp.seqId] at hans
    exact hno hans

/-- An entry leaves the queue in one of two ways. -/
theorem leaves_step {s s' : ResendState} {act : ResendAct} {ptr : UartResend} (h : ResendInv s)
    (hs : resendMachine.step s act = some s') (hptr : ptr ∈ s.list)
    (hleft : ∀ p ∈ s'.list, p.frame ≠ ptr.frame) :
    (∃ event, act = .recv event ∧ event.Answers ptr.resendSeqId) ∨
      (∃ now, act = .timeout now ∧ (s'.writesOf ptr.frame).length = 1 + resendCnt) := by
  cases act with
  | send command msg resend now =>
      obtain rfl := Option.some.inj hs
      refine absurd rfl (hleft ptr ?_)
      cases resend with
      | false => exact hptr
      | true => exact List.mem_cons_of_mem _ hptr
  | recv event =>
      obtain rfl := Option.some.inj hs
      refine Or.inl ⟨event, rfl, ?_⟩
      by_contra hno
      exact hleft ptr ((mem_recv h).mpr ⟨hptr, hno⟩) rfl
  | timeout now =>
      obtain rfl := Option.some.inj hs
      refine Or.inr ⟨now, rfl, ?_⟩
      have hzero : (resendTurn now ptr).1.resendCnt = 0 := by
        by_contra hcnt
        exact hleft _ (mem_resendListEach.mpr ⟨ptr, hptr, rfl, hcnt⟩) resendTurn_frame
      have hp := h.pending ptr hptr
      by_cases hdue : Due now ptr
      · have hwrites := hp.writes
        have hpos := hdue.1
        rw [writesOf_timeout _ h hptr, resendTurn_due hdue, List.length_append,
          List.length_singleton]
        rw [resendTurn_due hdue] at hzero
        have hone : ptr.resendCnt - 1 = 0 := hzero
        omega
      · rw [resendTurn_not_due hdue] at hzero
        exact absurd hzero hp.cnt

/-- **The resend queue.**  After any run: every frame has been written at most
`1 + RESEND_CNT` times, with the same bytes, `RESEND_WAIT_TICK` ms apart; a frame
answered on the way was written no more; an answer takes out only the entry it
names; and an entry leaves by its answer or with its last write. -/
theorem resend_protocol (ecbSeqId : UInt16) (acts : List ResendAct) (s : ResendState)
    (hallows : resendMachine.Meets ResendState.Allows (.init ecbSeqId) acts)
    (hrun : resendMachine.run (.init ecbSeqId) acts = some s) :
    (∀ frame, Written s frame) ∧
    (∀ frame pre event post mid, acts = pre ++ .recv event :: post →
      resendMachine.run (.init ecbSeqId) pre = some mid →
      (∃ w ∈ mid.writesOf frame, event.Answers (seqIdOf w.data)) →
        s.writesOf frame = mid.writesOf frame) ∧
    (∀ event, ∀ ptr ∈ s.list, ¬ event.Answers (seqIdOf ptr.sendData) →
      ptr ∈ (s.recv event).list) ∧
    ∀ act s', resendMachine.step s act = some s' → ∀ ptr ∈ s.list,
      (∀ p ∈ s'.list, p.frame ≠ ptr.frame) →
        (∃ event, act = .recv event ∧ event.Answers (seqIdOf ptr.sendData)) ∨
        (∃ now, act = .timeout now ∧ (s'.writesOf ptr.frame).length = 1 + resendCnt) := by
  have halong : resendMachine.Along ResendInv (.init ecbSeqId) acts :=
    Machine.along_of_meets (fun _ _ _ hC hP => resendInv_step hC hP) hallows (resendInv_init _)
  have hinv := halong.last hrun
  refine ⟨hinv.written, ?_, ?_, ?_⟩
  · rintro frame pre event post mid rfl hpre ⟨w, hw, hans⟩
    have hmid : ResendInv mid := Machine.along_iff.mp halong pre (List.prefix_append _ _) mid hpre
    obtain ⟨t, ht, hpost⟩ := Machine.run_append.mp hrun
    obtain rfl := Option.some.inj (hpre.symm.trans ht)
    obtain ⟨u, hu, hpost⟩ := Machine.run_cons.mp hpost
    obtain rfl := Option.some.inj hu
    have hgone := gone_run (gone_recv hmid hw hans) hpost
    exact hgone
  · intro event ptr hptr hno
    rw [← (hinv.pending ptr hptr).seqId] at hno
    exact (mem_recv hinv).mpr ⟨hptr, hno⟩
  · intro act s' hs ptr hptr hleft
    rw [← (hinv.pending ptr hptr).seqId]
    exact leaves_step hinv hs hptr hleft

/-- A frame with the number 7, written again after 500 ms, then acknowledged. -/
def ackedFrame : List ResendAct :=
  [.send 0x02 [5, 1] true 0, .timeout 499, .timeout 500, .recv (.dispatch ⟨0x0e, 7, []⟩ []),
    .timeout 1000]

theorem resend_protocol_acked :
    ∃ s, resendMachine.run (.init 7) ackedFrame = some s ∧ (∀ frame, Written s frame) ∧
      (s.writesOf 0).length = 2 := by
  have hcount : (resendMachine.run (.init 7) ackedFrame).map (fun s => (s.writesOf 0).length) =
      some 2 := by decide +kernel
  obtain ⟨s, hrun, hlength⟩ := Option.map_eq_some_iff.mp hcount
  have hallows : resendMachine.Meets ResendState.Allows (.init 7) ackedFrame := by decide +kernel
  exact ⟨s, hrun, (resend_protocol 7 ackedFrame s hallows hrun).1, hlength⟩

end X50
