/-
# `X50.EcbLink` — the link, frame by frame and read by read

Three results about the receiver, each from one fact about the scanner:

    a full frame is accepted, also behind noise      decoding undoes encoding
    a part of a frame is waited for, or rejected     how the reads may cut it
    a full buffer may be waited for                  when the receiver wedges

The last two are two sides of the parser's guesses.  A part of a frame that ends
in `6e 6e` is taken for a frame with a wrong length and given up; a length field
of up to 512 is believed, although a frame that long does not fit the buffer.
-/
import X50.EcbScan

namespace X50

open X50.Lib

/-! ## Frames -/

namespace EcbMsg

/-- What precedes the payload. -/
def head (m : EcbMsg) : List UInt8 :=
  [0xe6, 0xe6, hi8 m.seqId.toNat, lo8 m.seqId.toNat, m.command, hi8 m.payload.length,
    lo8 m.payload.length]

/-- What follows it. -/
def crc (m : EcbMsg) : List UInt8 :=
  let crc16 := (crc16Maxim ([hi8 m.seqId.toNat, lo8 m.seqId.toNat, m.command,
    hi8 m.payload.length, lo8 m.payload.length] ++ m.payload)).toNat
  [hi8 crc16, lo8 crc16]

theorem frame_eq (m : EcbMsg) : m.frame = m.head ++ (m.payload ++ (m.crc ++ [0x6e, 0x6e])) := by
  simp [frame, ecbFrame, head, crc]

theorem length_frame (m : EcbMsg) : m.frame.length = 11 + m.payload.length := by
  rw [frame_eq]
  simp only [List.length_append, head, crc, List.length_cons, List.length_nil]
  omega

theorem frame_header (m : EcbMsg) : ∃ rest, m.frame = 0xe6 :: 0xe6 :: rest :=
  ⟨_, rfl⟩

section

variable {m : EcbMsg} {l : List UInt8}

/-- The length field of a frame. -/
theorem dataLenAt_frame (hm : m.payload.length ≤ 512) (h : m.frame.take 7 <+: l) :
    dataLenAt l 0 = m.payload.length := by
  have hlen : (m.frame.take 7).length = 7 := by
    rw [List.length_take, length_frame]
    omega
  have h5 : byteAt l 5 = hi8 m.payload.length := byteAt_prefix h (by omega)
  have h6 : byteAt l 6 = lo8 m.payload.length := byteAt_prefix h (by omega)
  rw [dataLenAt, Nat.zero_add, Nat.zero_add, h5, h6, be16_hi8_lo8]
  omega

end

end EcbMsg

/-- Behind quiet noise everything stands where the noise ends. -/
theorem dataLenAt_append (noise l : List UInt8) :
    dataLenAt (noise ++ l) noise.length = dataLenAt l 0 := by
  simp only [dataLenAt, byteAt_append_right, Nat.zero_add]

theorem msgAt_append (noise l : List UInt8) :
    msgAt (noise ++ l) noise.length = msgAt l 0 := by
  have hdrop : (noise ++ l).drop (noise.length + 7) = l.drop 7 := by
    rw [List.drop_append, List.drop_of_length_le (by omega), List.nil_append,
      Nat.add_sub_cancel_left]
  simp only [msgAt, byteAt_append_right, dataLenAt_append, hdrop, Nat.zero_add]

theorem tailAt_append (noise l : List UInt8) : TailAt (noise ++ l) noise.length ↔ TailAt l 0 := by
  simp only [TailAt, dataLenAt_append, Nat.add_assoc, byteAt_append_right, Nat.zero_add]

section

variable {m : EcbMsg}

theorem frame_take_initial (m : EcbMsg) (rest : List UInt8) : m.frame.take 7 <+: m.frame ++ rest :=
  (List.take_prefix 7 m.frame).trans (List.prefix_append _ _)

theorem tailAt_frame (hm : m.payload.length ≤ 512) (rest : List UInt8) :
    TailAt (m.frame ++ rest) 0 := by
  have hlen : (m.head ++ (m.payload ++ m.crc)).length = 7 + m.payload.length + 2 := by
    simp only [List.length_append, EcbMsg.head, EcbMsg.crc, List.length_cons, List.length_nil]
    omega
  have hsplit : m.frame ++ rest =
      (m.head ++ (m.payload ++ m.crc)) ++ (0x6e :: 0x6e :: rest) := by
    rw [EcbMsg.frame_eq]
    simp
  rw [TailAt, EcbMsg.dataLenAt_frame hm (frame_take_initial m rest), hsplit]
  constructor
  · rw [Nat.zero_add, ← hlen]
    exact byteAt_append_right _ _ 0
  · rw [Nat.zero_add, ← hlen]
    exact byteAt_append_right _ _ 1

theorem msgAt_frame (hm : m.payload.length ≤ 512) (rest : List UInt8) :
    msgAt (m.frame ++ rest) 0 = m := by
  have hpayload : (m.frame ++ rest).drop (0 + 7) =
      m.payload ++ (m.crc ++ ([0x6e, 0x6e] ++ rest)) := by
    rw [EcbMsg.frame_eq]
    simp [EcbMsg.head]
  have hseq : UInt16.ofNat (be16 (hi8 m.seqId.toNat) (lo8 m.seqId.toNat)) = m.seqId := by
    have hlt := m.seqId.toNat_lt
    rw [be16_hi8_lo8, Nat.mod_eq_of_lt hlt, UInt16.ofNat_toNat]
  rw [msgAt, hpayload, EcbMsg.dataLenAt_frame hm (frame_take_initial m rest), List.take_left]
  show EcbMsg.mk m.command (UInt16.ofNat (be16 (hi8 _) (lo8 _))) m.payload = m
  rw [hseq]

/-- **A frame is accepted**, with any bytes behind it and quiet ones before it. -/
theorem ecbScan_frame (hm : m.payload.length ≤ 512) {noise : List UInt8} (hnoise : Quiet noise)
    (rest : List UInt8) :
    ecbScan (noise ++ (m.frame ++ rest)) = .accept (noise.length + m.frame.length) m := by
  obtain ⟨tail, htail⟩ := m.frame_header
  have hheader : findHeader (noise ++ (m.frame ++ rest)) = some noise.length := by
    rw [htail]
    exact findHeader_quiet hnoise _
  have hdata : dataLenAt (noise ++ (m.frame ++ rest)) noise.length = m.payload.length := by
    rw [dataLenAt_append, EcbMsg.dataLenAt_frame hm (frame_take_initial m rest)]
  have hscan := (ecbScan_complete hheader (by rw [hdata]; exact hm) (by
    rw [hdata, List.length_append, List.length_append, m.length_frame]
    omega)).1 ((tailAt_append _ _).mpr (tailAt_frame hm rest))
  rw [hscan, hdata, msgAt_append, msgAt_frame hm, m.length_frame, ← Nat.add_assoc]

/-- **A part of a frame** is waited for, unless it ends like a frame. -/
theorem ecbScan_part (hm : m.payload.length ≤ 512) {part : List UInt8} (hpart : part <+: m.frame)
    (hlt : part.length < m.frame.length) :
    ecbScan part =
      if ecbMsgMinLen ≤ part.length ∧ EndsInTail part then .reject 1 else .wait 0 := by
  by_cases hmin : 11 ≤ part.length
  · have hhead : m.frame.take 7 <+: part :=
      List.prefix_of_prefix_length_le (List.take_prefix 7 _) hpart (by
        rw [List.length_take]
        omega)
    have hheader : findHeader part = some 0 := by
      obtain ⟨rest, hrest⟩ := hhead
      obtain ⟨tail, htail⟩ := m.frame_header
      rw [← hrest, htail]
      rfl
    have hdata := EcbMsg.dataLenAt_frame hm hhead
    rw [m.length_frame] at hlt
    rw [ecbScan_incomplete hheader (by omega) (by omega) (by omega)]
    simp only [show ecbMsgMinLen ≤ part.length from hmin, true_and]
  · rw [if_neg fun h => hmin h.1]
    by_cases hshort : part.length < 2
    · exact ecbScan_short hshort
    · have hheader : findHeader part = some 0 := by
        obtain ⟨tail, htail⟩ := m.frame_header
        rw [htail] at hpart
        obtain ⟨rest, hrest⟩ := hpart
        cases part with
        | nil => simp at hshort
        | cons a part =>
            cases part with
            | nil => simp at hshort
            | cons b part =>
                simp only [List.cons_append, List.cons.injEq] at hrest
                obtain ⟨rfl, rfl, -⟩ := hrest
                rfl
      exact ecbScan_small (by omega) hheader (by omega)

end

/-! ## Decoding undoes encoding -/

/-- **Noise.**  Of frames with noise before, between and behind them, one call
of `uart_parse_msg` dispatches every message once and in order, and leaves at
most one byte of the last noise. -/
theorem uartParseMsg_noisy {noise : List UInt8} {ms : List (EcbMsg × List UInt8)}
    (hnoise : Quiet noise) (hms : ∀ p ∈ ms, p.1.payload.length ≤ 512 ∧ Quiet p.2)
    (end₀ : Int) :
    ∃ events left,
      uartParseMsg ecbUartParseMsg (Scanner.noisy EcbMsg.frame noise ms) end₀ =
        some (events, left) ∧
      events.filterMap EcbEvent.msg = ms.map Prod.fst ∧
      left.length ≤ 1 ∧ left <:+ Scanner.lastNoise noise ms := by
  have hacc : ∀ (noise : List UInt8) (m : EcbMsg) (rest : List UInt8), Quiet noise →
      m.payload.length ≤ 512 → ecbScanner.scan (noise ++ (m.frame ++ rest)) =
        .accept (noise.length + m.frame.length) m :=
    fun _ _ rest hq hm => ecbScan_frame hm hq rest
  have hdrain := Scanner.drain_noisy hacc hnoise hms
  have hlast : Quiet (Scanner.lastNoise noise ms) :=
    Scanner.lastNoise_quiet hnoise fun p hp => (hms p hp).2
  have hquiet : (ecbScanner.drain (Scanner.lastNoise noise ms)).1 = [] ∧
      (ecbScanner.drain (Scanner.lastNoise noise ms)).2.length ≤ 1 := by
    by_cases hshort : (Scanner.lastNoise noise ms).length < 2
    · rw [Scanner.drain_wait (show ecbScanner.scan _ = _ from ecbScan_short hshort)]
      exact ⟨rfl, Nat.le_of_lt_succ hshort⟩
    · rw [Scanner.drain_flush (show ecbScanner.scan _ = _ from
        ecbScan_noHeader (by omega) (findHeader_none_of_quiet hlast))]
      exact ⟨rfl, Nat.zero_le _⟩
  obtain ⟨events, hparse, hmsgs⟩ := uartParseMsg_ecb (Scanner.noisy EcbMsg.frame noise ms) end₀
  rw [hdrain] at hparse hmsgs
  refine ⟨events, _, hparse, ?_, hquiet.2, Scanner.drain_suffix _⟩
  rw [hmsgs, hquiet.1, List.append_nil]

def exampleMsg : EcbMsg := { command := 3, seqId := 7, payload := [0, 0, 0x6e, 0x6e, 1] }

/-- Two frames with noise around them. -/
theorem uartParseMsg_noisy_two :
    ∃ events left,
      uartParseMsg ecbUartParseMsg (Scanner.noisy EcbMsg.frame [1, 2]
        [(exampleMsg, [3]), (exampleMsg, [0x6e])]) (-1) = some (events, left) ∧
      events.filterMap EcbEvent.msg = [exampleMsg, exampleMsg] ∧
      left.length ≤ 1 ∧ left <:+ [0x6e] := by
  have hquiet : ∀ l ∈ [[1, 2], [3], [(0x6e : UInt8)]], Quiet l := by simp [Quiet]
  refine uartParseMsg_noisy (hquiet _ (by simp)) (fun p hp => ?_) (-1)
  simp only [List.mem_cons, List.not_mem_nil, or_false] at hp
  rcases hp with rfl | rfl
  · exact ⟨by decide, hquiet _ (by simp)⟩
  · exact ⟨by decide, hquiet _ (by simp)⟩

/-! ## Reads -/

section

variable {s s' : EcbReceiver}

/-- One read: the buffer is drained together with what was read. -/
theorem ecbRecvCb_drain {chunk : List UInt8} (hne : chunk ≠ [])
    (h : ecbRecvCb chunk s = some s') :
    s'.uartReadBuf = (ecbScanner.drain (s.uartReadBuf ++ chunk)).2 ∧
      s'.dispatched = s.dispatched ++ (ecbScanner.drain (s.uartReadBuf ++ chunk)).1 := by
  unfold ecbRecvCb at h
  split at h
  · rw [if_neg fun hlen => hne (List.eq_nil_of_length_eq_zero hlen)] at h
    obtain ⟨events, hparse, hmsgs⟩ := uartParseMsg_ecb (s.uartReadBuf ++ chunk) 0
    rw [hparse, Option.map_some] at h
    obtain rfl := Option.some.inj h
    refine ⟨rfl, ?_⟩
    rw [← hmsgs, EcbReceiver.dispatched, List.filterMap_append]
    rfl
  · cases h

/-- A run of reads is the scanner fed with them. -/
theorem ecb_run_feedAll {chunks : List (List UInt8)} (hne : ∀ chunk ∈ chunks, chunk ≠ [])
    (h : ecbMachine.run s chunks = some s') :
    s'.dispatched = s.dispatched ++ (ecbScanner.feedAll s.uartReadBuf chunks).1 := by
  induction chunks generalizing s with
  | nil =>
      obtain rfl := Option.some.inj h
      exact (List.append_nil _).symm
  | cons chunk chunks ih =>
      obtain ⟨t, ht, hrun⟩ := Machine.run_cons.mp h
      obtain ⟨hbuf, hdisp⟩ := ecbRecvCb_drain (hne chunk List.mem_cons_self) ht
      rw [ih (fun c hc => hne c (List.mem_cons_of_mem _ hc)) hrun, hdisp, hbuf,
        List.append_assoc]
      rfl

end

/-- A read ends, of the frames of `msgs`, inside one of which at least
`ECB_MSG_MIN_LEN` bytes have come, and the last two bytes are `6e 6e`. -/
def BadCut (msgs : List EcbMsg) (received : List UInt8) : Prop :=
  ecbMsgMinLen ≤ (Scanner.pending EcbMsg.frame msgs received).length ∧
    EndsInTail (Scanner.pending EcbMsg.frame msgs received)

instance (msgs : List EcbMsg) (received : List UInt8) : Decidable (BadCut msgs received) :=
  inferInstanceAs (Decidable (_ ∧ _))

/-- A bad cut is one where the scanner rejects what it has. -/
theorem rejects_iff_badCut {msgs : List EcbMsg} {received : List UInt8}
    (hms : ∀ m ∈ msgs, m.payload.length ≤ 501)
    (h : received <+: Scanner.encs EcbMsg.frame msgs) :
    ecbScanner.Rejects (Scanner.pending EcbMsg.frame msgs received) ↔ BadCut msgs received := by
  obtain ⟨ms₁, ms₂, part, rfl, rfl, hpart⟩ := Scanner.split_prefix h
  rw [BadCut, Scanner.pending_append, hpart.pending_eq]
  cases ms₂ with
  | nil =>
      obtain rfl : part = [] := hpart
      exact ⟨fun hrej => absurd hrej Scanner.not_rejects_nil, fun hbad => absurd hbad.1 (by decide)⟩
  | cons m ms₂ =>
      have hm := hms m (List.mem_append_right _ List.mem_cons_self)
      have hscan := ecbScan_part (Nat.le_trans hm (by decide)) hpart.1 hpart.2
      constructor
      · rintro ⟨n, hrej⟩
        by_contra hgood
        rw [if_neg hgood] at hscan
        cases hscan.symm.trans hrej
      · intro hbad
        rw [if_pos hbad] at hscan
        exact ⟨1, hscan⟩

/-- **Cutting the stream.**  Of a stream of frames that fit the buffer, read in
any pieces, exactly the messages sent are dispatched, in order and once each,
if and only if no read ends at a bad cut. -/
theorem ecb_reads_iff {msgs : List EcbMsg} {chunks : List (List UInt8)} {s : EcbReceiver}
    (hmsgs : ∀ m ∈ msgs, m.payload.length ≤ 501) (hne : ∀ chunk ∈ chunks, chunk ≠ [])
    (hcat : chunks.flatten = msgs.flatMap EcbMsg.frame)
    (hrun : ecbMachine.run EcbReceiver.init chunks = some s) :
    s.dispatched = msgs ↔ ∀ p, p <+: chunks → ¬ BadCut msgs p.flatten := by
  have hacc : ∀ (m : EcbMsg) (rest : List UInt8), m.payload.length ≤ 501 →
      ecbScanner.scan (m.frame ++ rest) = .accept m.frame.length m := by
    intro m rest hm
    have hquiet : Quiet [] := fun _ hb => absurd hb List.not_mem_nil
    have hscan := ecbScan_frame (Nat.le_trans hm (by decide)) hquiet rest
    rwa [List.nil_append, List.length_nil, Nat.zero_add] at hscan
  have hpart : ∀ (m : EcbMsg) (part : List UInt8), m.payload.length ≤ 501 →
      part <+: m.frame → part.length < m.frame.length →
      ecbScanner.scan part = .wait 0 ∨ ecbScanner.Rejects part := by
    intro m part hm hpre hlt
    have hscan := ecbScan_part (Nat.le_trans hm (by decide)) hpre hlt
    split at hscan
    · exact Or.inr ⟨1, hscan⟩
    · exact Or.inl hscan
  have hsize : ∀ l n m, ecbScanner.scan l = .accept n m → m.frame.length ≤ n := by
    intro l n m h
    obtain ⟨index, -, -, hn, -, rfl⟩ := ecbScan_accept h
    have hpay : (msgAt l index).payload.length ≤ dataLenAt l index := List.length_take_le _ _
    rw [EcbMsg.length_frame]
    omega
  have hstart : Scanner.IsPart EcbMsg.frame msgs [] := by
    cases msgs with
    | nil => rfl
    | cons m msgs =>
        refine ⟨List.nil_prefix, ?_⟩
        rw [EcbMsg.length_frame, List.length_nil]
        omega
  have hfeed := Scanner.feedAll_eq_iff hacc hpart hsize hmsgs hstart Scanner.not_rejects_nil hcat
  rw [ecb_run_feedAll hne hrun]
  refine hfeed.trans (forall_congr' fun p => imp_congr_right fun hp => not_congr ?_)
  obtain ⟨rest, hrest⟩ := hp
  refine rejects_iff_badCut hmsgs ⟨rest.flatten, ?_⟩
  show p.flatten ++ rest.flatten = msgs.flatMap EcbMsg.frame
  rw [← hcat, ← hrest, List.flatten_append]

/-- A frame read in two pieces, neither of which ends in `6e 6e` too early. -/
theorem ecb_reads_dispatched :
    ∃ s, ecbMachine.run EcbReceiver.init [exampleMsg.frame.take 9, exampleMsg.frame.drop 9] =
      some s ∧ s.dispatched = [exampleMsg] := by
  have hsome : (ecbMachine.run EcbReceiver.init
      [exampleMsg.frame.take 9, exampleMsg.frame.drop 9]).isSome := by decide +kernel
  obtain ⟨s, hrun⟩ := Option.isSome_iff_exists.mp hsome
  refine ⟨s, hrun, (ecb_reads_iff (by decide) (by decide) (by decide +kernel) hrun).mpr ?_⟩
  have hcuts : ∀ p ∈ [exampleMsg.frame.take 9, exampleMsg.frame.drop 9].inits,
      ¬ BadCut [exampleMsg] p.flatten := by decide +kernel
  exact fun p hp => hcuts p ((List.mem_inits _ _).mpr hp)

/-- The same frame, the first piece ending with the `6e 6e` of the payload: it
is lost. -/
theorem ecb_reads_lost :
    [exampleMsg.frame.take 11, exampleMsg.frame.drop 11].flatten =
        [exampleMsg].flatMap EcbMsg.frame ∧
      ∃ s, ecbMachine.run EcbReceiver.init
          [exampleMsg.frame.take 11, exampleMsg.frame.drop 11] = some s ∧
        s.dispatched ≠ [exampleMsg] := by
  have hrun : ((ecbMachine.run EcbReceiver.init
      [exampleMsg.frame.take 11, exampleMsg.frame.drop 11]).map EcbReceiver.dispatched) =
        some [] := by decide +kernel
  obtain ⟨s, hs, hd⟩ := Option.map_eq_some_iff.mp hrun
  exact ⟨by decide +kernel, s, hs, by rw [hd]; decide⟩

/-! ## A full buffer -/

/-- A full buffer that holds the beginning of a frame which does not fit. -/
def Wedges (l : List UInt8) : Prop :=
  l.length = uartReadBufSize ∧ byteAt l 0 = 0xe6 ∧ byteAt l 1 = 0xe6 ∧
    501 < dataLenAt l 0 ∧ dataLenAt l 0 ≤ 512 ∧ ¬ EndsInTail l

instance (l : List UInt8) : Decidable (Wedges l) := inferInstanceAs (Decidable (_ ∧ _))

theorem findHeader_zero_iff {l : List UInt8} (hlen : 2 ≤ l.length) :
    findHeader l = some 0 ↔ byteAt l 0 = 0xe6 ∧ byteAt l 1 = 0xe6 := by
  cases l with
  | nil => simp at hlen
  | cons a l =>
      cases l with
      | nil => simp at hlen
      | cons b l =>
          show _ ↔ a = 0xe6 ∧ b = 0xe6
          rw [findHeader]
          split
          · simp [*]
          · simp [*]

/-- A full buffer is waited for exactly when it wedges. -/
theorem ecbScan_full_iff {l : List UInt8} (hlen : l.length = uartReadBufSize) :
    ecbScan l = .wait 0 ↔ Wedges l := by
  unfold uartReadBufSize at hlen
  have htwo : 2 ≤ l.length := by omega
  constructor
  · intro h
    rcases ecbScan_cases l with ⟨hlt, -⟩ | hs | ⟨index, hi, hle, hcase⟩
    · omega
    · cases hs.symm.trans h
    · rcases hcase with ⟨hsmall, hs⟩ | ⟨-, hshort, hless, htail, hs⟩ | ⟨-, hs⟩ |
        ⟨-, -, hs | ⟨-, hs⟩⟩
      · injection hs.symm.trans h with hzero
        omega
      · injection hs.symm.trans h with hzero
        subst hzero
        obtain ⟨h0, h1⟩ := (findHeader_zero_iff htwo).mp hi
        exact ⟨hlen, h0, h1, by omega, hshort, htail⟩
      · cases hs.symm.trans h
      · cases hs.symm.trans h
      · cases hs.symm.trans h
  · rintro ⟨-, h0, h1, hlong, hshort, htail⟩
    have hi := (findHeader_zero_iff htwo).mpr ⟨h0, h1⟩
    rw [ecbScan_incomplete hi (by omega) hshort (by omega), if_neg htail]

/-- The receiver has room for another byte. -/
def HasRoom (s : EcbReceiver) : Prop := s.uartReadBuf.length < uartReadBufSize

instance (s : EcbReceiver) : Decidable (HasRoom s) := inferInstanceAs (Decidable (_ < _))

theorem ecbRecvCb_room_iff {chunk : List UInt8} {s s' : EcbReceiver} (hroom : HasRoom s)
    (h : ecbRecvCb chunk s = some s') : HasRoom s' ↔ ¬ Wedges (s.uartReadBuf ++ chunk) := by
  by_cases hnil : chunk = []
  · subst hnil
    have hsame : s' = s := by
      simp only [ecbRecvCb, List.length_nil, Nat.zero_le, if_true, Option.some.injEq] at h
      exact h.symm
    refine ⟨fun _ hw => ?_, fun _ => hsame ▸ hroom⟩
    have hlen := hw.1
    rw [List.append_nil] at hlen
    exact Nat.ne_of_lt hroom hlen
  · have hbuf := (ecbRecvCb_drain hnil h).1
    have hfits : chunk.length ≤ uartReadBufSize - s.uartReadBuf.length := by
      unfold ecbRecvCb at h
      split at h
      · assumption
      · cases h
    have hne : s.uartReadBuf ++ chunk ≠ [] := fun hcat => hnil (List.append_eq_nil_iff.mp hcat).2
    have hle := (Scanner.drain_suffix (S := ecbScanner) (s.uartReadBuf ++ chunk)).length_le
    have hall : (s.uartReadBuf ++ chunk).length ≤ uartReadBufSize := by
      unfold HasRoom at hroom
      rw [List.length_append]
      omega
    rw [HasRoom, hbuf]
    by_cases hfull : (s.uartReadBuf ++ chunk).length = uartReadBufSize
    · rw [← ecbScan_full_iff hfull]
      have hdrain := Scanner.drain_full_iff (S := ecbScanner) hne
      rw [hfull] at hdrain hle
      show _ ↔ ¬ ecbScanner.scan _ = _
      rw [← hdrain]
      omega
    · refine ⟨fun _ hw => hfull hw.1, fun _ => ?_⟩
      omega

/-- **The receiver wedges** exactly on a full buffer of an over-long frame: over
any reads, there is room after every call if and only if no call is left with
one. -/
theorem ecb_room_iff (chunks : List (List UInt8)) :
    ecbMachine.Along HasRoom EcbReceiver.init chunks ↔
      ecbMachine.Meets (fun s chunk => ¬ Wedges (s.uartReadBuf ++ chunk))
        EcbReceiver.init chunks :=
  Machine.along_iff_meets (V := fun _ => True) (Q := fun _ => True)
    (fun _ _ _ _ _ _ => trivial) (fun _ _ _ _ _ hroom h => ecbRecvCb_room_iff hroom h)
    (fun _ _ => trivial) trivial (by decide)

/-- A length field of 512, and nothing but zeros. -/
theorem ecb_wedged :
    ¬ ecbMachine.Along HasRoom EcbReceiver.init
      [[0xe6, 0xe6, 0, 0, 3, 2, 0] ++ List.replicate 505 0] := by
  have hrun : ((ecbMachine.run EcbReceiver.init
      [[0xe6, 0xe6, 0, 0, 3, 2, 0] ++ List.replicate 505 0]).map
        fun s => decide (HasRoom s)) = some false := by decide +kernel
  obtain ⟨s, hs, hroom⟩ := Option.map_eq_some_iff.mp hrun
  exact fun h => of_decide_eq_false hroom (h.last hs)

end X50
