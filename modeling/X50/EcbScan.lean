/-
# `X50.EcbScan` — the parser of the link, as a scanner

`ecbScanner` is what `ecb_uart_parse_msg` says about the bytes it is given,
without its side effects, as a `Scanner` of `X50.Lib.Framing`:

    LEN_SMALL            wait, the bytes before the header are of no use
    NO_HEADER            flush
    LEN_ERR, TAILER_ERR  reject
    VALID                accept

`uartParseMsg_ecb` says that the loop of the C program is the `drain` of this
scanner.  The second half is about frames: what the scanner says about one that
is complete (`ecbScan_frame`) and about a part of one (`ecbScan_part`).
-/
import X50.EcbUart
import X50.Lib.Framing
import Mathlib.Data.List.GetD

namespace X50

open X50.Lib

/-! ## Bytes -/

theorem be16_hi8_lo8 (n : Nat) : be16 (hi8 n) (lo8 n) = n % 65536 := by
  have hlo : n &&& 0xff = n % 256 := Nat.and_two_pow_sub_one_eq_mod n 8
  have hhi : n >>> 8 = n / 256 := Nat.shiftRight_eq_div_pow n 8
  simp only [be16, hi8, lo8, hlo, hhi, UInt8.toNat_ofNat']
  omega

theorem hi8_mod (n : Nat) : hi8 (n % 65536) = hi8 n := by
  have hhi : ∀ k : Nat, k >>> 8 = k / 256 := fun k => Nat.shiftRight_eq_div_pow k 8
  apply UInt8.toNat_inj.mp
  simp only [hi8, hhi, UInt8.toNat_ofNat']
  omega

theorem lo8_mod (n : Nat) : lo8 (n % 65536) = lo8 n := by
  have hlo : ∀ k : Nat, k &&& 0xff = k % 256 := fun k => Nat.and_two_pow_sub_one_eq_mod k 8
  apply UInt8.toNat_inj.mp
  simp only [lo8, hlo, UInt8.toNat_ofNat']
  omega

/-- Whatever sequence number it is called with, `ecb_uart_send_msg` writes the
frame of a message. -/
theorem ecbUartSendMsg_frame (command : UInt8) (msg : List UInt8) (seqId : Int)
    (ecbSeqId : UInt16) :
    ∃ seq : UInt16, (ecbUartSendMsg command msg seqId ecbSeqId).1 =
      EcbMsg.frame { command := command, seqId := seq, payload := msg } := by
  unfold ecbUartSendMsg
  split
  · exact ⟨ecbSeqId, rfl⟩
  · refine ⟨UInt16.ofNat seqId.toNat, ?_⟩
    have hseq : (UInt16.ofNat seqId.toNat).toNat = seqId.toNat % 65536 := by simp
    simp only [EcbMsg.frame, ecbFrame, hseq, hi8_mod, lo8_mod]

theorem byteAt_append_right (l l' : List UInt8) (i : Nat) :
    byteAt (l ++ l') (l.length + i) = byteAt l' i := by
  rw [byteAt, List.getD_append_right _ _ _ _ (by omega), Nat.add_sub_cancel_left]
  rfl

theorem byteAt_append_left {l : List UInt8} {i : Nat} (h : i < l.length) (l' : List UInt8) :
    byteAt (l ++ l') i = byteAt l i :=
  List.getD_append _ _ _ _ h

theorem byteAt_prefix {l l' : List UInt8} {i : Nat} (h : l <+: l') (hi : i < l.length) :
    byteAt l' i = byteAt l i := by
  obtain ⟨t, rfl⟩ := h
  exact byteAt_append_left hi t

/-! ## The header loop -/

/-- Bytes a header cannot hide in. -/
def Quiet (l : List UInt8) : Prop := ∀ b ∈ l, b ≠ 0xe6

theorem findHeader_le {l : List UInt8} {i : Nat} (h : findHeader l = some i) :
    i + 2 ≤ l.length := by
  induction l using findHeader.induct generalizing i with
  | case1 a b rest hab =>
      rw [findHeader, if_pos hab] at h
      obtain rfl := Option.some.inj h
      simp
  | case2 a b rest hab ih =>
      rw [findHeader, if_neg hab] at h
      obtain ⟨j, hj, rfl⟩ := Option.map_eq_some_iff.mp h
      have hle := ih hj
      simp only [List.length_cons] at hle ⊢
      omega
  | case3 l hl =>
      rw [findHeader] at h
      · cases h
      · exact hl

theorem findHeader_quiet {noise : List UInt8} (h : Quiet noise) (rest : List UInt8) :
    findHeader (noise ++ 0xe6 :: 0xe6 :: rest) = some noise.length := by
  induction noise with
  | nil => rfl
  | cons a noise ih =>
      have ha : a ≠ 0xe6 := h a List.mem_cons_self
      have hrest := ih fun b hb => h b (List.mem_cons_of_mem _ hb)
      obtain ⟨b, tail, htail⟩ : ∃ b tail, noise ++ 0xe6 :: 0xe6 :: rest = b :: tail := by
        cases noise with
        | nil => exact ⟨_, _, rfl⟩
        | cons b noise => exact ⟨_, _, rfl⟩
      rw [htail] at hrest
      rw [List.cons_append, htail, findHeader, if_neg fun hab => ha hab.1, hrest]
      rfl

theorem findHeader_none_of_quiet {noise : List UInt8} (h : Quiet noise) :
    findHeader noise = none := by
  induction noise using findHeader.induct with
  | case1 a b rest hab => exact absurd hab.1 (h a List.mem_cons_self)
  | case2 a b rest hab ih =>
      rw [findHeader, if_neg hab, ih fun c hc => h c (List.mem_cons_of_mem _ hc)]
      rfl
  | case3 l hl =>
      rw [findHeader]
      exact hl

/-! ## The scanner -/

/-- What a result says about the bytes. -/
def ReadResult.verdict (r : ReadResult EcbEvent) : Verdict EcbMsg :=
  match r.status, r.events with
  | .lenSmall, _ => .wait r.consumed.toNat
  | .noHeader, _ => .flush
  | .valid, [.dispatch m _] => .accept r.consumed.toNat m
  | _, _ => .reject r.consumed.toNat

def ecbScan (l : List UInt8) : Verdict EcbMsg := (ecbUartParseMsg l 0).verdict

/-- The length field of a frame whose header is at `index`. -/
def dataLenAt (l : List UInt8) (index : Nat) : Nat :=
  be16 (byteAt l (index + 5)) (byteAt l (index + 6))

/-- The bytes end the way frames end. -/
def EndsInTail (l : List UInt8) : Prop :=
  byteAt l (l.length - 1) = 0x6e ∧ byteAt l (l.length - 2) = 0x6e

instance (l : List UInt8) : Decidable (EndsInTail l) := inferInstanceAs (Decidable (_ ∧ _))

/-- The frame at `index` has its tail. -/
def TailAt (l : List UInt8) (index : Nat) : Prop :=
  byteAt l (index + (7 + dataLenAt l index) + 2) = 0x6e ∧
    byteAt l (index + (7 + dataLenAt l index) + 2 + 1) = 0x6e

/-- The message of the frame at `index`. -/
def msgAt (l : List UInt8) (index : Nat) : EcbMsg where
  command := byteAt l (index + 4)
  seqId := UInt16.ofNat (be16 (byteAt l (index + 2)) (byteAt l (index + 3)))
  payload := (l.drop (index + 7)).take (dataLenAt l index)

section

variable {l : List UInt8} {index : Nat}

theorem ecbScan_short (h : l.length < 2) : ecbScan l = .wait 0 := by
  rw [ecbScan, ecbUartParseMsg, if_pos h]
  rfl

theorem ecbScan_noHeader (hlen : 2 ≤ l.length) (h : findHeader l = none) :
    ecbScan l = .flush := by
  rw [ecbScan, ecbUartParseMsg, if_neg (by omega), h]
  rfl

theorem ecbScan_header (hlen : 2 ≤ l.length) (h : findHeader l = some index) :
    ecbScan l = (ecbParseFrame l index).verdict := by
  rw [ecbScan, ecbUartParseMsg, if_neg (by omega), h]

/-- Too few bytes for any frame. -/
theorem ecbScan_small (hlen : 2 ≤ l.length) (h : findHeader l = some index)
    (hsmall : l.length < index + 11) : ecbScan l = .wait index := by
  rw [ecbScan_header hlen h, ecbParseFrame, if_pos (by unfold ecbMsgMinLen; omega)]
  rfl

/-- A length no frame has. -/
theorem ecbScan_tooLong (h : findHeader l = some index) (hmin : index + 11 ≤ l.length)
    (hlong : 512 < dataLenAt l index) : ecbScan l = .reject (index + 1) := by
  rw [ecbScan_header (by omega) h, ecbParseFrame, if_neg (by unfold ecbMsgMinLen; omega)]
  simp only [if_pos (show 512 < be16 (byteAt l (index + 5)) (byteAt l (index + 6)) from hlong)]
  rfl

/-- A frame that is not complete yet, or taken for broken. -/
theorem ecbScan_incomplete (h : findHeader l = some index) (hmin : index + 11 ≤ l.length)
    (hshort : dataLenAt l index ≤ 512) (hless : l.length < index + 11 + dataLenAt l index) :
    ecbScan l = if EndsInTail l then .reject (index + 1) else .wait index := by
  rw [ecbScan_header (by omega) h, ecbParseFrame, if_neg (by unfold ecbMsgMinLen; omega)]
  unfold dataLenAt at hshort hless
  simp only [if_neg (Nat.not_lt.mpr hshort)]
  rw [if_pos (by omega)]
  by_cases htail : EndsInTail l
  · rw [if_pos htail]
    simp only [if_pos (show byteAt l (l.length - 1) = 0x6e ∧ _ from htail)]
    rfl
  · rw [if_neg htail]
    simp only [if_neg (show ¬ (byteAt l (l.length - 1) = 0x6e ∧ _) from htail)]
    rfl

/-- A frame with all its bytes. -/
theorem ecbScan_complete (h : findHeader l = some index)
    (hshort : dataLenAt l index ≤ 512) (hall : index + 11 + dataLenAt l index ≤ l.length) :
    (TailAt l index → ecbScan l = .accept (index + 11 + dataLenAt l index) (msgAt l index)) ∧
      (¬ TailAt l index → ecbScan l = .reject (index + 11 + dataLenAt l index)) := by
  have hcons : ((index : Int) + ((7 : Nat) + (dataLenAt l index : Int)) + 2 + 2).toNat =
      index + 11 + dataLenAt l index := by omega
  rw [ecbScan_header (by omega) h, ecbParseFrame, if_neg (by unfold ecbMsgMinLen; omega)]
  unfold TailAt msgAt
  unfold dataLenAt at hshort hall hcons ⊢
  simp only [if_neg (Nat.not_lt.mpr hshort)]
  rw [if_neg (by omega)]
  constructor
  · rintro ⟨h₁, h₂⟩
    rw [if_neg (by simp [h₁, h₂])]
    simp only [ReadResult.verdict, Verdict.accept.injEq, and_true]
    omega
  · intro htail
    rw [if_pos (by rw [← not_and_or]; exact htail)]
    simp only [ReadResult.verdict, Verdict.reject.injEq]
    omega

/-- Everything `ecb_uart_parse_msg` can say. -/
theorem ecbScan_cases (l : List UInt8) :
    (l.length < 2 ∧ ecbScan l = .wait 0) ∨ ecbScan l = .flush ∨
    ∃ index, findHeader l = some index ∧ index + 2 ≤ l.length ∧
      (l.length < index + 11 ∧ ecbScan l = .wait index ∨
      index + 11 ≤ l.length ∧ dataLenAt l index ≤ 512 ∧
        l.length < index + 11 + dataLenAt l index ∧ ¬ EndsInTail l ∧ ecbScan l = .wait index ∨
      index + 11 ≤ l.length ∧ ecbScan l = .reject (index + 1) ∨
      index + 11 + dataLenAt l index ≤ l.length ∧ dataLenAt l index ≤ 512 ∧
        (ecbScan l = .reject (index + 11 + dataLenAt l index) ∨
          TailAt l index ∧
            ecbScan l = .accept (index + 11 + dataLenAt l index) (msgAt l index))) := by
  by_cases hlen : l.length < 2
  · exact Or.inl ⟨hlen, ecbScan_short hlen⟩
  · have hlen := Nat.not_lt.mp hlen
    cases h : findHeader l with
    | none => exact Or.inr (Or.inl (ecbScan_noHeader hlen h))
    | some index =>
        refine Or.inr (Or.inr ⟨index, rfl, findHeader_le h, ?_⟩)
        by_cases hsmall : l.length < index + 11
        · exact Or.inl ⟨hsmall, ecbScan_small hlen h hsmall⟩
        · have hmin := Nat.not_lt.mp hsmall
          by_cases hlong : 512 < dataLenAt l index
          · exact Or.inr (Or.inr (Or.inl ⟨hmin, ecbScan_tooLong h hmin hlong⟩))
          · have hshort := Nat.not_lt.mp hlong
            by_cases hless : l.length < index + 11 + dataLenAt l index
            · have hpart := ecbScan_incomplete h hmin hshort hless
              by_cases htail : EndsInTail l
              · rw [if_pos htail] at hpart
                exact Or.inr (Or.inr (Or.inl ⟨hmin, hpart⟩))
              · rw [if_neg htail] at hpart
                exact Or.inr (Or.inl ⟨hmin, hshort, hless, htail, hpart⟩)
            · have hall := Nat.not_lt.mp hless
              obtain ⟨hacc, hrej⟩ := ecbScan_complete h hshort hall
              refine Or.inr (Or.inr (Or.inr ⟨hall, hshort, ?_⟩))
              by_cases htail : TailAt l index
              · exact Or.inr ⟨htail, hacc htail⟩
              · exact Or.inl (hrej htail)

/-- An accepted frame is there, from its header to its tail. -/
theorem ecbScan_accept {n : Nat} {m : EcbMsg} (h : ecbScan l = .accept n m) :
    ∃ index, findHeader l = some index ∧ dataLenAt l index ≤ 512 ∧
      n = index + 11 + dataLenAt l index ∧ n ≤ l.length ∧ m = msgAt l index := by
  rcases ecbScan_cases l with ⟨-, hs⟩ | hs | ⟨index, hi, -, hcase⟩
  · cases hs.symm.trans h
  · cases hs.symm.trans h
  · rcases hcase with ⟨-, hs⟩ | ⟨-, -, -, -, hs⟩ | ⟨-, hs⟩ | ⟨hall, hshort, hs | ⟨-, hs⟩⟩
    · cases hs.symm.trans h
    · cases hs.symm.trans h
    · cases hs.symm.trans h
    · cases hs.symm.trans h
    · injection hs.symm.trans h with hn hm
      exact ⟨index, hi, hshort, hn.symm, hn ▸ hall, hm.symm⟩

theorem ecbScan_reject {n : Nat} (h : ecbScan l = .reject n) : 0 < n ∧ n ≤ l.length := by
  rcases ecbScan_cases l with ⟨-, hs⟩ | hs | ⟨index, hi, hle, hcase⟩
  · cases hs.symm.trans h
  · cases hs.symm.trans h
  · rcases hcase with ⟨-, hs⟩ | ⟨-, -, -, -, hs⟩ | ⟨-, hs⟩ | ⟨hall, hshort, hs | ⟨-, hs⟩⟩
    · cases hs.symm.trans h
    · cases hs.symm.trans h
    · injection hs.symm.trans h with hn
      omega
    · injection hs.symm.trans h with hn
      omega
    · cases hs.symm.trans h

end

/-- `ecb_uart_parse_msg`, as a scanner. -/
def ecbScanner : Scanner UInt8 EcbMsg where
  scan := ecbScan
  reject_pos := ecbScan_reject
  accept_pos h := by
    obtain ⟨index, -, -, hn, hle, -⟩ := ecbScan_accept h
    omega

/-! ## The loop -/

/-- What `*end` holds before a call changes nothing the loop looks at. -/
theorem ecbUartParseMsg_verdict (l : List UInt8) (end₀ : Int) :
    (ecbUartParseMsg l end₀).verdict = ecbScan l := by
  unfold ecbScan ecbUartParseMsg
  split
  · rfl
  · split <;> rfl

/-- A message is dispatched exactly when a frame is valid. -/
theorem ecbUartParseMsg_events (l : List UInt8) (end₀ : Int) :
    ((ecbUartParseMsg l end₀).status = .valid ∧
        ∃ m next, (ecbUartParseMsg l end₀).events = [.dispatch m next]) ∨
      ((ecbUartParseMsg l end₀).status ≠ .valid ∧
        (ecbUartParseMsg l end₀).events.filterMap EcbEvent.msg = []) := by
  unfold ecbUartParseMsg
  split
  · exact Or.inr ⟨by simp, rfl⟩
  · split
    · exact Or.inr ⟨by simp, rfl⟩
    · simp only [ecbParseFrame]
      split
      · exact Or.inr ⟨by simp, rfl⟩
      · split
        · exact Or.inr ⟨by simp, rfl⟩
        · split
          · split
            · exact Or.inr ⟨by simp, rfl⟩
            · exact Or.inr ⟨by simp, rfl⟩
          · split
            · exact Or.inr ⟨by simp, rfl⟩
            · exact Or.inl ⟨rfl, _, _, rfl⟩

/-- A turn that goes on: the rest is drained, or there is none. -/
theorem uartParseLoop_go {fuel n : Nat} {l : List UInt8} (end₀ : Int) (evs : List EcbEvent)
    (hn : 0 < n ∧ n ≤ l.length) (hl : l.length < fuel + 1)
    (ih : ∀ {l : List UInt8} (end₀ : Int), l.length < fuel →
      ∃ events, uartParseLoop ecbUartParseMsg fuel l end₀ =
          some (events, (ecbScanner.drain l).2) ∧
        events.filterMap EcbEvent.msg = (ecbScanner.drain l).1) :
    ∃ events, (if (l.drop n).length = 0 then some (evs, [])
        else (uartParseLoop ecbUartParseMsg fuel (l.drop n) end₀).map
          fun out => (evs ++ out.1, out.2)) = some (events, (ecbScanner.drain (l.drop n)).2) ∧
      events.filterMap EcbEvent.msg =
        evs.filterMap EcbEvent.msg ++ (ecbScanner.drain (l.drop n)).1 := by
  by_cases hnil : (l.drop n).length = 0
  · rw [if_pos hnil, List.eq_nil_of_length_eq_zero hnil, Scanner.drain_nil]
    exact ⟨evs, rfl, (List.append_nil _).symm⟩
  · have hlt : (l.drop n).length < fuel := by
      rw [List.length_drop]
      omega
    obtain ⟨events, hloop, hmsgs⟩ := ih (l := l.drop n) end₀ hlt
    rw [if_neg hnil, hloop]
    exact ⟨evs ++ events, rfl, by rw [List.filterMap_append, hmsgs]⟩

theorem uartParseLoop_ecb {fuel : Nat} {l : List UInt8} (end₀ : Int) (h : l.length < fuel) :
    ∃ events, uartParseLoop ecbUartParseMsg fuel l end₀ =
        some (events, (ecbScanner.drain l).2) ∧
      events.filterMap EcbEvent.msg = (ecbScanner.drain l).1 := by
  induction fuel generalizing l end₀ with
  | zero => omega
  | succ fuel ih =>
      have hv : (ecbUartParseMsg l end₀).verdict = ecbScanner.scan l :=
        ecbUartParseMsg_verdict l end₀
      -- no message, and the verdict says how many bytes go
      have hreject : (ecbUartParseMsg l end₀).events.filterMap EcbEvent.msg = [] →
          ecbScanner.scan l = .reject (ecbUartParseMsg l end₀).consumed.toNat →
          ∃ events, (if (l.drop (ecbUartParseMsg l end₀).consumed.toNat).length = 0
              then some ((ecbUartParseMsg l end₀).events, [])
              else (uartParseLoop ecbUartParseMsg fuel
                  (l.drop (ecbUartParseMsg l end₀).consumed.toNat)
                  (ecbUartParseMsg l end₀).consumed).map
                fun out => ((ecbUartParseMsg l end₀).events ++ out.1, out.2)) =
              some (events, (ecbScanner.drain l).2) ∧
            events.filterMap EcbEvent.msg = (ecbScanner.drain l).1 := by
        intro hevs hscan
        obtain ⟨events, hloop, hmsgs⟩ := uartParseLoop_go
          (ecbUartParseMsg l end₀).consumed (ecbUartParseMsg l end₀).events
          (ecbScanner.reject_pos hscan) h ih
        rw [Scanner.drain_reject hscan]
        refine ⟨events, hloop, ?_⟩
        rw [hmsgs, hevs, List.nil_append]
      rcases ecbUartParseMsg_events l end₀ with ⟨hst, m, next, hevs⟩ | ⟨hst, hevs⟩
      · have hscan : ecbScanner.scan l =
            .accept (ecbUartParseMsg l end₀).consumed.toNat m := by
          rw [← hv, ReadResult.verdict, hst, hevs]
        obtain ⟨events, hloop, hmsgs⟩ := uartParseLoop_go
          (ecbUartParseMsg l end₀).consumed (ecbUartParseMsg l end₀).events
          (ecbScanner.accept_pos hscan) h ih
        rw [Scanner.drain_accept hscan]
        simp only [uartParseLoop, hst]
        refine ⟨events, hloop, ?_⟩
        rw [hmsgs, hevs]
        rfl
      · simp only [uartParseLoop]
        cases hs : (ecbUartParseMsg l end₀).status with
        | valid => exact absurd hs hst
        | noHeader =>
            rw [ReadResult.verdict, hs] at hv
            rw [Scanner.drain_flush hv.symm]
            exact ⟨_, rfl, hevs⟩
        | lenSmall =>
            rw [ReadResult.verdict, hs] at hv
            rw [Scanner.drain_wait hv.symm]
            exact ⟨_, rfl, hevs⟩
        | lenErr =>
            rw [ReadResult.verdict, hs] at hv
            exact hreject hevs hv.symm
        | checkErr =>
            rw [ReadResult.verdict, hs] at hv
            exact hreject hevs hv.symm
        | tailerErr =>
            rw [ReadResult.verdict, hs] at hv
            exact hreject hevs hv.symm

/-- **The loop of the C program is the drain of the scanner**: it returns, with
the messages the scanner accepts and the bytes it leaves. -/
theorem uartParseMsg_ecb (l : List UInt8) (end₀ : Int) :
    ∃ events, uartParseMsg ecbUartParseMsg l end₀ = some (events, (ecbScanner.drain l).2) ∧
      events.filterMap EcbEvent.msg = (ecbScanner.drain l).1 :=
  uartParseLoop_ecb end₀ (Nat.lt_succ_self _)

end X50
