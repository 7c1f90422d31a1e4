/-
# `X50.FrameCheck` — the sums that are not looked at

Both parsers compute the sum of a frame, compare it with the one that was sent, and
log the difference.  What would refuse the frame is commented out.

So a frame is acted upon as soon as it has its header, a length that fits, and its
tail.  Every frame that is acted upon is intact, then, exactly if all such frames in
the input have the right sum (`intact_iff`).
-/
import X50.UdsBounds

namespace X50

open X50.Lib

/-! ## The electrical board -/

section Ecb

variable {l : List UInt8} {index : Nat}

/-- What the sum of a frame is over. -/
def EcbMsg.checked (m : EcbMsg) : List UInt8 :=
  [hi8 m.seqId.toNat, lo8 m.seqId.toNat, m.command, hi8 m.payload.length, lo8 m.payload.length] ++
    m.payload

theorem EcbMsg.frame_checked (m : EcbMsg) :
    m.frame = [0xe6, 0xe6] ++ (m.checked ++ [hi8 (crc16Maxim m.checked).toNat,
      lo8 (crc16Maxim m.checked).toNat, 0x6e, 0x6e]) :=
  List.append_assoc _ _ _

/-- The bytes between the header of the frame at `index` and its sum. -/
def checkedAt (l : List UInt8) (index : Nat) : List UInt8 :=
  (l.drop (index + 2)).take (dataLenAt l index + 5)

/-- `check_sum` of the frame at `index`. -/
def checkSumAt (l : List UInt8) (index : Nat) : Nat :=
  be16 (byteAt l (index + 7 + dataLenAt l index)) (byteAt l (index + 8 + dataLenAt l index))

/-- `ecb_uart_parse_msg` finds a frame at `index`: the first header is there, the length
is one a frame can have, all its bytes are there, and they end in a tail. -/
structure EcbCandidate (l : List UInt8) (index : Nat) : Prop where
  header : findHeader l = some index
  short : dataLenAt l index ≤ 512
  fits : index + 11 + dataLenAt l index ≤ l.length
  tail : TailAt l index

theorem be16_lt (hi lo : UInt8) : be16 hi lo < 65536 := by
  have h₁ := hi.toNat_lt
  have h₂ := lo.toNat_lt
  rw [be16]
  omega

theorem be16_eq_iff {hi lo : UInt8} {n : Nat} (hn : n < 65536) :
    be16 hi lo = n ↔ hi = hi8 n ∧ lo = lo8 n := by
  have hsplit := be16_hi8_lo8 n
  rw [Nat.mod_eq_of_lt hn] at hsplit
  constructor
  · intro h
    rw [← hsplit, be16, be16] at h
    have h₁ := lo.toNat_lt
    have h₂ := (lo8 n).toNat_lt
    exact ⟨UInt8.toNat_inj.mp (by omega), UInt8.toNat_inj.mp (by omega)⟩
  · rintro ⟨rfl, rfl⟩
    exact hsplit

theorem hi8_be16 (hi lo : UInt8) : hi8 (be16 hi lo) = hi :=
  ((be16_eq_iff (be16_lt hi lo)).mp rfl).1.symm

theorem lo8_be16 (hi lo : UInt8) : lo8 (be16 hi lo) = lo :=
  ((be16_eq_iff (be16_lt hi lo)).mp rfl).2.symm

theorem drop_byteAt {i : Nat} (h : i < l.length) : l.drop i = byteAt l i :: l.drop (i + 1) := by
  rw [List.drop_eq_getElem_cons h, byteAt, List.getD_eq_getElem _ _ h]

theorem findHeader_bytes (h : findHeader l = some index) :
    byteAt l index = 0xe6 ∧ byteAt l (index + 1) = 0xe6 := by
  induction l using findHeader.induct generalizing index with
  | case1 a b rest hab =>
      rw [findHeader, if_pos hab] at h
      obtain rfl := Option.some.inj h
      exact hab
  | case2 a b rest hab ih =>
      rw [findHeader, if_neg hab] at h
      obtain ⟨i, hi, rfl⟩ := Option.map_eq_some_iff.mp h
      exact ih hi
  | case3 l hl =>
      rw [findHeader] at h
      · cases h
      · exact hl

/-- The bytes the sum is over are those of the message. -/
theorem EcbCandidate.checkedAt_eq (h : EcbCandidate l index) :
    checkedAt l index = (msgAt l index).checked := by
  have hfits := h.fits
  have hpayload : (msgAt l index).payload.length = dataLenAt l index := by
    rw [msgAt, List.length_take, List.length_drop]
    omega
  have hseq : (msgAt l index).seqId.toNat =
      be16 (byteAt l (index + 2)) (byteAt l (index + 3)) := by
    rw [msgAt, UInt16.toNat_ofNat_of_lt' (be16_lt _ _)]
  rw [EcbMsg.checked, hpayload, hseq, hi8_be16, lo8_be16, dataLenAt, hi8_be16, lo8_be16, checkedAt,
    drop_byteAt (by omega), drop_byteAt (by omega), drop_byteAt (by omega), drop_byteAt (by omega),
    drop_byteAt (by omega)]
  rfl

/-- What is behind the bytes the sum is over. -/
theorem EcbCandidate.drop_check (h : EcbCandidate l index) :
    ∃ rest, l.drop (index + 7 + dataLenAt l index) =
      [byteAt l (index + 7 + dataLenAt l index), byteAt l (index + 8 + dataLenAt l index),
        0x6e, 0x6e] ++ rest := by
  have hfits : index + 7 + dataLenAt l index + 4 ≤ l.length := by
    have := h.fits
    omega
  obtain ⟨ht₁, ht₂⟩ := h.tail
  rw [show index + (7 + dataLenAt l index) = index + 7 + dataLenAt l index by omega] at ht₁ ht₂
  rw [show index + 8 + dataLenAt l index = index + 7 + dataLenAt l index + 1 by omega]
  generalize index + 7 + dataLenAt l index = n at *
  exact ⟨l.drop (n + 4), by
    rw [drop_byteAt (by omega), drop_byteAt (by omega), drop_byteAt (by omega),
      drop_byteAt (by omega), ht₁, ht₂]
    rfl⟩

/-- **The bytes of a frame** that is acted upon. -/
theorem EcbCandidate.drop_index (h : EcbCandidate l index) :
    ∃ rest, l.drop index = [0xe6, 0xe6] ++ ((msgAt l index).checked ++
      ([byteAt l (index + 7 + dataLenAt l index), byteAt l (index + 8 + dataLenAt l index),
        0x6e, 0x6e] ++ rest)) := by
  have hfits := h.fits
  obtain ⟨hb₁, hb₂⟩ := findHeader_bytes h.header
  obtain ⟨rest, hrest⟩ := h.drop_check
  refine ⟨rest, ?_⟩
  have hsplit := List.take_append_drop (dataLenAt l index + 5) (l.drop (index + 2))
  rw [List.drop_drop, show index + 2 + (dataLenAt l index + 5) = index + 7 + dataLenAt l index by
    omega] at hsplit
  rw [drop_byteAt (by omega), hb₁, drop_byteAt (by omega), hb₂, ← hrest, ← h.checkedAt_eq,
    checkedAt, hsplit]
  rfl

/-- The frame at `index` is what `ecb_uart_send_msg` would have written exactly if its
sum is right. -/
theorem EcbCandidate.frame_iff (h : EcbCandidate l index) :
    (msgAt l index).frame <+: l.drop index ↔
      checkSumAt l index = (crc16Maxim (checkedAt l index)).toNat := by
  obtain ⟨rest, hrest⟩ := h.drop_index
  rw [h.checkedAt_eq, checkSumAt, be16_eq_iff (UInt16.toNat_lt _), hrest, EcbMsg.frame_checked,
    List.prefix_append_right_inj, List.prefix_append_right_inj]
  simp only [List.cons_append, List.nil_append, List.cons_prefix_cons, List.nil_prefix, and_true]
  exact and_congr eq_comm eq_comm

/-- A message is dispatched exactly where the parser says it has accepted one. -/
theorem mem_events_iff {m : EcbMsg} (end₀ : Int) :
    (∃ next, EcbEvent.dispatch m next ∈ (ecbUartParseMsg l end₀).events) ↔
      ∃ n, ecbScan l = .accept n m := by
  rw [← ecbUartParseMsg_verdict l end₀]
  rcases ecbUartParseMsg_events l end₀ with ⟨hstatus, m', next, hevents⟩ | ⟨hstatus, hevents⟩
  · rw [ReadResult.verdict, hstatus, hevents]
    constructor
    · rintro ⟨next', hmem⟩
      cases List.mem_singleton.mp hmem
      exact ⟨_, rfl⟩
    · rintro ⟨n, haccept⟩
      cases haccept
      exact ⟨next, List.mem_singleton_self _⟩
  · constructor
    · rintro ⟨next', hmem⟩
      have hm : m ∈ (ecbUartParseMsg l end₀).events.filterMap EcbEvent.msg :=
        List.mem_filterMap.mpr ⟨_, hmem, rfl⟩
      rw [hevents] at hm
      exact absurd hm List.not_mem_nil
    · rintro ⟨n, haccept⟩
      unfold ReadResult.verdict at haccept
      split at haccept
      · cases haccept
      · cases haccept
      case h_3 hvalid _ => exact absurd hvalid hstatus
      · cases haccept

/-- **What is acted upon**: the message of the frame that was found. -/
theorem ecb_dispatch_iff {m : EcbMsg} (end₀ : Int) :
    (∃ next, EcbEvent.dispatch m next ∈ (ecbUartParseMsg l end₀).events) ↔
      ∃ index, EcbCandidate l index ∧ m = msgAt l index := by
  rw [mem_events_iff]
  constructor
  · rintro ⟨n, haccept⟩
    obtain ⟨index, hheader, hshort, rfl, hfits, rfl⟩ := ecbScan_accept haccept
    have hall : index + 11 + dataLenAt l index ≤ l.length := hfits
    refine ⟨index, ⟨hheader, hshort, hall, ?_⟩, rfl⟩
    by_contra htail
    cases ((ecbScan_complete hheader hshort hall).2 htail).symm.trans haccept
  · rintro ⟨index, hc, rfl⟩
    exact ⟨_, (ecbScan_complete hc.header hc.short hc.fits).1 hc.tail⟩

/-- Every frame `ecb_uart_parse_msg` acts upon is what `ecb_uart_send_msg` would have
written for its command, sequence number and payload, whatever its own counter. -/
def EcbIntact (l : List UInt8) (end₀ : Int) : Prop :=
  ∀ m next, EcbEvent.dispatch m next ∈ (ecbUartParseMsg l end₀).events →
    ∃ index, findHeader l = some index ∧
      ∀ ecbSeqId, (ecbUartSendMsg m.command m.payload m.seqId.toNat ecbSeqId).1 <+: l.drop index

theorem ecbUartSendMsg_own (m : EcbMsg) (ecbSeqId : UInt16) :
    (ecbUartSendMsg m.command m.payload m.seqId.toNat ecbSeqId).1 = m.frame := by
  rw [ecbUartSendMsg, if_neg (Int.not_lt.mpr (Int.natCast_nonneg _)), Int.toNat_natCast]
  rfl

/-- A frame that `ecb_uart_parse_msg` finds has the right sum. -/
def EcbChecked (l : List UInt8) : Prop :=
  ∀ index, EcbCandidate l index → checkSumAt l index = (crc16Maxim (checkedAt l index)).toNat

theorem ecbIntact_iff (end₀ : Int) : EcbIntact l end₀ ↔ EcbChecked l := by
  constructor
  · intro h index hc
    obtain ⟨next, hnext⟩ := (ecb_dispatch_iff end₀).mpr ⟨index, hc, rfl⟩
    obtain ⟨index', hheader, hframe⟩ := h _ _ hnext
    obtain rfl := Option.some.inj (hc.header.symm.trans hheader)
    exact hc.frame_iff.mp (ecbUartSendMsg_own _ 0 ▸ hframe 0)
  · intro h m next hnext
    obtain ⟨index, hc, rfl⟩ := (ecb_dispatch_iff end₀).mp ⟨next, hnext⟩
    refine ⟨index, hc.header, fun ecbSeqId => ?_⟩
    rw [ecbUartSendMsg_own]
    exact hc.frame_iff.mpr (h index hc)

end Ecb

/-! ## The user interface -/

section Uds

variable {cjsonParse : (Nat → UInt8) → Option CJson} {data : Nat → UInt8} {len : Nat}

/-- Every frame whose text `uds_recv` hands over has the right sum. -/
def UdsIntact (cjsonParse : (Nat → UInt8) → Option CJson) (data : Nat → UInt8) (len : Nat) :
    Prop :=
  ∀ h ∈ (udsRecv cjsonParse data len).handed, h.verify = h.verifyCheck

/-- The bytes at `i` are a frame with a text: they have their header and their tail. -/
structure UdsFrameAt (data : Nat → UInt8) (i : Nat) : Prop where
  header : data i = 0xaa ∧ data (i + 1) = 0xaa
  tail : data (i + 6 + udsLenAt data i + 2) = 0xbb ∧ data (i + 6 + udsLenAt data i + 3) = 0xbb
  text : 0 < udsLenAt data i

/-- Where a reader of the bytes comes to: behind a frame whose text is a request, and to
the next byte from everywhere else. -/
inductive UdsWalked (cjsonParse : (Nat → UInt8) → Option CJson) (data : Nat → UInt8)
    (len : Nat) : Nat → Prop
  | front : UdsWalked cjsonParse data len 0
  | behind {i : Nat} {request : Option UdsRequest} : UdsWalked cjsonParse data len i → i < len →
      UdsFrameAt data i →
      udsJsonParse cjsonParse (memFrom data (i + 7)) = some (0, request) →
      UdsWalked cjsonParse data len (i + (6 + udsLenAt data i + 3 + 1))
  | next {i : Nat} : UdsWalked cjsonParse data len i → i < len →
      (UdsFrameAt data i →
        ∃ ret, udsJsonParse cjsonParse (memFrom data (i + 7)) = some ret ∧ ret.1 ≠ 0) →
      UdsWalked cjsonParse data len (i + 1)

/-- Of every frame a reader of the bytes comes to, the byte behind the text is the sum of
the bytes between the header and it. -/
def UdsChecked (cjsonParse : (Nat → UInt8) → Option CJson) (data : Nat → UInt8) (len : Nat) :
    Prop :=
  ∀ i, UdsWalked cjsonParse data len i → i < len → UdsFrameAt data i →
    data (i + 6 + udsLenAt data i + 1) = checkSum (memBytes data (i + 2) (udsLenAt data i + 5))

variable {i : Nat}

theorem udsFrameAt_iff : UdsFrameAt data i ↔ UdsCandidate (memFrom data i) := by
  rw [udsCandidate_memFrom]
  constructor
  · exact fun h => ⟨h.header, h.tail, h.text⟩
  · exact fun h => ⟨h.1, h.2.1, h.2.2⟩

/-- The loop comes to where a reader comes to. -/
theorem udsWalked_iff : UdsWalked cjsonParse data len i ↔
    Relation.ReflTransGen (UdsTurn cjsonParse data len) 0 i := by
  constructor
  · intro h
    induction h with
    | front => exact .refl
    | behind hs hi hframe hret ih =>
        refine ih.tail ⟨hi, _, ?_, rfl⟩
        rw [udsLook, if_pos (udsFrameAt_iff.mp hframe), memFrom_memFrom, hret]
        rfl
    | next hs hi hret ih =>
        refine ih.tail ⟨hi, 1, ?_, rfl⟩
        rw [udsLook]
        split
        · rename_i hc
          obtain ⟨ret, hsome, hne⟩ := hret (udsFrameAt_iff.mpr hc)
          rw [memFrom_memFrom, hsome]
          simp [hne]
        · rfl
  · intro h
    induction h with
    | refl => exact .front
    | tail _ hturn ih =>
        obtain ⟨hi, d, hd, rfl⟩ := hturn
        rcases udsLook_next hd with ⟨hc, ⟨request, hret⟩, rfl⟩ | ⟨hret, rfl⟩
        · exact ih.behind hi (udsFrameAt_iff.mpr hc) hret
        · exact ih.next hi fun hframe => hret (udsFrameAt_iff.mp hframe)

/-- The two sums of a frame, as the bytes at `i` have them. -/
theorem udsSums_memFrom (data : Nat → UInt8) (i : Nat) :
    udsVerify (memFrom data i) = data (i + 6 + udsLenAt data i + 1) ∧
      udsVerifyCheck (memFrom data i) =
        checkSum (memBytes data (i + 2) (udsLenAt data i + 5)) := by
  constructor
  · exact congrArg data (by rw [udsMsgLen_memFrom]; omega)
  · simp only [udsVerifyCheck, udsMsgLen_memFrom, memBytes, memFrom, Nat.add_assoc]

theorem udsIntact_iff : UdsIntact cjsonParse data len ↔ UdsChecked cjsonParse data len := by
  constructor
  · intro h i hwalked hi hframe
    have hc := udsFrameAt_iff.mp hframe
    have hlook : (udsLook cjsonParse (memFrom data i)).1 =
        [⟨udsMsgAt (memFrom data i), udsVerify (memFrom data i), udsVerifyCheck (memFrom data i),
          (udsJsonParse cjsonParse (memFrom (memFrom data i) 7)).bind (·.2)⟩] := by
      rw [udsLook, if_pos hc]
    have hsame := h _ (mem_udsRecv.mpr
      ⟨i, udsWalked_iff.mp hwalked, hi, hlook ▸ List.mem_singleton_self _⟩)
    obtain ⟨hverify, hcheck⟩ := udsSums_memFrom data i
    rw [← hverify, ← hcheck]
    exact hsame
  · intro h k hk
    obtain ⟨i, hreach, hi, hk⟩ := mem_udsRecv.mp hk
    obtain ⟨hc, -, hverify, hcheck⟩ := udsLook_handed hk
    obtain ⟨hverify', hcheck'⟩ := udsSums_memFrom data i
    rw [hverify, hcheck, hverify', hcheck']
    exact h i (udsWalked_iff.mpr hreach) hi (udsFrameAt_iff.mpr hc)

end Uds

/-- **Only intact frames have effects** exactly if there are no others in the input. -/
theorem intact_iff (input : List UInt8) (end₀ : Int)
    (cjsonParse : (Nat → UInt8) → Option CJson) (data : Nat → UInt8) (len : Nat) :
    (EcbIntact input end₀ ↔ EcbChecked input) ∧
      (UdsIntact cjsonParse data len ↔ UdsChecked cjsonParse data len) :=
  ⟨ecbIntact_iff end₀, udsIntact_iff⟩

/-- A heart beat of the electrical board, with 0 for its sum. -/
def zeroSumHeart : List UInt8 := [0xe6, 0xe6, 0, 1, 0x0c, 0, 0, 0, 0, 0x6e, 0x6e]

/-- A heart beat of the user interface, with 0 for its sum. -/
def zeroSumUdsHeart : List UInt8 :=
  [0xaa, 0xaa] ++ (heartMsg 1).checked ++ [0, 0xbb, 0xbb]

/-- Both are acted upon. -/
theorem zeroSum_not_intact :
    (ecbUartParseMsg zeroSumHeart 0).events.flatMap EcbEvent.actions = [.heart, .sendAck 1] ∧
      ¬ EcbIntact zeroSumHeart 0 ∧
      ¬ UdsIntact (textParse heartRoot) (listMem zeroSumUdsHeart) zeroSumUdsHeart.length := by
  refine ⟨by decide +kernel, fun h => ?_, ?_⟩
  · have hmem : EcbEvent.dispatch { command := 0x0c, seqId := 1, payload := [] }
        [0, 0, 0x6e, 0x6e] ∈ (ecbUartParseMsg zeroSumHeart 0).events := by decide +kernel
    obtain ⟨index, hindex, hframe⟩ := h _ _ hmem
    have hzero : findHeader zeroSumHeart = some 0 := by decide +kernel
    obtain rfl := Option.some.inj (hzero.symm.trans hindex)
    have hsent := hframe 0
    revert hsent
    decide +kernel
  · unfold UdsIntact
    decide +kernel

end X50
