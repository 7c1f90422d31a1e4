/-
# `X50.UdsBounds` — what `uds_recv` reads of `recv_buf`

`app_select_tcp_server_recv_cb` asks `recv` for all the 4097 bytes of `recv_buf` and
writes a `'\0'` behind what it got.  `uds_recv` then reads on from every header it
finds, to where the length behind it says, and the buffer is not cleared between
two reads.

So two things can go wrong with a chunk: an access outside of the buffer, and a frame
that is cut off and completed by what an earlier read left.  `recv_bounded_iff` says
when neither does, for every chunk.  What must be looked at are the headers that a
reader comes to who goes through the chunk alone (`Scanned`):

    length field    it must lie in the chunk, or end at the `'\0'`
    tail            so must its first byte; a frame without text may have it
                    behind, as long as `recv_buf` goes on for both bytes

`udsTurnRead` is a turn of the loop with its reads, and `udsLook_eq` says that it is
the turn of `X50.Uds`.
-/
import X50.UdsRound
import X50.Lib.Probe

namespace X50

open X50.Lib

/-! ## A turn of the loop -/

/-- The frame at `i`, where `msg_len` is known: the message with `verify` and
`verify_check`, if there is a text to hand over. -/
def udsFrameRead (i : Nat) (encry : UInt8) (seqid : UInt16) (msgLen : Nat) :
    Probe UInt8 (Option (UdsMsg × UInt8 × UInt8)) :=
  .look (i + 6 + msgLen + 2) fun t₀ =>
    if t₀ = 0xbb then
      .look (i + 6 + msgLen + 3) fun t₁ =>
        if t₁ = 0xbb then
          .look (i + 6 + msgLen + 1) fun verify =>
            -- `CheckSum`
            (Probe.lookAll (i + 2) (msgLen + 5)).bind fun checked =>
              .done (if 0 < msgLen then
                some (⟨encry, seqid, checked.drop 5⟩, verify, checkSum checked) else none)
        else .done none
    else .done none

/-- A turn at `i`, up to `uds_json_parse`. -/
def udsTurnRead (i : Nat) : Probe UInt8 (Option (UdsMsg × UInt8 × UInt8)) :=
  .look i fun h₀ =>
    if h₀ = 0xaa then
      .look (i + 1) fun h₁ =>
        if h₁ = 0xaa then
          .look (i + 2) fun encry =>
          .look (i + 3) fun seqHi =>
          .look (i + 4) fun seqLo =>
          .look (i + 5) fun lenHi =>
          .look (i + 6) fun lenLo =>
            udsFrameRead i encry (UInt16.ofNat (be16 seqHi seqLo)) (be16 lenHi lenLo)
        else .done none
    else .done none

/-- The rest of the turn; `text` is the memory behind the pointer that
`uds_json_parse` is given. -/
def handOver (cjsonParse : (Nat → UInt8) → Option CJson) (text : Nat → UInt8) :
    Option (UdsMsg × UInt8 × UInt8) → List UdsHanded × Option Nat
  | none => ([], some 1)
  | some (msg, verify, verifyCheck) =>
      let ret := udsJsonParse cjsonParse text
      ([{ msg, verify, verifyCheck, request := ret.bind (·.2) }],
        ret.map fun ret => if ret.1 = 0 then 6 + msg.json.length + 3 + 1 else 1)

/-- `FRAME_HEADER`, twice. -/
def UdsHeader (data : Nat → UInt8) (i : Nat) : Prop := data i = 0xaa ∧ data (i + 1) = 0xaa

instance (data : Nat → UInt8) (i : Nat) : Decidable (UdsHeader data i) :=
  inferInstanceAs (Decidable (_ ∧ _))

/-- `msg_len` of a frame at `i`. -/
def udsLenAt (data : Nat → UInt8) (i : Nat) : Nat := be16 (data (i + 5)) (data (i + 6))

section

variable {cjsonParse : (Nat → UInt8) → Option CJson} {data : Nat → UInt8} {i k n : Nat}

theorem memFrom_memFrom (data : Nat → UInt8) (i j : Nat) :
    memFrom (memFrom data i) j = memFrom data (i + j) := by
  funext k
  exact congrArg data (Nat.add_assoc i j k).symm

theorem udsMsgLen_memFrom (data : Nat → UInt8) (i : Nat) :
    udsMsgLen (memFrom data i) = udsLenAt data i := rfl

theorem udsCandidate_memFrom (data : Nat → UInt8) (i : Nat) :
    UdsCandidate (memFrom data i) ↔
      UdsHeader data i ∧ (data (i + 6 + udsLenAt data i + 2) = 0xbb ∧
        data (i + 6 + udsLenAt data i + 3) = 0xbb) ∧ 0 < udsLenAt data i := by
  have hshift : ∀ c, memFrom data i (6 + udsLenAt data i + c) =
      data (i + 6 + udsLenAt data i + c) := by
    intro c
    exact congrArg data (by omega)
  unfold UdsCandidate
  rw [udsMsgLen_memFrom, hshift 2, hshift 3]
  rfl

theorem udsFrameRead_run (data : Nat → UInt8) (i : Nat) (encry : UInt8) (seqid : UInt16)
    (msgLen : Nat) :
    (udsFrameRead i encry seqid msgLen).run data =
      if (data (i + 6 + msgLen + 2) = 0xbb ∧ data (i + 6 + msgLen + 3) = 0xbb) ∧ 0 < msgLen then
        some (⟨encry, seqid, memBytes data (i + 7) msgLen⟩, data (i + 6 + msgLen + 1),
          checkSum (memBytes data (i + 2) (msgLen + 5)))
      else none := by
  have hjson : (memBytes data (i + 2) (msgLen + 5)).drop 5 = memBytes data (i + 7) msgLen := by
    rw [drop_memBytes, Nat.add_sub_cancel]
  unfold udsFrameRead
  by_cases ht₀ : data (i + 6 + msgLen + 2) = 0xbb
  case neg => simp [ht₀]
  by_cases ht₁ : data (i + 6 + msgLen + 3) = 0xbb
  case neg => simp [ht₀, ht₁]
  rw [← hjson]
  simp [ht₀, ht₁, memBytes]

theorem udsTurnRead_run (data : Nat → UInt8) (i : Nat) :
    (udsTurnRead i).run data =
      if UdsCandidate (memFrom data i) then
        some (udsMsgAt (memFrom data i), udsVerify (memFrom data i),
          udsVerifyCheck (memFrom data i))
      else none := by
  have hjson : memBytes (memFrom data i) 7 (udsLenAt data i) =
      memBytes data (i + 7) (udsLenAt data i) := by
    simp only [memBytes, memFrom, Nat.add_assoc]
  have hsum : memBytes (memFrom data i) 2 (udsLenAt data i + 5) =
      memBytes data (i + 2) (udsLenAt data i + 5) := by
    simp only [memBytes, memFrom, Nat.add_assoc]
  have hverify : memFrom data i (6 + udsLenAt data i + 1) =
      data (i + 6 + udsLenAt data i + 1) := congrArg data (by omega)
  simp only [udsCandidate_memFrom, udsMsgAt, udsVerify, udsVerifyCheck, udsMsgLen_memFrom, hjson,
    hsum, hverify]
  unfold udsTurnRead
  by_cases h₀ : data i = 0xaa
  case neg => simp [h₀, UdsHeader]
  by_cases h₁ : data (i + 1) = 0xaa
  case neg => simp [h₀, h₁, UdsHeader]
  simp only [Probe.run_look, h₀, h₁, if_true, udsFrameRead_run, UdsHeader, true_and]
  rfl

/-- **A turn is its reads and what is made of them.** -/
theorem udsLook_eq (cjsonParse : (Nat → UInt8) → Option CJson) (data : Nat → UInt8) (i : Nat) :
    udsLook cjsonParse (memFrom data i) =
      handOver cjsonParse (memFrom data (i + 7)) ((udsTurnRead i).run data) := by
  rw [udsTurnRead_run, udsLook, memFrom_memFrom]
  split
  · simp only [handOver, length_udsMsgAt]
  · rfl

theorem mem_udsFrameRead {encry : UInt8} {seqid : UInt16} {msgLen : Nat} :
    k ∈ (udsFrameRead i encry seqid msgLen).looks data ↔
      k = i + 6 + msgLen + 2 ∨ data (i + 6 + msgLen + 2) = 0xbb ∧
        (k = i + 6 + msgLen + 3 ∨ data (i + 6 + msgLen + 3) = 0xbb ∧
          i + 2 ≤ k ∧ k ≤ i + 6 + msgLen + 1) := by
  have hrange : (∃ a < msgLen + 5, i + 2 + a = k) ↔ i + 2 ≤ k ∧ k ≤ i + 6 + msgLen := by
    constructor
    · rintro ⟨a, ha, rfl⟩
      omega
    · intro h
      exact ⟨k - (i + 2), by omega, by omega⟩
  unfold udsFrameRead
  rw [Probe.looks_look, List.mem_cons]
  refine or_congr_right ?_
  by_cases ht₀ : data (i + 6 + msgLen + 2) = 0xbb
  case neg => simp [ht₀]
  by_cases ht₁ : data (i + 6 + msgLen + 3) = 0xbb
  case neg => simp [ht₀, ht₁]
  simp only [ht₀, ht₁, if_true, Probe.looks_look, Probe.looks_bind, Probe.looks_lookAll,
    Probe.looks_done, List.append_nil, List.mem_cons, List.mem_map, List.mem_range, hrange,
    true_and]
  omega

/-- Where a turn looks. -/
theorem mem_udsTurnRead :
    k ∈ (udsTurnRead i).looks data ↔
      k = i ∨ data i = 0xaa ∧ (k = i + 1 ∨ data (i + 1) = 0xaa ∧
        ((i + 2 ≤ k ∧ k ≤ i + 6) ∨ k = i + 6 + udsLenAt data i + 2 ∨
          data (i + 6 + udsLenAt data i + 2) = 0xbb ∧ (k = i + 6 + udsLenAt data i + 3 ∨
            data (i + 6 + udsLenAt data i + 3) = 0xbb ∧
              i + 2 ≤ k ∧ k ≤ i + 6 + udsLenAt data i + 1))) := by
  have hfive : i + 2 ≤ k ∧ k ≤ i + 6 ↔
      k = i + 2 ∨ k = i + 3 ∨ k = i + 4 ∨ k = i + 5 ∨ k = i + 6 := by
    omega
  unfold udsTurnRead
  by_cases h₀ : data i = 0xaa
  case neg => simp [h₀]
  by_cases h₁ : data (i + 1) = 0xaa
  case neg => simp [h₀, h₁]
  simp only [Probe.looks_look, h₀, h₁, if_true, List.mem_cons, mem_udsFrameRead, true_and, hfive,
    or_assoc]
  rfl

end

/-! ## What a read depends on -/

/-- Memories that show the same text: they agree up to a `'\0'`. -/
def SameText (data data' : Nat → UInt8) : Prop :=
  ∃ e, data e = 0 ∧ ∀ k ≤ e, data k = data' k

/-- `cJSON_Parse` reads a text, up to its `'\0'`. -/
def ParsesText (cjsonParse : (Nat → UInt8) → Option CJson) : Prop :=
  ∀ data data', SameText data data' → cjsonParse data = cjsonParse data'

/-- `k` belongs to the text at `i`; its `'\0'` does. -/
def InText (data : Nat → UInt8) (i k : Nat) : Prop := i ≤ k ∧ ∀ j, i ≤ j → j < k → data j ≠ 0

/-- `uds_recv` reads `data[k]`, or `cJSON_Parse` does for it. -/
def UdsReads (cjsonParse : (Nat → UInt8) → Option CJson) (data : Nat → UInt8) (len k : Nat) :
    Prop :=
  ∃ i, Relation.ReflTransGen (UdsTurn cjsonParse data len) 0 i ∧ i < len ∧
    (k ∈ (udsTurnRead i).looks data ∨ UdsCandidate (memFrom data i) ∧ InText data (i + 7) k)

/-- The indices of `recv_buf` that are written: by `recv`, and for the `'\0'`. -/
def recvWrites (chunk : List UInt8) : List Nat := List.range chunk.length ++ [chunk.length]

/-- A chunk is received within `recv_buf`, and what is handed over does not depend on
what an earlier read left there. -/
structure RecvBounded (cjsonParse : (Nat → UInt8) → Option CJson) (chunk : List UInt8) : Prop where
  writes : ∀ k ∈ recvWrites chunk, k < recvBufSize
  reads : ∀ recvBuf k, UdsReads cjsonParse (recvInto recvBuf chunk) chunk.length k →
    k < recvBufSize
  bodies : ∀ recvBuf recvBuf' : Nat → UInt8,
    (∀ k, recvBufSize ≤ k → recvBuf k = recvBuf' k) →
    (udsRecv cjsonParse (recvInto recvBuf chunk) chunk.length).bodies =
      (udsRecv cjsonParse (recvInto recvBuf' chunk) chunk.length).bodies

/-! ## What a chunk must be like -/

/-- Where a reader of the chunk alone comes to: behind a frame that is there with its
tail and is carried out, and to the next byte from everywhere else. -/
inductive Scanned (cjsonParse : (Nat → UInt8) → Option CJson) (chunk : List UInt8) : Nat → Prop
  | front : Scanned cjsonParse chunk 0
  | behind {i : Nat} {request : Option UdsRequest} : Scanned cjsonParse chunk i →
      UdsCandidate (memFrom (listMem chunk) i) →
      udsJsonParse cjsonParse (memFrom (listMem chunk) (i + 7)) = some (0, request) →
      Scanned cjsonParse chunk (i + (6 + udsLenAt (listMem chunk) i + 3 + 1))
  | next {i : Nat} : Scanned cjsonParse chunk i → i < chunk.length →
      (UdsCandidate (memFrom (listMem chunk) i) →
        ∃ ret, udsJsonParse cjsonParse (memFrom (listMem chunk) (i + 7)) = some ret ∧ ret.1 ≠ 0) →
      Scanned cjsonParse chunk (i + 1)

/-- Of the header at `i`, the length field and the first byte of the tail are within the
chunk and its `'\0'`, or there is no text and room for the tail. -/
def FitsAt (chunk : List UInt8) (i : Nat) : Prop :=
  i + 6 ≤ chunk.length ∧
    (i + 6 + udsLenAt (listMem chunk) i + 2 ≤ chunk.length ∨
      udsLenAt (listMem chunk) i = 0 ∧ i + 6 + 3 < recvBufSize)

/-- The `'\0'` is within `recv_buf`, and every header a reader of the chunk comes to
fits. -/
structure ChunkFits (cjsonParse : (Nat → UInt8) → Option CJson) (chunk : List UInt8) : Prop where
  terminator : chunk.length < recvBufSize
  headers : ∀ i, Scanned cjsonParse chunk i → UdsHeader (listMem chunk) i → FitsAt chunk i

section

variable {cjsonParse : (Nat → UInt8) → Option CJson} {chunk : List UInt8}
  {recvBuf : Nat → UInt8} {i j k fuel : Nat}

theorem recvInto_eq (h : k ≤ chunk.length) : recvInto recvBuf chunk k = listMem chunk k := by
  rw [recvInto]
  split
  · rfl
  · rename_i hk
    have hend : chunk.length ≤ k := Nat.not_lt.mp hk
    rw [if_pos (Nat.le_antisymm h hend), listMem, List.getD_eq_default _ _ hend]

theorem recvInto_behind (h : chunk.length < k) : recvInto recvBuf chunk k = recvBuf k := by
  rw [recvInto, if_neg (by omega), if_neg (by omega)]

theorem listMem_behind (h : chunk.length ≤ k) : listMem chunk k = 0 :=
  List.getD_eq_default _ _ h

theorem recvInto_zero (chunk : List UInt8) : recvInto (fun _ => 0) chunk = listMem chunk := by
  funext k
  rcases Nat.lt_or_ge chunk.length k with h | h
  · rw [recvInto_behind h, listMem_behind (Nat.le_of_lt h)]
  · exact recvInto_eq h

theorem lt_of_listMem_ne (h : listMem chunk k ≠ 0) : k < chunk.length :=
  Nat.lt_of_not_le fun hk => h (listMem_behind hk)

theorem header_recvInto (hi : i < chunk.length) :
    UdsHeader (recvInto recvBuf chunk) i ↔ UdsHeader (listMem chunk) i := by
  unfold UdsHeader
  rw [recvInto_eq (Nat.le_of_lt hi), recvInto_eq hi]

theorem lenAt_recvInto (h : i + 6 ≤ chunk.length) :
    udsLenAt (recvInto recvBuf chunk) i = udsLenAt (listMem chunk) i := by
  unfold udsLenAt
  rw [recvInto_eq h, recvInto_eq (by omega)]

theorem UdsHeader.inside (h : UdsHeader (listMem chunk) i) : i + 1 < chunk.length := by
  refine lt_of_listMem_ne ?_
  rw [h.2]
  decide

/-- A frame in the chunk alone is complete there. -/
theorem candidate_inside (h : UdsCandidate (memFrom (listMem chunk) i)) :
    i + 6 + udsLenAt (listMem chunk) i + 3 < chunk.length := by
  rw [udsCandidate_memFrom] at h
  refine lt_of_listMem_ne ?_
  rw [h.2.1.2]
  decide

/-! ## Headers that fit -/

/-- Of a header whose tail begins within the chunk and its `'\0'`, nothing is read behind
them. -/
theorem looks_le (hi : i < chunk.length) (hlen : i + 6 ≤ chunk.length)
    (htail : i + 6 + udsLenAt (listMem chunk) i + 2 ≤ chunk.length)
    (hk : k ∈ (udsTurnRead i).looks (recvInto recvBuf chunk)) : k ≤ chunk.length := by
  rw [mem_udsTurnRead, lenAt_recvInto hlen, recvInto_eq htail] at hk
  rcases hk with rfl | ⟨-, rfl | ⟨-, hk | rfl | ⟨ht, hk⟩⟩⟩
  · exact Nat.le_of_lt hi
  · exact hi
  · exact hk.2.trans hlen
  · exact htail
  · have hinside : i + 6 + udsLenAt (listMem chunk) i + 2 < chunk.length := by
      refine lt_of_listMem_ne ?_
      rw [ht]
      decide
    omega

theorem looks_lt (hn : chunk.length < recvBufSize) (hi : i < chunk.length)
    (hfit : UdsHeader (listMem chunk) i → FitsAt chunk i)
    (hk : k ∈ (udsTurnRead i).looks (recvInto recvBuf chunk)) : k < recvBufSize := by
  by_cases hh : UdsHeader (listMem chunk) i
  case neg =>
    rw [mem_udsTurnRead] at hk
    rcases hk with rfl | ⟨h₀, rfl | ⟨h₁, -⟩⟩
    · omega
    · omega
    · exact absurd ((header_recvInto hi).mp ⟨h₀, h₁⟩) hh
  obtain ⟨hlen, htail | ⟨hzero, hroom⟩⟩ := hfit hh
  · exact Nat.lt_of_le_of_lt (looks_le hi hlen htail hk) hn
  · rw [mem_udsTurnRead, lenAt_recvInto hlen, hzero] at hk
    rcases hk with rfl | ⟨-, rfl | ⟨-, hk | rfl | ⟨-, rfl | hk⟩⟩⟩
    all_goals omega

/-- What a turn finds does not depend on what was in `recv_buf`. -/
theorem turnRead_same (hi : i < chunk.length)
    (hfit : UdsHeader (listMem chunk) i → FitsAt chunk i) :
    (udsTurnRead i).run (recvInto recvBuf chunk) = (udsTurnRead i).run (listMem chunk) := by
  have hnone : ∀ data, ¬ UdsCandidate (memFrom data i) → (udsTurnRead i).run data = none := by
    intro data h
    rw [udsTurnRead_run, if_neg h]
  by_cases hh : UdsHeader (listMem chunk) i
  case neg =>
    rw [hnone, hnone]
    · exact fun hc => hh hc.1
    · exact fun hc => hh ((header_recvInto hi).mp hc.1)
  obtain ⟨hlen, htail | ⟨hzero, -⟩⟩ := hfit hh
  · refine ((udsTurnRead i).run_congr fun k hk => ?_).1
    rw [← recvInto_zero] at hk
    exact (recvInto_eq (looks_le hi hlen htail hk)).symm
  · rw [hnone, hnone]
    · rw [udsCandidate_memFrom, hzero]
      exact fun hc => absurd hc.2.2 (Nat.lt_irrefl 0)
    · rw [udsCandidate_memFrom, lenAt_recvInto hlen, hzero]
      exact fun hc => absurd hc.2.2 (Nat.lt_irrefl 0)

theorem sameText_recvInto (h : i ≤ chunk.length) :
    SameText (memFrom (listMem chunk) i) (memFrom (recvInto recvBuf chunk) i) := by
  refine ⟨chunk.length - i, listMem_behind (by omega), fun k hk => ?_⟩
  exact (recvInto_eq (by omega)).symm

theorem udsJsonParse_congr {text text' : Nat → UInt8} (h : cjsonParse text = cjsonParse text') :
    udsJsonParse cjsonParse text = udsJsonParse cjsonParse text' := by
  unfold udsJsonParse
  rw [h]

/-- Nor does what the turn does. -/
theorem udsLook_same (hparse : ParsesText cjsonParse) (hi : i < chunk.length)
    (hfit : UdsHeader (listMem chunk) i → FitsAt chunk i) :
    udsLook cjsonParse (memFrom (recvInto recvBuf chunk) i) =
      udsLook cjsonParse (memFrom (listMem chunk) i) := by
  rw [udsLook_eq, udsLook_eq, turnRead_same hi hfit, udsTurnRead_run]
  split
  · rename_i hc
    have hinside := candidate_inside hc
    have htext := @sameText_recvInto chunk recvBuf (i + 7) (by omega)
    simp only [handOver, udsJsonParse_congr (hparse _ _ htext)]
  · rfl

/-! ## Where the loop comes to -/

theorem udsLook_next {data : Nat → UInt8} {d : Nat}
    (h : (udsLook cjsonParse (memFrom data i)).2 = some d) :
    (UdsCandidate (memFrom data i) ∧
        (∃ request, udsJsonParse cjsonParse (memFrom data (i + 7)) = some (0, request)) ∧
        d = 6 + udsLenAt data i + 3 + 1) ∨
      ((UdsCandidate (memFrom data i) →
        ∃ ret, udsJsonParse cjsonParse (memFrom data (i + 7)) = some ret ∧ ret.1 ≠ 0) ∧
        d = 1) := by
  unfold udsLook at h
  rw [memFrom_memFrom] at h
  split at h
  · rename_i hc
    obtain ⟨ret, hret, rfl⟩ := Option.map_eq_some_iff.mp h
    by_cases hzero : ret.1 = 0
    · rw [if_pos hzero]
      exact Or.inl ⟨hc, ⟨ret.2, by rw [hret, ← hzero]⟩, rfl⟩
    · rw [if_neg hzero]
      exact Or.inr ⟨fun _ => ⟨ret, hret, hzero⟩, rfl⟩
  · rename_i hc
    exact Or.inr ⟨fun h => absurd h hc, (Option.some.inj h).symm⟩

theorem Scanned.turn (hs : Scanned cjsonParse chunk i)
    (h : UdsTurn cjsonParse (listMem chunk) chunk.length i j) : Scanned cjsonParse chunk j := by
  obtain ⟨hi, d, hd, rfl⟩ := h
  rcases udsLook_next hd with ⟨hc, ⟨request, hret⟩, rfl⟩ | ⟨hret, rfl⟩
  · exact hs.behind hc hret
  · exact hs.next hi hret

/-- A reader of the chunk comes to where the loop comes to that has zeros behind it. -/
theorem Scanned.path (hs : Scanned cjsonParse chunk i) :
    Relation.ReflTransGen (UdsTurn cjsonParse (listMem chunk) chunk.length) 0 i := by
  induction hs with
  | front => exact .refl
  | behind hs hc hret ih =>
      have hinside := candidate_inside hc
      refine ih.tail ⟨by omega, _, ?_, rfl⟩
      rw [udsLook, if_pos hc, memFrom_memFrom, hret]
      rfl
  | next hs hi hret ih =>
      rename_i i
      refine ih.tail ⟨hi, 1, ?_, rfl⟩
      rw [udsLook]
      split
      · rename_i hc
        obtain ⟨ret, hret, hne⟩ := hret hc
        rw [memFrom_memFrom, hret]
        exact congrArg some (if_neg hne)
      · rfl

theorem scanned_iff :
    Scanned cjsonParse chunk i ↔
      Relation.ReflTransGen (UdsTurn cjsonParse (listMem chunk) chunk.length) 0 i := by
  refine ⟨Scanned.path, fun h => ?_⟩
  induction h with
  | refl => exact .front
  | tail hpath hturn ih => exact ih.turn hturn

theorem turn_same (hparse : ParsesText cjsonParse)
    (hfit : UdsHeader (listMem chunk) i → FitsAt chunk i) :
    UdsTurn cjsonParse (recvInto recvBuf chunk) chunk.length i j ↔
      UdsTurn cjsonParse (listMem chunk) chunk.length i j := by
  refine and_congr_right fun hi => ?_
  rw [udsLook_same hparse hi hfit]

/-- **If every header fits**, the loop comes to nothing but what a reader of the chunk comes
to. -/
theorem scanned_of_path (hparse : ParsesText cjsonParse)
    (hfit : ∀ i, Scanned cjsonParse chunk i → UdsHeader (listMem chunk) i → FitsAt chunk i)
    (h : Relation.ReflTransGen (UdsTurn cjsonParse (recvInto recvBuf chunk) chunk.length) 0 i) :
    Scanned cjsonParse chunk i := by
  induction h with
  | refl => exact .front
  | tail hpath hturn ih => exact ih.turn ((turn_same hparse (hfit _ ih)).mp hturn)

/-- And it hands over the same. -/
theorem udsRecvLoop_same (hparse : ParsesText cjsonParse)
    (hfit : ∀ i, Scanned cjsonParse chunk i → UdsHeader (listMem chunk) i → FitsAt chunk i)
    (hs : Scanned cjsonParse chunk i) :
    udsRecvLoop cjsonParse (recvInto recvBuf chunk) chunk.length fuel i =
      udsRecvLoop cjsonParse (listMem chunk) chunk.length fuel i := by
  induction fuel generalizing i with
  | zero => rfl
  | succ fuel ih =>
      by_cases hi : i < chunk.length
      case neg => rw [udsRecvLoop, udsRecvLoop, if_neg hi, if_neg hi]
      rw [udsRecvLoop, udsRecvLoop, if_pos hi, if_pos hi, udsLook_same hparse hi (hfit i hs)]
      dsimp only
      cases hd : (udsLook cjsonParse (memFrom (listMem chunk) i)).2 with
      | none => rfl
      | some d =>
          have hnext : Scanned cjsonParse chunk (i + d) := hs.turn ⟨hi, d, hd, rfl⟩
          dsimp only
          rw [ih hnext]

theorem mem_recvWrites : k ∈ recvWrites chunk ↔ k ≤ chunk.length := by
  rw [recvWrites, List.mem_append, List.mem_range, List.mem_singleton]
  omega

theorem ChunkFits.bounded (hparse : ParsesText cjsonParse) (h : ChunkFits cjsonParse chunk) :
    RecvBounded cjsonParse chunk where
  writes k hk := Nat.lt_of_le_of_lt (mem_recvWrites.mp hk) h.terminator
  reads recvBuf k hk := by
    obtain ⟨i, hpath, hi, hk⟩ := hk
    have hfit := h.headers i (scanned_of_path hparse h.headers hpath)
    rcases hk with hk | ⟨hc, hbehind, htext⟩
    · exact looks_lt h.terminator hi hfit hk
    · -- the text ends at the `'\0'`
      have hk : k ≤ chunk.length := Nat.le_of_not_lt fun hk => by
        have hrun := @turnRead_same chunk recvBuf i hi hfit
        rw [udsTurnRead_run, udsTurnRead_run, if_pos hc] at hrun
        split at hrun
        · rename_i hc'
          have hinside := candidate_inside hc'
          refine htext chunk.length (by omega) hk ?_
          rw [recvInto_eq (Nat.le_refl _), listMem_behind (Nat.le_refl _)]
        · cases hrun
      exact Nat.lt_of_le_of_lt hk h.terminator
  bodies recvBuf recvBuf' _ := by
    unfold udsRecv
    rw [udsRecvLoop_same hparse h.headers .front, udsRecvLoop_same hparse h.headers .front]

/-! ## Headers that do not fit -/

theorem udsRecvLoop_turn {data : Nat → UInt8} {len d : Nat} (hi : i < len)
    (hd : (udsLook cjsonParse (memFrom data i)).2 = some d) :
    (udsRecvLoop cjsonParse data len (fuel + 1) i).handed =
      (udsLook cjsonParse (memFrom data i)).1 ++
        (udsRecvLoop cjsonParse data len fuel (i + d)).handed := by
  rw [udsRecvLoop, if_pos hi]
  dsimp only
  rw [hd]

theorem udsRecvLoop_look {data : Nat → UInt8} {len : Nat} (hi : i < len) :
    ∃ rest, (udsRecvLoop cjsonParse data len (fuel + 1) i).handed =
      (udsLook cjsonParse (memFrom data i)).1 ++ rest := by
  cases hd : (udsLook cjsonParse (memFrom data i)).2 with
  | none =>
      refine ⟨[], ?_⟩
      rw [udsRecvLoop, if_pos hi]
      dsimp only
      rw [hd, List.append_nil]
  | some d => exact ⟨_, udsRecvLoop_turn hi hd⟩

/-- Up to the first header that does not fit, everything is the same whatever was in
`recv_buf`. -/
theorem recv_split (hparse : ParsesText cjsonParse)
    (hpath : Relation.ReflTransGen (UdsTurn cjsonParse (listMem chunk) chunk.length) 0 i)
    (hfit : ∀ j, j < i → Scanned cjsonParse chunk j → UdsHeader (listMem chunk) j →
      FitsAt chunk j) :
    ∃ before fuel, chunk.length - i < fuel ∧ ∀ recvBuf,
      Relation.ReflTransGen (UdsTurn cjsonParse (recvInto recvBuf chunk) chunk.length) 0 i ∧
      (udsRecv cjsonParse (recvInto recvBuf chunk) chunk.length).handed =
        before ++ (udsRecvLoop cjsonParse (recvInto recvBuf chunk) chunk.length fuel i).handed := by
  induction hpath with
  | refl => exact ⟨[], chunk.length + 1, Nat.lt_succ_self _, fun _ => ⟨.refl, rfl⟩⟩
  | tail hpath hturn ih =>
      rename_i i j
      obtain ⟨hi, d, hd, rfl⟩ := hturn
      have hpos := udsLook_pos hd
      have hs : Scanned cjsonParse chunk i := scanned_iff.mpr hpath
      obtain ⟨before, fuel, hfuel, hsplit⟩ := ih fun j hj => hfit j (by omega)
      obtain ⟨fuel, rfl⟩ : ∃ n, fuel = n + 1 := ⟨fuel - 1, by omega⟩
      refine ⟨before ++ (udsLook cjsonParse (memFrom (listMem chunk) i)).1, fuel, by omega, ?_⟩
      intro recvBuf
      have hfit := hfit i (by omega) hs
      have hlook := @udsLook_same cjsonParse chunk recvBuf i hparse hi hfit
      obtain ⟨hreach, hhanded⟩ := hsplit recvBuf
      refine ⟨hreach.tail ((turn_same hparse hfit).mpr ⟨hi, d, hd, rfl⟩), ?_⟩
      rw [hhanded, udsRecvLoop_turn hi (hlook ▸ hd), hlook, List.append_assoc]

theorem path_le {data : Nat → UInt8} {len : Nat}
    (h : Relation.ReflTransGen (UdsTurn cjsonParse data len) i j) : i ≤ j := by
  induction h with
  | refl => exact Nat.le_refl i
  | tail _ hturn ih =>
      obtain ⟨-, d, -, rfl⟩ := hturn
      omega

/-- What is handed over of the chunk alone is complete there. -/
theorem handed_inside {out : UdsHanded} (hfuel : chunk.length - i < fuel)
    (h : out ∈ (udsRecvLoop cjsonParse (listMem chunk) chunk.length fuel i).handed) :
    i + 6 + out.msg.json.length + 3 < chunk.length := by
  obtain ⟨j, hpath, -, hout⟩ := (mem_udsRecvLoop hfuel).mp h
  have hij := path_le hpath
  obtain ⟨hc, hmsg, -⟩ := udsLook_handed hout
  have hinside := candidate_inside hc
  rw [hmsg, length_udsMsgAt, udsMsgLen_memFrom]
  omega

/-- An earlier read left nothing but tails. -/
def staleTails : Nat → UInt8 := fun k => if k < recvBufSize then 0xbb else 0

/-- Where a header does not fit and all reads are inside, such a `recv_buf` completes its
frame. -/
theorem staleTails_candidate (hh : UdsHeader (listMem chunk) i) (hno : ¬ FitsAt chunk i)
    (hreads : ∀ recvBuf k, k ∈ (udsTurnRead i).looks (recvInto recvBuf chunk) → k < recvBufSize) :
    UdsCandidate (memFrom (recvInto staleTails chunk) i) ∧
      chunk.length < i + 6 + udsLenAt (recvInto staleTails chunk) i + 2 := by
  have hi : i < chunk.length := by
    have := hh.inside
    omega
  have hstale : ∀ k, chunk.length < k → k < recvBufSize → recvInto staleTails chunk k = 0xbb := by
    intro k hk hlt
    rw [recvInto_behind hk, staleTails, if_pos hlt]
  have hheader := (@header_recvInto chunk staleTails i hi).mpr hh
  have hlooks : ∀ k, _ → k < recvBufSize := fun k h => hreads staleTails k (mem_udsTurnRead.mpr h)
  have hlenLo : i + 6 < recvBufSize := hlooks _ (Or.inr ⟨hheader.1, Or.inr ⟨hheader.2,
    Or.inl ⟨by omega, by omega⟩⟩⟩)
  have htail := hlooks _ (Or.inr ⟨hheader.1, Or.inr ⟨hheader.2, Or.inr (Or.inl rfl)⟩⟩)
  have hbehind : chunk.length < i + 6 + udsLenAt (recvInto staleTails chunk) i + 2 := by
    by_cases hlen : i + 6 ≤ chunk.length
    · rw [lenAt_recvInto hlen]
      exact Nat.lt_of_not_le fun h => hno ⟨hlen, Or.inl h⟩
    · omega
  have ht₀ := hstale _ hbehind htail
  have hlast := hlooks _ (Or.inr ⟨hheader.1, Or.inr ⟨hheader.2, Or.inr (Or.inr ⟨ht₀,
    Or.inl rfl⟩)⟩⟩)
  have ht₁ := hstale _ (by omega) hlast
  refine ⟨(udsCandidate_memFrom _ _).mpr ⟨hheader, ⟨ht₀, ht₁⟩, ?_⟩, hbehind⟩
  by_cases hlen : i + 6 ≤ chunk.length
  · rw [lenAt_recvInto hlen] at hlast ⊢
    refine Nat.pos_of_ne_zero fun hzero => hno ⟨hlen, Or.inr ⟨hzero, ?_⟩⟩
    rwa [hzero] at hlast
  · -- the low byte of the length is one of the tails
    rw [udsLenAt, hstale (i + 6) (by omega) hlenLo, be16]
    exact Nat.lt_of_lt_of_le (by decide) (Nat.le_add_left _ _)

/-- **The first header that does not fit** is read on outside of `recv_buf`, or completed by
what is there. -/
theorem RecvBounded.fitsAt (hparse : ParsesText cjsonParse) (h : RecvBounded cjsonParse chunk)
    (hs : Scanned cjsonParse chunk i)
    (hfit : ∀ j, j < i → Scanned cjsonParse chunk j → UdsHeader (listMem chunk) j →
      FitsAt chunk j) (hh : UdsHeader (listMem chunk) i) : FitsAt chunk i := by
  by_contra hno
  have hi : i < chunk.length := by
    have := hh.inside
    omega
  obtain ⟨before, fuel, hfuel, hsplit⟩ := recv_split hparse hs.path hfit
  obtain ⟨hc, hbehind⟩ := staleTails_candidate hh hno fun recvBuf k hk =>
    h.reads recvBuf k ⟨i, (hsplit recvBuf).1, hi, Or.inl hk⟩
  have hbodies := h.bodies staleTails (fun _ => 0) fun k hk => if_neg (Nat.not_lt.mpr hk)
  obtain ⟨fuel, rfl⟩ : ∃ n, fuel = n + 1 := ⟨fuel - 1, by omega⟩
  obtain ⟨rest, hrest⟩ :=
    @udsRecvLoop_look cjsonParse i fuel (recvInto staleTails chunk) chunk.length hi
  rw [UdsOutcome.bodies, UdsOutcome.bodies, (hsplit staleTails).2, (hsplit fun _ => 0).2, hrest,
    udsLook, if_pos hc, recvInto_zero, List.map_append, List.map_append, List.map_append] at hbodies
  -- the body that is handed over at `i` is too long for the chunk
  have hmem : (udsMsgAt (memFrom (recvInto staleTails chunk) i)).json ∈
      (udsRecvLoop cjsonParse (listMem chunk) chunk.length (fuel + 1) i).handed.map
        fun out => out.msg.json := by
    rw [← List.append_cancel_left hbodies]
    exact List.mem_cons_self
  obtain ⟨out, hout, hjson⟩ := List.mem_map.mp hmem
  have hinside := handed_inside hfuel hout
  rw [hjson, length_udsMsgAt, udsMsgLen_memFrom] at hinside
  omega

/-- **When the receiver depends only on what was received.**  For a chunk `recv` delivers,
no index outside of `recv_buf` is written or read, and the bodies handed over are the same
for any two earlier contents of `recv_buf`, exactly when its `'\0'` is within `recv_buf`
and every header that a reader of the chunk comes to fits. -/
theorem recv_bounded_iff (cjsonParse : (Nat → UInt8) → Option CJson)
    (hparse : ParsesText cjsonParse) (chunk : List UInt8) :
    RecvBounded cjsonParse chunk ↔ ChunkFits cjsonParse chunk := by
  refine ⟨fun h => ⟨h.writes _ (mem_recvWrites.mpr (Nat.le_refl _)), fun i => ?_⟩,
    fun h => h.bounded hparse⟩
  induction i using Nat.strong_induction_on with
  | _ i ih => exact fun hs hh => h.fitsAt hparse hs (fun j hj => ih j hj) hh

/-! ## A whole frame, and one that is cut off -/

/-- Of a well-formed frame a reader comes to its front, and to nothing inside. -/
theorem scanned_frame {m : UdsMsg} (hm : m.WellFormed cjsonParse)
    (hs : Scanned cjsonParse m.frame i) : i = 0 ∨ m.frame.length ≤ i := by
  have hread := frameRead hm.fits (reads_listMem m.frame)
  have hlen : udsLenAt (listMem m.frame) 0 = m.json.length := hread.msgLen
  have hfrom : memFrom (listMem m.frame) 0 = listMem m.frame := by
    funext k
    exact congrArg (listMem m.frame) (Nat.zero_add k)
  obtain ⟨request, hret⟩ := udsJsonParse_request hm.request hread.json
  induction hs with
  | front => exact Or.inl rfl
  | behind _ hc _ ih =>
      refine Or.inr ?_
      rcases ih with rfl | hi
      · rw [hlen, m.length_frame]
        omega
      · omega
  | next _ hi hpass ih =>
      refine Or.inr ?_
      rcases ih with rfl | hi'
      · rw [hfrom] at hpass
        obtain ⟨ret, hsome, hne⟩ := hpass (hread.candidate hm.pos)
        obtain rfl := Option.some.inj (hret.symm.trans hsome)
        exact absurd rfl hne
      · exact absurd hi (Nat.not_lt.mpr hi')

/-- **A well-formed frame fits**, as long as its `'\0'` does. -/
theorem chunkFits_frame {m : UdsMsg} (hm : m.WellFormed cjsonParse)
    (hn : m.frame.length < recvBufSize) : ChunkFits cjsonParse m.frame where
  terminator := hn
  headers i hs hh := by
    rcases scanned_frame hm hs with rfl | hi
    · have hlen : udsLenAt (listMem m.frame) 0 = m.json.length :=
        (frameRead hm.fits (reads_listMem m.frame)).msgLen
      have hsize := m.length_frame
      exact ⟨by omega, Or.inl (by omega)⟩
    · have hinside := hh.inside
      omega

/-- `textParse` stops at the end of the text. -/
theorem textParse_parsesText {root : CJson} (h : ∀ b ∈ root.printUnformatted, b ≠ 0) :
    ParsesText (textParse root) := by
  have hone : ∀ data data', SameText data data' →
      memBytes data 0 root.printUnformatted.length = root.printUnformatted →
      memBytes data' 0 root.printUnformatted.length = root.printUnformatted := by
    rintro data data' ⟨e, hzero, hsame⟩ htext
    refine Eq.trans (List.map_congr_left fun k hk => ?_) htext
    have hk := List.mem_range.mp hk
    refine (hsame _ (Nat.le_of_not_lt fun hlt => ?_)).symm
    -- the `'\0'` would belong to the text
    have he : e < root.printUnformatted.length := by omega
    refine h (data e) ?_ hzero
    rw [← htext, memBytes]
    exact List.mem_map.mpr ⟨e, List.mem_range.mpr he, by rw [Nat.zero_add]⟩
  intro data data' hsame
  have hsymm : SameText data' data := by
    obtain ⟨e, hzero, hsame⟩ := hsame
    exact ⟨e, (hsame e (Nat.le_refl e)).symm.trans hzero, fun k hk => (hsame k hk).symm⟩
  have hiff : memBytes data 0 root.printUnformatted.length = root.printUnformatted ↔
      memBytes data' 0 root.printUnformatted.length = root.printUnformatted :=
    ⟨hone _ _ hsame, hone _ _ hsymm⟩
  simp only [textParse, hiff]

theorem heartParse_parsesText : ParsesText (textParse heartRoot) :=
  textParse_parsesText (show ∀ b ∈ heartRoot.printUnformatted, b ≠ 0 by decide +kernel)

end

theorem recv_bounded_heart : RecvBounded (textParse heartRoot) (heartMsg 1).frame :=
  (recv_bounded_iff (textParse heartRoot) heartParse_parsesText (heartMsg 1).frame).mpr
    (chunkFits_frame (heartMsg_wellFormed 1) (by decide +kernel))

/-- A heart beat without its sum and its tail. -/
def cutHeart : List UInt8 := (heartMsg 1).frame.take ((heartMsg 1).frame.length - 3)

/-- **A frame that is cut off is handed over**, if the same frame was there before. -/
theorem recv_not_bounded :
    ParsesText (textParse heartRoot) ∧ 1 ≤ cutHeart.length ∧ cutHeart.length ≤ recvBufSize ∧
      ¬ RecvBounded (textParse heartRoot) cutHeart := by
  refine ⟨heartParse_parsesText, by decide +kernel, by decide +kernel, fun h => ?_⟩
  have hbehind : ∀ k, recvBufSize ≤ k → listMem (heartMsg 1).frame k = 0 := by
    intro k hk
    have hlen : (heartMsg 1).frame.length ≤ recvBufSize := by decide +kernel
    exact listMem_behind (hlen.trans hk)
  have hbodies := h.bodies (listMem (heartMsg 1).frame) (fun _ => 0) hbehind
  revert hbodies
  decide +kernel

end X50
