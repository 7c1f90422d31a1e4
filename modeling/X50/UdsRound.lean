/-
# `X50.UdsRound` — frames over the socket, there and back

The two ways a frame can fail to arrive, and that there are no others.

    the length field   has two bytes; of a longer text it has the low 16 bits
    the read buffer    is overwritten from its start by the next read, so that
                       what there is of an unfinished frame is lost

What `send_event_uds` writes comes back from `uds_recv` exactly if the text is no
longer than the length field can say, and requests that are read in pieces are
handed over if every piece ends between two frames.  The link to the electrical
board keeps the unfinished frame (`ecb_reads_iff`).
-/
import X50.UdsFrame

namespace X50

open X50.Lib

/-! ## What is sent -/

theorem lo8_eq (n : Nat) : lo8 n = UInt8.ofNat n := by
  have hlo : n &&& 0xff = n % 256 := Nat.and_two_pow_sub_one_eq_mod n 8
  apply UInt8.toNat_inj.mp
  simp [lo8, hlo]

/-- The bytes `send_event_uds` writes are a frame. -/
theorem sendBuf_frame (json : List UInt8) :
    sendBuf json 0 = UdsMsg.frame { encry := 0, seqid := 0, json := json } := by
  simp only [sendBuf, UdsMsg.frame, UdsMsg.checked, lo8_eq]
  rfl

/-- What is written, read as one frame. -/
theorem sendEventUds_frame {send : CJson} {type : Option CStr} {bytes : List UInt8}
    (h : sendEventUds send type = some bytes) :
    bytes = Scanner.encs UdsMsg.frame
      [{ encry := 0, seqid := 0, json := (udsRoot send type).printUnformatted }] := by
  unfold sendEventUds at h
  split at h
  · cases h
  · rw [← Option.some.inj h, sendBuf_frame, Scanner.encs_cons, Scanner.encs_nil, List.append_nil]

section

variable {cjsonParse : (Nat → UInt8) → Option CJson} {data : Nat → UInt8}

theorem udsMsgLen_le (data : Nat → UInt8) : udsMsgLen data ≤ 65535 := by
  have h₁ := (data 5).toNat_lt
  have h₂ := (data 6).toNat_lt
  rw [udsMsgLen, be16]
  omega

theorem length_udsMsgAt (data : Nat → UInt8) :
    (udsMsgAt data).json.length = udsMsgLen data := by
  rw [udsMsgAt, memBytes, List.length_map, List.length_range]

/-- The bytes come back as the one text, with the right sum. -/
def ComesBack (cjsonParse : (Nat → UInt8) → Option CJson) (data : Nat → UInt8) (len : Nat)
    (json : List UInt8) : Prop :=
  ∃ h, udsRecv cjsonParse data len = ⟨[h], true⟩ ∧ h.verify = h.verifyCheck ∧ h.msg.json = json

/-- No text is longer than the length field can say. -/
theorem ComesBack.length_le {len : Nat} {json : List UInt8}
    (h : ComesBack cjsonParse data len json) : json.length ≤ 65535 := by
  obtain ⟨k, hrun, -, rfl⟩ := h
  have hk : k ∈ (udsRecv cjsonParse data len).handed := by
    rw [hrun]
    exact List.mem_singleton_self k
  obtain ⟨i, -, -, hk⟩ := mem_udsRecv.mp hk
  rw [(udsLook_handed hk).2.1, length_udsMsgAt]
  exact udsMsgLen_le _

theorem isRequest_udsRoot {send : CJson} {type : Option CStr}
    (hparse : ∀ mem, Reads mem 0 (udsRoot send type).printUnformatted →
      cjsonParse mem = some (udsRoot send type)) :
    IsRequest cjsonParse (udsRoot send type).printUnformatted :=
  ⟨udsRoot send type, type.getD (cstr "EVENT"), send, hparse, rfl, rfl⟩

/-- **UI frames round-trip** exactly up to the length the length field can say.  Of
`cJSON_Parse` it is assumed that it reads back what `cJSON_PrintUnformatted` has
printed, whatever follows. -/
theorem uds_round_trip_iff {send : CJson} {type : Option CStr} {bytes : List UInt8}
    (hsend : sendEventUds send type = some bytes)
    (hparse : ∀ mem, Reads mem 0 (udsRoot send type).printUnformatted →
      cjsonParse mem = some (udsRoot send type))
    (hdata : Reads data 0 bytes) :
    ComesBack cjsonParse data bytes.length (udsRoot send type).printUnformatted ↔
      (udsRoot send type).printUnformatted.length ≤ 65535 := by
  refine ⟨fun h => h.length_le, fun hfits => ?_⟩
  obtain rfl := sendEventUds_frame hsend
  have hpos : 0 < (udsRoot send type).printUnformatted.length := by
    simp only [udsRoot, CJson.printUnformatted, List.length_append]
    have hbrace : 0 < (cstr "\x7b").length := by decide
    omega
  have hm : UdsMsg.WellFormed cjsonParse
      { encry := 0, seqid := 0, json := (udsRoot send type).printUnformatted } :=
    ⟨hpos, hfits, isRequest_udsRoot hparse⟩
  have hdone := udsRecv_encs (List.forall_mem_singleton.mpr hm) hdata
  obtain ⟨k, hhanded, hk⟩ := List.map_eq_singleton_iff.mp hdone.msgs
  refine ⟨k, UdsOutcome.ext hhanded hdone.returns, hdone.checks k ?_, by rw [hk]⟩
  rw [hhanded]
  exact List.mem_singleton_self k

end

/-- The reply to a heart beat. -/
def heartReply : CJson := .object [(cstr "Response", .null)]

theorem uds_round_trip_heart :
    ComesBack (textParse (udsRoot heartReply (some (cstr "HEART"))))
      (listMem (sendBuf (udsRoot heartReply (some (cstr "HEART"))).printUnformatted 0))
      (sendBuf (udsRoot heartReply (some (cstr "HEART"))).printUnformatted 0).length
      (udsRoot heartReply (some (cstr "HEART"))).printUnformatted := by
  have hsend : sendEventUds heartReply (some (cstr "HEART")) =
      some (sendBuf (udsRoot heartReply (some (cstr "HEART"))).printUnformatted 0) :=
    if_neg (by decide)
  refine (uds_round_trip_iff hsend (fun _ h => textParse_reads h) (reads_listMem _)).mpr ?_
  decide +kernel

/-! ### A long reply -/

theorem CJson.escape_length_pos (c : UInt8) : 0 < (CJson.escape c).length := by
  unfold CJson.escape
  split
  case h_8 =>
    split
    · have h : 0 < (cstr "\\u00").length := by decide
      simp only [List.length_append]
      omega
    · exact Nat.one_pos
  all_goals decide

theorem CJson.le_length_printString (s : CStr) : s.length ≤ (CJson.printString s).length := by
  have hflat : s.length ≤ (s.flatMap CJson.escape).length := by
    induction s with
    | nil => exact Nat.le_refl _
    | cons c s ih =>
        have hc := CJson.escape_length_pos c
        rw [List.flatMap_cons, List.length_append, List.length_cons]
        omega
  rw [CJson.printString, List.length_append, List.length_append]
  omega

/-- A value of 70000 characters: what is read of it is 4464 long, if anything. -/
theorem uds_long_lost :
    ∃ send bytes, sendEventUds send none = some bytes ∧
      ∀ cjsonParse, ¬ ComesBack cjsonParse (listMem bytes) bytes.length
        (udsRoot send none).printUnformatted := by
  refine ⟨.object [(cstr "Text", .string (List.replicate 70000 97))], _, if_neg (by decide), ?_⟩
  intro cjsonParse h
  have hle := h.length_le
  have htext := CJson.le_length_printString (List.replicate 70000 97)
  rw [List.length_replicate] at htext
  simp only [udsRoot, CJson.printUnformatted, CJson.printMembers, List.length_append] at hle
  omega

/-! ## Reads -/

section

variable {cjsonParse : (Nat → UInt8) → Option CJson} {s : UdsClient}

theorem reads_recvInto (recvBuf : Nat → UInt8) (chunk : List UInt8) :
    Reads (recvInto recvBuf chunk) 0 chunk := by
  intro k c hc
  obtain ⟨hk, hget⟩ := List.getElem?_eq_some_iff.mp hc
  simp [recvInto, hk, hget]

/-- **A read of whole frames** hands their texts over, whatever was read before. -/
theorem recv_encs {ms : List UdsMsg} (hms : ∀ m ∈ ms, m.WellFormed cjsonParse)
    (hlen : 0 < (Scanner.encs UdsMsg.frame ms).length ∧
      (Scanner.encs UdsMsg.frame ms).length ≤ recvBufSize) :
    ∃ s', (udsMachine cjsonParse).step s (Scanner.encs UdsMsg.frame ms) = some s' ∧
      s'.bodies = s.bodies ++ ms.map UdsMsg.json := by
  have hdone := udsRecv_encs hms (reads_recvInto s.recvBuf _)
  refine ⟨_, (if_pos hlen).trans (if_pos hdone.returns), ?_⟩
  rw [UdsClient.bodies, List.map_append, ← hdone.bodies]
  rfl

/-- Every read ends between two frames of `msgs`. -/
def EndsBetween (msgs : List UdsMsg) (chunks : List (List UInt8)) : Prop :=
  ∀ p, p <+: chunks → Scanner.pending UdsMsg.frame msgs p.flatten = []

/-- Where nothing is pending, whole frames have been read. -/
theorem encs_of_pending_nil {msgs : List UdsMsg} {received : List UInt8}
    (h : received <+: Scanner.encs UdsMsg.frame msgs)
    (hp : Scanner.pending UdsMsg.frame msgs received = []) :
    ∃ ms₁ ms₂, msgs = ms₁ ++ ms₂ ∧ received = Scanner.encs UdsMsg.frame ms₁ := by
  obtain ⟨ms₁, ms₂, part, rfl, rfl, hpart⟩ := Scanner.split_prefix h
  rw [Scanner.pending_append, hpart.pending_eq] at hp
  exact ⟨ms₁, ms₂, rfl, by rw [hp, List.append_nil]⟩

theorem encs_eq_nil {msgs : List UdsMsg} (h : Scanner.encs UdsMsg.frame msgs = []) :
    msgs = [] := by
  cases msgs with
  | nil => rfl
  | cons m msgs =>
      have hlen := congrArg List.length h
      rw [Scanner.encs_cons, List.length_append, m.length_frame, List.length_nil] at hlen
      omega

/-- **Reads between frames.**  Requests sent over the socket and read in pieces that
end between two of them are handed over, exactly these, in order. -/
theorem uds_run_encs {msgs : List UdsMsg} {chunks : List (List UInt8)}
    (hmsgs : ∀ m ∈ msgs, m.WellFormed cjsonParse)
    (hsize : ∀ chunk ∈ chunks, 0 < chunk.length ∧ chunk.length ≤ recvBufSize)
    (hcat : chunks.flatten = Scanner.encs UdsMsg.frame msgs) (hends : EndsBetween msgs chunks) :
    ∃ s', (udsMachine cjsonParse).run s chunks = some s' ∧
      s'.bodies = s.bodies ++ msgs.map UdsMsg.json := by
  induction chunks generalizing s msgs with
  | nil =>
      obtain rfl := encs_eq_nil hcat.symm
      exact ⟨s, rfl, (List.append_nil _).symm⟩
  | cons chunk chunks ih =>
      have hpre : chunk <+: Scanner.encs UdsMsg.frame msgs := ⟨chunks.flatten, hcat⟩
      have hpend : Scanner.pending UdsMsg.frame msgs chunk = [] := by
        have := hends [chunk] (List.prefix_append [chunk] chunks)
        rwa [List.flatten_singleton] at this
      obtain ⟨ms₁, ms₂, rfl, rfl⟩ := encs_of_pending_nil hpre hpend
      have hrest : chunks.flatten = Scanner.encs UdsMsg.frame ms₂ := by
        rw [List.flatten_cons, Scanner.encs_append] at hcat
        exact List.append_cancel_left hcat
      obtain ⟨t, ht, hbodies⟩ := recv_encs (s := s)
        (fun m hm => hmsgs m (List.mem_append_left _ hm)) (hsize _ List.mem_cons_self)
      have hends' : EndsBetween ms₂ chunks := by
        intro p hp
        have := hends (Scanner.encs UdsMsg.frame ms₁ :: p) (List.cons_prefix_cons.mpr ⟨rfl, hp⟩)
        rwa [List.flatten_cons, Scanner.pending_append] at this
      obtain ⟨s', hrun, hdone⟩ := ih (s := t) (fun m hm => hmsgs m (List.mem_append_right _ hm))
        (fun c hc => hsize c (List.mem_cons_of_mem _ hc)) hrest hends'
      refine ⟨s', Machine.run_cons.mpr ⟨t, ht, hrun⟩, ?_⟩
      rw [hdone, hbodies, List.map_append, List.append_assoc]

end

/-- **Chunking does not matter between frames.**  Whatever lies in `recv_buf`, well-formed
requests that are read in pieces ending between two of them are handed over, exactly
these, in order. -/
theorem uds_reads_between {cjsonParse : (Nat → UInt8) → Option CJson} {recvBuf : Nat → UInt8}
    {msgs : List UdsMsg} {chunks : List (List UInt8)}
    (hmsgs : ∀ m ∈ msgs, m.WellFormed cjsonParse)
    (hsize : ∀ chunk ∈ chunks, 0 < chunk.length ∧ chunk.length ≤ recvBufSize)
    (hcat : chunks.flatten = msgs.flatMap UdsMsg.frame) (hends : EndsBetween msgs chunks) :
    ∃ s, (udsMachine cjsonParse).run (.init recvBuf) chunks = some s ∧
      s.bodies = msgs.map UdsMsg.json :=
  uds_run_encs hmsgs hsize hcat hends

/-- Two heart beats in one read, a third in the next. -/
theorem uds_reads_between_hearts :
    ∃ s, (udsMachine (textParse heartRoot)).run (.init fun _ => 0)
        [(heartMsg 1).frame ++ (heartMsg 2).frame, (heartMsg 3).frame] = some s ∧
      s.bodies = [heartMsg 1, heartMsg 2, heartMsg 3].map UdsMsg.json := by
  refine uds_reads_between (fun m hm => ?_) (by decide +kernel) (by decide +kernel) ?_
  · simp only [List.mem_cons, List.not_mem_nil, or_false] at hm
    rcases hm with rfl | rfl | rfl
    · exact heartMsg_wellFormed 1
    · exact heartMsg_wellFormed 2
    · exact heartMsg_wellFormed 3
  · have hcuts : ∀ p ∈ [(heartMsg 1).frame ++ (heartMsg 2).frame, (heartMsg 3).frame].inits,
        Scanner.pending UdsMsg.frame [heartMsg 1, heartMsg 2, heartMsg 3] p.flatten = [] := by
      decide +kernel
    exact fun p hp => hcuts p ((List.mem_inits _ _).mpr hp)

/-- A heart beat read in two pieces is lost. -/
theorem uds_reads_lost :
    (heartMsg 1).WellFormed (textParse heartRoot) ∧
    [(heartMsg 1).frame.take 12, (heartMsg 1).frame.drop 12].flatten =
        [heartMsg 1].flatMap UdsMsg.frame ∧
      ¬ ∃ s, (udsMachine (textParse heartRoot)).run (.init fun _ => 0)
          [(heartMsg 1).frame.take 12, (heartMsg 1).frame.drop 12] = some s ∧
        s.bodies = [heartMsg 1].map UdsMsg.json := by
  have hrun : ((udsMachine (textParse heartRoot)).run (.init fun _ => 0)
      [(heartMsg 1).frame.take 12, (heartMsg 1).frame.drop 12]).map UdsClient.bodies = some [] := by
    decide +kernel
  refine ⟨heartMsg_wellFormed 1, by decide +kernel, ?_⟩
  rintro ⟨s, hs, hbodies⟩
  rw [hs, Option.map_some, hbodies] at hrun
  cases hrun

end X50
