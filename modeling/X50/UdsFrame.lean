/-
# `X50.UdsFrame` — what the socket of the user interface makes of frames

A frame that is complete in what was read is handed over once, with the sum it
should have, and the loop goes on behind it, whatever bytes it has inside
(`udsRecvLoop_frame`).  So all frames of a buffer are handed over, in order, with any
noise before, between and behind them that has no byte of a header (`uds_recv_noisy`).
-/
import X50.Uds
import X50.EcbScan

namespace X50

open X50.Lib

/-! ## Frames -/

/-- What the sum of a frame is over. -/
def UdsMsg.checked (m : UdsMsg) : List UInt8 :=
  [m.encry, hi8 m.seqid.toNat, lo8 m.seqid.toNat, hi8 m.json.length, lo8 m.json.length] ++ m.json

/-- The frame of a message. -/
def UdsMsg.frame (m : UdsMsg) : List UInt8 :=
  [0xaa, 0xaa] ++ m.checked ++ [checkSum m.checked, 0xbb, 0xbb]

/-- `cJSON_Parse` reads the text `json`, whatever follows it, as a request: an object
with a string `Type` and a `Data`. -/
def IsRequest (cjsonParse : (Nat → UInt8) → Option CJson) (json : List UInt8) : Prop :=
  ∃ root type data, (∀ mem, Reads mem 0 json → cjsonParse mem = some root) ∧
    root.getObjectItem (cstr "Type") = some (.string type) ∧
    root.getObjectItem (cstr "Data") = some data

/-- A request whose length fits the length field. -/
structure UdsMsg.WellFormed (cjsonParse : (Nat → UInt8) → Option CJson) (m : UdsMsg) : Prop where
  pos : 0 < m.json.length
  fits : m.json.length ≤ 65535
  request : IsRequest cjsonParse m.json

/-- Bytes a header cannot hide in. -/
def UdsQuiet (l : List UInt8) : Prop := ∀ b ∈ l, b ≠ 0xaa

instance (l : List UInt8) : Decidable (UdsQuiet l) := List.decidableBAll (· ≠ 0xaa) l

section

variable {cjsonParse : (Nat → UInt8) → Option CJson} {data : Nat → UInt8} {m : UdsMsg}

theorem UdsMsg.length_frame (m : UdsMsg) : m.frame.length = m.json.length + 10 := by
  simp [UdsMsg.frame, UdsMsg.checked]

theorem UdsMsg.length_checked (m : UdsMsg) : m.checked.length = m.json.length + 5 := by
  simp [UdsMsg.checked]

/-- A request is carried out. -/
theorem udsJsonParse_request {json : List UInt8} (h : IsRequest cjsonParse json)
    (hdata : Reads data 0 json) :
    ∃ request, udsJsonParse cjsonParse data = some (0, request) := by
  obtain ⟨root, type, item, hroot, htype, hitem⟩ := h
  simp only [udsJsonParse, hroot data hdata, htype, hitem, CJson.valuestring,
    Option.bind_eq_bind, Option.bind_some, Option.pure_def]
  split
  · exact ⟨_, rfl⟩
  · split
    · exact ⟨_, rfl⟩
    · split
      · exact ⟨_, rfl⟩
      · exact ⟨_, rfl⟩

/-- What memory shows of a frame that lies there. -/
structure FrameRead (m : UdsMsg) (data : Nat → UInt8) : Prop where
  header : data 0 = 0xaa ∧ data 1 = 0xaa
  msgLen : udsMsgLen data = m.json.length
  msg : udsMsgAt data = m
  verify : udsVerify data = checkSum m.checked
  verifyCheck : udsVerifyCheck data = checkSum m.checked
  tail : data (6 + m.json.length + 2) = 0xbb ∧ data (6 + m.json.length + 3) = 0xbb
  json : Reads (memFrom data 7) 0 m.json

theorem frameRead (hfits : m.json.length ≤ 65535) (h : Reads data 0 m.frame) :
    FrameRead m data := by
  have hchecked : Reads data 2 m.checked := by
    have := h.left.right
    rwa [Nat.zero_add] at this
  have hend : Reads data (2 + m.checked.length) [checkSum m.checked, 0xbb, 0xbb] := by
    have := h.right
    rwa [List.length_append, Nat.zero_add] at this
  rw [m.length_checked] at hend
  have hjson : Reads data 7 m.json := hchecked.right
  have hlen : udsMsgLen data = m.json.length := by
    rw [udsMsgLen, hchecked 3 _ rfl, hchecked 4 _ rfl, be16_hi8_lo8, Nat.mod_eq_of_lt (by omega)]
  have hseq : UInt16.ofNat (be16 (data 3) (data 4)) = m.seqid := by
    rw [hchecked 1 _ rfl, hchecked 2 _ rfl, be16_hi8_lo8]
    simp
  exact {
    header := ⟨h 0 _ rfl, h 1 _ rfl⟩
    msgLen := hlen
    msg := by
      rw [udsMsgAt, hlen, hseq, hchecked 0 _ rfl, hjson.memBytes]
    verify := by
      rw [udsVerify, hlen, ← hend 0 _ rfl]
      congr 1
      omega
    verifyCheck := by
      rw [udsVerifyCheck, hlen, ← m.length_checked, hchecked.memBytes]
    tail := by
      have h₁ : data (2 + (m.json.length + 5) + 1) = 0xbb := hend 1 _ rfl
      have h₂ : data (2 + (m.json.length + 5) + 2) = 0xbb := hend 2 _ rfl
      constructor
      · rw [← h₁]
        congr 1
        omega
      · rw [← h₂]
        congr 1
        omega
    json := hjson.memFrom }

theorem FrameRead.candidate (h : FrameRead m data) (hpos : 0 < m.json.length) :
    UdsCandidate data := by
  refine ⟨h.header, ?_, ?_⟩
  · rw [h.msgLen]
    exact h.tail
  · rwa [h.msgLen]

/-- **A frame at the front of the memory** is handed over, and the index moves
behind it. -/
theorem udsLook_frame (hm : m.WellFormed cjsonParse) (h : Reads data 0 m.frame) :
    ∃ request, udsLook cjsonParse data =
      ([⟨m, checkSum m.checked, checkSum m.checked, request⟩], some m.frame.length) := by
  have hread := frameRead hm.fits h
  obtain ⟨request, hparse⟩ := udsJsonParse_request hm.request hread.json
  refine ⟨request, ?_⟩
  rw [udsLook, if_pos (hread.candidate hm.pos), hparse]
  simp only [hread.msg, hread.verify, hread.verifyCheck, hread.msgLen, m.length_frame,
    Option.bind_some, Option.map_some, if_true]
  congr 2
  omega

/-- All that a turn of the loop hands over is the frame at the index. -/
theorem udsLook_handed {k : UdsHanded} (h : k ∈ (udsLook cjsonParse data).1) :
    UdsCandidate data ∧ k.msg = udsMsgAt data ∧ k.verify = udsVerify data ∧
      k.verifyCheck = udsVerifyCheck data := by
  unfold udsLook at h
  split at h
  case isTrue hc =>
    obtain rfl := List.mem_singleton.mp h
    exact ⟨hc, rfl, rfl, rfl⟩
  case isFalse => exact absurd h List.not_mem_nil

theorem udsLook_pos {n : Nat} (h : (udsLook cjsonParse data).2 = some n) : 0 < n := by
  unfold udsLook at h
  split at h
  · obtain ⟨ret, -, rfl⟩ := Option.map_eq_some_iff.mp h
    split
    · exact Nat.succ_pos _
    · exact Nat.one_pos
  · obtain rfl := Option.some.inj h
    exact Nat.one_pos

/-! ## The loop -/

/-- A turn of the loop of `uds_recv`, from one index to the next. -/
def UdsTurn (cjsonParse : (Nat → UInt8) → Option CJson) (data : Nat → UInt8) (len : Nat)
    (i j : Nat) : Prop :=
  i < len ∧ ∃ n, (udsLook cjsonParse (memFrom data i)).2 = some n ∧ j = i + n

/-- **What is handed over** is what the turns hand over at the indices the loop comes
to. -/
theorem mem_udsRecvLoop {k : UdsHanded} {len fuel i : Nat} (hfuel : len - i < fuel) :
    k ∈ (udsRecvLoop cjsonParse data len fuel i).handed ↔
      ∃ j, Relation.ReflTransGen (UdsTurn cjsonParse data len) i j ∧ j < len ∧
        k ∈ (udsLook cjsonParse (memFrom data j)).1 := by
  induction fuel generalizing i with
  | zero => exact absurd hfuel (Nat.not_lt_zero _)
  | succ fuel ih =>
      by_cases hi : i < len
      case neg =>
        rw [udsRecvLoop, if_neg hi]
        refine ⟨fun h => absurd h List.not_mem_nil, ?_⟩
        rintro ⟨j, hreach, hj, -⟩
        rcases Relation.ReflTransGen.cases_head hreach with rfl | ⟨i', hturn, -⟩
        · exact absurd hj hi
        · exact absurd hturn.1 hi
      rw [udsRecvLoop, if_pos hi]
      dsimp only
      cases hn : (udsLook cjsonParse (memFrom data i)).2 with
      | none =>
          refine ⟨fun h => ⟨i, .refl, hi, h⟩, ?_⟩
          rintro ⟨j, hreach, -, hk⟩
          rcases Relation.ReflTransGen.cases_head hreach with rfl | ⟨i', hturn, -⟩
          · exact hk
          · obtain ⟨n, hn', -⟩ := hturn.2
            rw [hn] at hn'
            cases hn'
      | some n =>
          have hpos := udsLook_pos hn
          have hturn : UdsTurn cjsonParse data len i (i + n) := ⟨hi, n, hn, rfl⟩
          rw [List.mem_append, ih (by omega)]
          constructor
          · rintro (h | ⟨j, hreach, hj, hk⟩)
            · exact ⟨i, .refl, hi, h⟩
            · exact ⟨j, .head hturn hreach, hj, hk⟩
          · rintro ⟨j, hreach, hj, hk⟩
            rcases Relation.ReflTransGen.cases_head hreach with rfl | ⟨i', hturn', hreach⟩
            · exact .inl hk
            · obtain ⟨n', hn', rfl⟩ := hturn'.2
              obtain rfl := Option.some.inj (hn.symm.trans hn')
              exact .inr ⟨j, hreach, hj, hk⟩

theorem mem_udsRecv {k : UdsHanded} {len : Nat} :
    k ∈ (udsRecv cjsonParse data len).handed ↔
      ∃ j, Relation.ReflTransGen (UdsTurn cjsonParse data len) 0 j ∧ j < len ∧
        k ∈ (udsLook cjsonParse (memFrom data j)).1 :=
  mem_udsRecvLoop (Nat.lt_succ_self _)

/-- A byte that begins no header is passed by. -/
theorem udsRecvLoop_skip {len fuel i : Nat} (hi : i < len) (h : data i ≠ 0xaa) :
    udsRecvLoop cjsonParse data len (fuel + 1) i =
      udsRecvLoop cjsonParse data len fuel (i + 1) := by
  have hlook : udsLook cjsonParse (memFrom data i) = ([], some 1) :=
    if_neg fun hc => h hc.1.1
  rw [udsRecvLoop, if_pos hi, hlook]
  rfl

theorem udsRecvLoop_noise {noise : List UInt8} {len fuel i : Nat} (hq : UdsQuiet noise)
    (h : Reads data i noise) (hlen : i + noise.length ≤ len) :
    udsRecvLoop cjsonParse data len (fuel + noise.length) i =
      udsRecvLoop cjsonParse data len fuel (i + noise.length) := by
  induction noise generalizing i with
  | nil => rfl
  | cons b noise ih =>
      rw [List.length_cons] at hlen
      have hb : data i ≠ 0xaa := h.head ▸ hq b List.mem_cons_self
      have hrest := ih (fun c hc => hq c (List.mem_cons_of_mem _ hc)) h.tail (by omega)
      rw [List.length_cons, ← Nat.add_assoc, udsRecvLoop_skip (by omega) hb, hrest]
      congr 1
      omega

theorem udsRecvLoop_end {len fuel : Nat} :
    udsRecvLoop cjsonParse data len (fuel + 1) len = ⟨[], true⟩ := by
  rw [udsRecvLoop, if_neg (lt_irrefl len)]

/-- The outcome of a call that first handed over `h`. -/
def UdsOutcome.after (out : UdsOutcome) (h : UdsHanded) : UdsOutcome :=
  { out with handed := h :: out.handed }

/-- **A frame in the loop** is handed over, and the loop goes on behind it. -/
theorem udsRecvLoop_frame {len fuel i : Nat} (hm : m.WellFormed cjsonParse) (hi : i < len)
    (h : Reads data i m.frame) :
    ∃ request, udsRecvLoop cjsonParse data len (fuel + 1) i =
      (udsRecvLoop cjsonParse data len fuel (i + m.frame.length)).after
        ⟨m, checkSum m.checked, checkSum m.checked, request⟩ := by
  obtain ⟨request, hlook⟩ := udsLook_frame hm h.memFrom
  refine ⟨request, ?_⟩
  rw [udsRecvLoop, if_pos hi, hlook]
  rfl

/-- The call returns, and has handed over these messages, each with the sum it should
have. -/
structure HandsOver (ms : List UdsMsg) (out : UdsOutcome) : Prop where
  returns : out.returns = true
  msgs : out.handed.map UdsHanded.msg = ms
  checks : ∀ h ∈ out.handed, h.verify = h.verifyCheck

theorem HandsOver.bodies {ms : List UdsMsg} {out : UdsOutcome} (h : HandsOver ms out) :
    out.bodies = ms.map UdsMsg.json := by
  rw [← h.msgs, List.map_map]
  rfl

theorem HandsOver.nil : HandsOver [] ⟨[], true⟩ := ⟨rfl, rfl, fun _ h => absurd h List.not_mem_nil⟩

theorem HandsOver.after {ms : List UdsMsg} {out : UdsOutcome} {sum : UInt8}
    {request : Option UdsRequest} (h : HandsOver ms out) :
    HandsOver (m :: ms) (out.after ⟨m, sum, sum, request⟩) where
  returns := h.returns
  msgs := by rw [UdsOutcome.after, List.map_cons, h.msgs]
  checks := by
    intro k hk
    rcases List.mem_cons.mp hk with rfl | hk
    · rfl
    · exact h.checks k hk

theorem udsRecvLoop_noisy {noise : List UInt8} {ms : List (UdsMsg × List UInt8)}
    {len fuel i : Nat} (hnoise : UdsQuiet noise)
    (hms : ∀ p ∈ ms, p.1.WellFormed cjsonParse ∧ UdsQuiet p.2)
    (h : Reads data i (Scanner.noisy UdsMsg.frame noise ms))
    (hend : i + (Scanner.noisy UdsMsg.frame noise ms).length = len) (hfuel : len - i < fuel) :
    HandsOver (ms.map Prod.fst) (udsRecvLoop cjsonParse data len fuel i) := by
  induction ms generalizing noise i fuel with
  | nil =>
      have hend : i + noise.length = len := hend
      obtain ⟨n, rfl⟩ : ∃ n, fuel = n + 1 + noise.length := ⟨fuel - 1 - noise.length, by omega⟩
      rw [udsRecvLoop_noise hnoise h (by omega), hend, udsRecvLoop_end]
      exact .nil
  | cons p ms ih =>
      obtain ⟨m, noise'⟩ := p
      have hp := hms (m, noise') List.mem_cons_self
      have hm : m.WellFormed cjsonParse := hp.1
      have hnoise' : UdsQuiet noise' := hp.2
      rw [Scanner.noisy] at h hend
      have hsize := m.length_frame
      rw [List.length_append, List.length_append] at hend
      obtain ⟨n, rfl⟩ : ∃ n, fuel = n + 1 + noise.length := ⟨fuel - 1 - noise.length, by omega⟩
      obtain ⟨request, hframe⟩ := @udsRecvLoop_frame cjsonParse data m len n _ hm (by omega)
        h.right.left
      have hrest := @ih noise' n _ hnoise'
        (fun q hq => hms q (List.mem_cons_of_mem _ hq)) h.right.right (by omega) (by omega)
      rw [udsRecvLoop_noise hnoise h.left (by omega), hframe]
      exact hrest.after

theorem udsRecv_noisy {noise : List UInt8} {ms : List (UdsMsg × List UInt8)}
    (hnoise : UdsQuiet noise) (hms : ∀ p ∈ ms, p.1.WellFormed cjsonParse ∧ UdsQuiet p.2)
    (hdata : Reads data 0 (Scanner.noisy UdsMsg.frame noise ms)) :
    HandsOver (ms.map Prod.fst)
      (udsRecv cjsonParse data (Scanner.noisy UdsMsg.frame noise ms).length) :=
  udsRecvLoop_noisy hnoise hms hdata (Nat.zero_add _) (Nat.lt_succ_self _)

/-- **A whole buffer.**  Of well-formed frames with noise before, between and behind
them, one call of `uds_recv` hands over every JSON text once, in order, and nothing
else, whatever bytes the texts have and whatever lies behind the buffer. -/
theorem uds_recv_noisy {noise : List UInt8} {ms : List (UdsMsg × List UInt8)}
    (hnoise : UdsQuiet noise) (hms : ∀ p ∈ ms, p.1.WellFormed cjsonParse ∧ UdsQuiet p.2)
    (hdata : Reads data 0 (Scanner.noisy UdsMsg.frame noise ms)) :
    (udsRecv cjsonParse data (Scanner.noisy UdsMsg.frame noise ms).length).returns = true ∧
      (udsRecv cjsonParse data (Scanner.noisy UdsMsg.frame noise ms).length).bodies =
        ms.map fun p => p.1.json := by
  have hdone := udsRecv_noisy hnoise hms hdata
  refine ⟨hdone.returns, ?_⟩
  rw [hdone.bodies, List.map_map]
  rfl

/-- Frames alone. -/
theorem udsRecv_encs {ms : List UdsMsg} (hms : ∀ m ∈ ms, m.WellFormed cjsonParse)
    (hdata : Reads data 0 (Scanner.encs UdsMsg.frame ms)) :
    HandsOver ms (udsRecv cjsonParse data (Scanner.encs UdsMsg.frame ms).length) := by
  rw [← Scanner.noisy_nil] at hdata ⊢
  have hnone : UdsQuiet [] := fun _ hb => absurd hb List.not_mem_nil
  have hms' : ∀ p ∈ ms.map fun m => (m, ([] : List UInt8)),
      p.1.WellFormed cjsonParse ∧ UdsQuiet p.2 := by
    intro p hp
    obtain ⟨m, hm, rfl⟩ := List.mem_map.mp hp
    exact ⟨hms m hm, hnone⟩
  have hdone := udsRecv_noisy hnone hms' hdata
  rw [List.map_map, show Prod.fst ∘ (fun m : UdsMsg => (m, ([] : List UInt8))) = id from rfl,
    List.map_id] at hdone
  exact hdone

end

/-! ## Two requests with noise around them -/

/-- A parser for the text of `root` alone. -/
def textParse (root : CJson) (mem : Nat → UInt8) : Option CJson :=
  if memBytes mem 0 root.printUnformatted.length = root.printUnformatted then some root else none

theorem textParse_reads {root : CJson} {mem : Nat → UInt8}
    (h : Reads mem 0 root.printUnformatted) : textParse root mem = some root :=
  if_pos h.memBytes

/-- A heart beat. -/
def heartRoot : CJson := udsRoot (.object []) (some (cstr "HEART"))

def heartMsg (seqid : UInt16) : UdsMsg :=
  { encry := 0, seqid := seqid, json := heartRoot.printUnformatted }

theorem heartMsg_wellFormed (seqid : UInt16) :
    (heartMsg seqid).WellFormed (textParse heartRoot) where
  pos := show 0 < heartRoot.printUnformatted.length by decide +kernel
  fits := show heartRoot.printUnformatted.length ≤ 65535 by decide +kernel
  request := ⟨heartRoot, cstr "HEART", .object [], fun _ h => textParse_reads h, rfl, rfl⟩

/-- A list, as memory with zeros behind. -/
def listMem (l : List UInt8) : Nat → UInt8 := fun k => l.getD k 0

theorem reads_listMem (l : List UInt8) : Reads (listMem l) 0 l := by
  intro k c hc
  simp [listMem, List.getD, hc]

theorem uds_recv_noisy_two :
    (udsRecv (textParse heartRoot)
        (listMem (Scanner.noisy UdsMsg.frame [1, 0xbb] [(heartMsg 1, [0]), (heartMsg 2, [])]))
        (Scanner.noisy UdsMsg.frame [1, 0xbb] [(heartMsg 1, [0]), (heartMsg 2, [])]).length).returns
          = true ∧
      (udsRecv (textParse heartRoot)
        (listMem (Scanner.noisy UdsMsg.frame [1, 0xbb] [(heartMsg 1, [0]), (heartMsg 2, [])]))
        (Scanner.noisy UdsMsg.frame [1, 0xbb] [(heartMsg 1, [0]), (heartMsg 2, [])]).length).bodies
          = [heartRoot.printUnformatted, heartRoot.printUnformatted] := by
  have hquiet : UdsQuiet [1, 0xbb] := by decide
  refine uds_recv_noisy hquiet (fun p hp => ?_) (reads_listMem _)
  simp only [List.mem_cons, List.not_mem_nil, or_false] at hp
  rcases hp with rfl | rfl
  · exact ⟨heartMsg_wellFormed 1, by decide⟩
  · exact ⟨heartMsg_wellFormed 2, by decide⟩

end X50
