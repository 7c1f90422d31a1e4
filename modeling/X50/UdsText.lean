/-
# `X50.UdsText` — requests, from their text to what is carried out

`uds_recv` hands `cJSON_Parse` a pointer without a length, so that it reads on behind the
text of a request, through sum, tail and the frames that follow, up to the NUL behind the
read.  Here the parser is the one of `X50.CJsonParse`.  Requests that are printed, framed
and read in pieces ending between frames are carried out, exactly these and in order
(`uds_requests`); and whatever arrives, in whatever pieces, the data of a request carried
out is sound (`uds_requests_sound`).
-/
import X50.UdsBounds
import X50.UdsRound
import X50.CJsonRound

namespace X50

open X50.Lib

/-! ## The parser behind a pointer -/

/-- The C string at the front of `size` bytes of memory. -/
def strAt (size : Nat) (mem : Nat → UInt8) : CStr := cstrOf (memBytes mem 0 size)

/-- `cJSON_Parse` of a pointer to `size` bytes. -/
def cjsonParseAt (strtod : Strtod) (size : Nat) (mem : Nat → UInt8) : Option CJson :=
  CJson.parse strtod (strAt size mem)

/-- Text without a NUL is read to its end, with what follows up to one. -/
theorem strAt_append {size : Nat} {mem : Nat → UInt8} {text : CStr} (h : Reads mem 0 text)
    (hzero : (0 : UInt8) ∉ text) (hsize : text.length ≤ size) :
    ∃ rest, strAt size mem = text ++ rest := by
  have hsplit : memBytes mem 0 size = text ++ (memBytes mem 0 size).drop text.length := by
    have htake : (memBytes mem 0 size).take text.length = text := by
      refine List.ext_getElem? fun k => ?_
      by_cases hk : k < text.length
      · have hget := h k _ (List.getElem?_eq_getElem hk)
        rw [List.getElem?_take_of_lt hk, List.getElem?_eq_getElem hk]
        simp only [memBytes, List.getElem?_map, List.getElem?_range (Nat.lt_of_lt_of_le hk hsize),
          Option.map_some, hget]
      · rw [List.getElem?_eq_none (by simp; omega), List.getElem?_eq_none (by omega)]
    conv_lhs => rw [← List.take_append_drop text.length (memBytes mem 0 size), htake]
  have hne : ∀ c ∈ text, decide (c ≠ 0) = true := by
    intro c hc
    have hc0 : c ≠ 0 := fun h0 => hzero (h0 ▸ hc)
    simpa using hc0
  refine ⟨cstrOf ((memBytes mem 0 size).drop text.length), ?_⟩
  rw [strAt, cstrOf, hsplit, List.takeWhile_append_of_pos hne, ← hsplit]
  rfl

/-! ## What is carried out -/

/-- A request of the user interface. -/
structure UiRequest where
  encry : UInt8
  seqid : UInt16
  type : CStr
  data : CJson

/-- Its JSON. -/
def UiRequest.root (r : UiRequest) : CJson := udsRoot r.data (some r.type)

/-- Its frame says this. -/
def UiRequest.msg (r : UiRequest) : UdsMsg :=
  { encry := r.encry, seqid := r.seqid, json := r.root.printUnformatted }

/-- What it asks for. -/
def UiRequest.asks (r : UiRequest) : UdsRequest :=
  if r.type = cstr "GET" then .get r.data
  else if r.type = cstr "SET" then .set r.data
  else if r.type = cstr "GETALL" then .getall r.data
  else .heart

/-- A request that has a text, a length for it, and memory to lie in. -/
structure UiRequest.Sendable (size : Nat) (r : UiRequest) : Prop where
  type : (0 : UInt8) ∉ r.type
  data : CJson.Sound 999 r.data
  fits : r.msg.json.length ≤ 65535
  held : r.msg.json.length ≤ size

section

variable {strtod : Strtod} {size : Nat} {r : UiRequest} {data : Nat → UInt8}

theorem UiRequest.Sendable.sound (h : r.Sendable size) :
    CJson.Sound CJson.nestingLimit r.root := by
  have hnames : (0 : UInt8) ∉ cstr "Type" ∧ (0 : UInt8) ∉ cstr "Data" := by decide
  show CJson.Sound (999 + 1) r.root
  refine .object ?_ ?_
  · intro m hm
    rcases List.mem_cons.mp hm with rfl | hm
    · exact hnames.1
    · obtain rfl := List.mem_singleton.mp hm
      exact hnames.2
  · intro m hm
    rcases List.mem_cons.mp hm with rfl | hm
    · exact .string _ h.type
    · obtain rfl := List.mem_singleton.mp hm
      exact h.data

/-- The text of a request is read wherever it lies. -/
theorem UiRequest.Sendable.parses (hint : CJson.ReadsInts strtod) (h : r.Sendable size)
    (hdata : Reads data 0 r.msg.json) : cjsonParseAt strtod size data = some r.root := by
  obtain ⟨rest, hrest⟩ := strAt_append hdata (CJson.zero_not_mem_print h.sound) h.held
  rw [cjsonParseAt, hrest]
  refine CJson.parse_print hint h.sound ?_
  rintro ⟨n, hn⟩
  cases hn

theorem UiRequest.Sendable.wellFormed (hint : CJson.ReadsInts strtod) (h : r.Sendable size) :
    r.msg.WellFormed (cjsonParseAt strtod size) where
  pos := by
    obtain ⟨c, l, hc, -⟩ := CJson.printUnformatted_head r.root
    show 0 < r.root.printUnformatted.length
    rw [hc]
    exact Nat.succ_pos _
  fits := h.fits
  request := ⟨r.root, r.type, r.data, fun _ hmem => h.parses hint hmem, rfl, rfl⟩

/-- The text of a request is carried out as what it asks. -/
theorem UiRequest.Sendable.carriedOut (hint : CJson.ReadsInts strtod) (h : r.Sendable size)
    (hdata : Reads data 0 r.msg.json) :
    udsJsonParse (cjsonParseAt strtod size) data = some (0, some r.asks) := by
  have htype : r.root.getObjectItem (cstr "Type") = some (.string r.type) := rfl
  have hitem : r.root.getObjectItem (cstr "Data") = some r.data := rfl
  simp only [udsJsonParse, h.parses hint hdata, htype, hitem, CJson.valuestring,
    Option.bind_eq_bind, Option.bind_some, Option.pure_def, UiRequest.asks]
  split
  · rfl
  · split
    · rfl
    · split
      · rfl
      · rfl

end

/-! ## Runs -/

/-- The request was carried out from where its text lies. -/
def UdsHanded.Parsed (cjsonParse : (Nat → UInt8) → Option CJson) (k : UdsHanded) : Prop :=
  ∃ mem, Reads mem 0 k.msg.json ∧ k.request = (udsJsonParse cjsonParse mem).bind (·.2)

section

variable {cjsonParse : (Nat → UInt8) → Option CJson} {k : UdsHanded}

theorem udsLook_parsed {data : Nat → UInt8} (h : k ∈ (udsLook cjsonParse data).1) :
    k.Parsed cjsonParse := by
  unfold udsLook at h
  split at h
  case isTrue hc =>
      obtain rfl := List.mem_singleton.mp h
      refine ⟨memFrom data 7, ?_, rfl⟩
      intro i c hi
      simp only [udsMsgAt, X50.memBytes, List.getElem?_map] at hi
      obtain ⟨j, hj, rfl⟩ := Option.map_eq_some_iff.mp hi
      obtain ⟨hlt, rfl⟩ := List.getElem?_eq_some_iff.mp hj
      simp [memFrom]
  case isFalse => exact absurd h List.not_mem_nil

theorem udsRecv_parsed {data : Nat → UInt8} {len : Nat}
    (h : k ∈ (udsRecv cjsonParse data len).handed) : k.Parsed cjsonParse := by
  obtain ⟨j, -, -, hlook⟩ := mem_udsRecv.mp h
  exact udsLook_parsed hlook

/-- One read hands over nothing but what it parsed. -/
theorem recv_parsed {s s' : UdsClient} {chunk : List UInt8}
    (hs : ∀ k ∈ s.handed, k.Parsed cjsonParse)
    (hstep : (udsMachine cjsonParse).step s chunk = some s') :
    ∀ k ∈ s'.handed, k.Parsed cjsonParse := by
  have hstep : appSelectTcpServerRecvCb cjsonParse chunk s = some s' := hstep
  unfold appSelectTcpServerRecvCb at hstep
  split at hstep
  · dsimp only at hstep
    split at hstep
    · cases hstep
      intro k hk
      rcases List.mem_append.mp hk with hk | hk
      · exact hs k hk
      · exact udsRecv_parsed hk
    · cases hstep
  · cases hstep

/-- **Over a whole run**, everything handed over was parsed from its own text. -/
theorem run_parsed {recvBuf : Nat → UInt8} {s : UdsClient} {chunks : List (List UInt8)}
    (hrun : (udsMachine cjsonParse).run (.init recvBuf) chunks = some s) :
    ∀ k ∈ s.handed, k.Parsed cjsonParse :=
  Machine.run_invariant (V := fun _ => True) (P := fun s => ∀ k ∈ s.handed, k.Parsed cjsonParse)
    (fun _ _ _ _ hs hstep => recv_parsed hs hstep) (fun _ _ => trivial)
    (fun _ hk => absurd hk List.not_mem_nil) hrun

end

/-- **Requests are carried out**, exactly those sent and in the order they were sent, whatever
lies in `recv_buf`: when they are printed, framed and read in pieces that end between two
frames. -/
theorem uds_requests {strtod : Strtod} (hint : CJson.ReadsInts strtod) {size : Nat}
    {recvBuf : Nat → UInt8} {requests : List UiRequest} {chunks : List (List UInt8)}
    (hsend : ∀ r ∈ requests, r.Sendable size)
    (hsize : ∀ chunk ∈ chunks, 0 < chunk.length ∧ chunk.length ≤ recvBufSize)
    (hcat : chunks.flatten = requests.flatMap fun r => r.msg.frame)
    (hends : EndsBetween (requests.map UiRequest.msg) chunks) :
    ∃ s, (udsMachine (cjsonParseAt strtod size)).run (.init recvBuf) chunks = some s ∧
      s.handed.map UdsHanded.request = requests.map fun r => some r.asks := by
  have hmsgs : ∀ m ∈ requests.map UiRequest.msg, m.WellFormed (cjsonParseAt strtod size) := by
    intro m hm
    obtain ⟨r, hr, rfl⟩ := List.mem_map.mp hm
    exact (hsend r hr).wellFormed hint
  have hencs : chunks.flatten = Scanner.encs UdsMsg.frame (requests.map UiRequest.msg) := by
    rw [hcat, Scanner.encs, List.flatMap_map]
  obtain ⟨s, hrun, hbodies⟩ := uds_run_encs (s := .init recvBuf) hmsgs hsize hencs hends
  refine ⟨s, hrun, ?_⟩
  have htexts : s.handed.map (fun k => k.msg.json) = requests.map fun r => r.msg.json := by
    have hbodies : s.handed.map (fun k => k.msg.json) =
        (requests.map UiRequest.msg).map UdsMsg.json := hbodies
    rw [hbodies, List.map_map]
    rfl
  -- what is carried out for a text depends on the text alone
  let carriedOut : List UInt8 → Option UdsRequest := fun text =>
    (udsJsonParse (cjsonParseAt strtod size) (listMem text)).bind (·.2)
  have hasks : ∀ r ∈ requests, carriedOut r.msg.json = some r.asks := by
    intro r hr
    simp only [carriedOut, (hsend r hr).carriedOut hint (reads_listMem _), Option.bind_some]
  have hhanded : ∀ k ∈ s.handed, k.request = carriedOut k.msg.json := by
    intro k hk
    have htext : k.msg.json ∈ requests.map fun r => r.msg.json :=
      htexts ▸ List.mem_map_of_mem hk
    obtain ⟨r, hr, hjson⟩ := List.mem_map.mp htext
    obtain ⟨mem, hmem, hrequest⟩ := run_parsed hrun k hk
    rw [← hjson] at hmem ⊢
    rw [hrequest, (hsend r hr).carriedOut hint hmem, hasks r hr]
    rfl
  calc s.handed.map UdsHanded.request
      = s.handed.map (fun k => carriedOut k.msg.json) := List.map_congr_left hhanded
    _ = (s.handed.map fun k => k.msg.json).map carriedOut := by
        rw [List.map_map]
        rfl
    _ = requests.map fun r => some r.asks := by
        rw [htexts, List.map_map]
        exact List.map_congr_left hasks

/-- Switching on, asking for one attribute, and a heart beat. -/
def threeRequests : List UiRequest :=
  [{ encry := 0, seqid := 1, type := cstr "SET", data := .object [(cstr "SysPower", .number 1)] },
    { encry := 0, seqid := 2, type := cstr "GET", data := .object [(cstr "WifiMac", .null)] },
    { encry := 0, seqid := 3, type := cstr "HEART", data := .object [] }]

theorem threeRequests_sendable : ∀ r ∈ threeRequests, r.Sendable 4097 := by
  intro r hr
  simp only [threeRequests, List.mem_cons, List.not_mem_nil, or_false] at hr
  rcases hr with rfl | rfl | rfl
  · refine ⟨by decide, .object ?_ ?_, by decide +kernel, by decide +kernel⟩
    · rintro m hm
      obtain rfl := List.mem_singleton.mp hm
      decide
    · rintro m hm
      obtain rfl := List.mem_singleton.mp hm
      exact .number _ (by decide)
  · refine ⟨by decide, .object ?_ ?_, by decide +kernel, by decide +kernel⟩
    · rintro m hm
      obtain rfl := List.mem_singleton.mp hm
      decide
    · rintro m hm
      obtain rfl := List.mem_singleton.mp hm
      exact .null _
  · refine ⟨by decide, .object ?_ ?_, by decide +kernel, by decide +kernel⟩
    · exact fun m hm => absurd hm List.not_mem_nil
    · exact fun m hm => absurd hm List.not_mem_nil

/-- The three requests as two reads. -/
def twoReads : List (List UInt8) :=
  [(threeRequests.take 2).flatMap fun r => r.msg.frame,
    (threeRequests.drop 2).flatMap fun r => r.msg.frame]

theorem uds_requests_three :
    ∃ s, (udsMachine (cjsonParseAt CJson.decimalStrtod 4097)).run (.init fun _ => 0xaa) twoReads
        = some s ∧
      s.handed.map UdsHanded.request = threeRequests.map fun r => some r.asks := by
  refine uds_requests CJson.decimalStrtod_reads threeRequests_sendable (by decide +kernel)
    (by decide +kernel) ?_
  have hcuts : ∀ p ∈ twoReads.inits,
      Scanner.pending UdsMsg.frame (threeRequests.map UiRequest.msg) p.flatten = [] := by
    decide +kernel
  exact fun p hp => hcuts p ((List.mem_inits _ _).mpr hp)

/-! ## Whatever arrives -/

/-- The data a request brings. -/
def UdsRequest.data : UdsRequest → Option CJson
  | .get data => some data
  | .set data => some data
  | .getall data => some data
  | .heart => none

/-- The data of a request that `uds_json_parse` carries out is sound. -/
theorem udsJsonParse_sound {strtod : Strtod} {size : Nat} {mem : Nat → UInt8}
    {request : UdsRequest} {data : CJson}
    (h : (udsJsonParse (cjsonParseAt strtod size) mem).bind (·.2) = some request)
    (hdata : request.data = some data) : CJson.Sound 999 data := by
  unfold udsJsonParse at h
  split at h
  · cases h
  · rename_i root hroot
    have hsound : CJson.Sound (999 + 1) root := CJson.parse_sound hroot
    split at h
    · cases h
    · split at h
      · cases h
      · rename_i item hitem
        have hitem := hsound.getObjectItem hitem
        obtain ⟨ret, hret, hrequest⟩ := Option.bind_eq_some_iff.mp h
        obtain ⟨type, -, hcases⟩ := Option.bind_eq_some_iff.mp hret
        split at hcases
        · cases hcases
          cases hrequest
          cases hdata
          exact hitem
        · split at hcases
          · cases hcases
            cases hrequest
            cases hdata
            exact hitem
          · split at hcases
            · cases hcases
              cases hrequest
              cases hdata
              exact hitem
            · cases hcases
              cases hrequest
              cases hdata

/-- **Whatever arrives**, in whatever pieces: the data of every request that is carried out
has ints that fit, strings without NUL and at most 999 levels. -/
theorem uds_requests_sound {strtod : Strtod} {size : Nat} {recvBuf : Nat → UInt8}
    {chunks : List (List UInt8)} {s : UdsClient}
    (hrun : (udsMachine (cjsonParseAt strtod size)).run (.init recvBuf) chunks = some s)
    (chunk : List UInt8) :
    ∀ k ∈ s.handed ++
        (udsRecv (cjsonParseAt strtod size) (recvInto s.recvBuf chunk) chunk.length).handed,
      ∀ request ∈ k.request, ∀ data ∈ request.data, CJson.Sound 999 data := by
  intro k hk request hrequest data hdata
  have hparsed : k.Parsed (cjsonParseAt strtod size) := by
    rcases List.mem_append.mp hk with hk | hk
    · exact run_parsed hrun k hk
    · exact udsRecv_parsed hk
  obtain ⟨mem, -, hrequestAt⟩ := hparsed
  exact udsJsonParse_sound (hrequestAt ▸ hrequest) hdata

/-- A request for one attribute, and a second read that breaks off in a frame. -/
theorem uds_requests_sound_get :
    ∃ s, (udsMachine (cjsonParseAt CJson.decimalStrtod 4097)).run (.init fun _ => 0)
        [0xbb :: ((threeRequests.drop 1).take 1).flatMap fun r => r.msg.frame] = some s ∧
      s.handed.length = 1 ∧
      ∀ k ∈ s.handed ++ (udsRecv (cjsonParseAt CJson.decimalStrtod 4097)
          (recvInto s.recvBuf [0xaa, 0xaa]) 2).handed,
        ∀ request ∈ k.request, ∀ data ∈ request.data, CJson.Sound 999 data := by
  have hone : ((udsMachine (cjsonParseAt CJson.decimalStrtod 4097)).run (.init fun _ => 0)
      [0xbb :: ((threeRequests.drop 1).take 1).flatMap fun r => r.msg.frame]).map
        (fun s => s.handed.length) = some 1 := by decide +kernel
  obtain ⟨s, hs, hlen⟩ := Option.map_eq_some_iff.mp hone
  exact ⟨s, hs, hlen, uds_requests_sound hs [0xaa, 0xaa]⟩

end X50
