/-
# `X50.FrameBytes` — what a frame of the board is acted upon

`ecb_uart_parse_msg` hands on a pointer into its buffer and a length.  Behind the
payload lie the check sum, the tail and whatever the buffer held before.

Both consumers walk over records: `send_data_to_cloud` over commands of the
attribute table, the KEYPRESS loop over `0xf1`.  Neither asks whether the record
fits: they stay inside the payload, and what the frame does is decided by the
payload, exactly when its records are complete (`frame_own_payload_iff`).
-/
import X50.Lib.Tagged
import X50.CloudFrame
import X50.EcbUart
import X50.Memory

namespace X50

open X50.Lib

/-! ## Records -/

/-- `get_attr_report_event` looks at the byte behind the command. -/
def CloudAttr.pushes (a : CloudAttr) : Bool :=
  a.isReported && a.cloudValueType == .num &&
    (a.cloudKey == cstr "LStOvState" || a.cloudKey == cstr "RStOvState" ||
      a.cloudKey == cstr "ErrorCodeShow")

/-- How `send_data_to_cloud` reads a record of the attribute. -/
def CloudAttr.shape (a : CloudAttr) : Shape where
  skip := a.uartByteLen.toNat
  look := max a.uartByteLen.toNat (if a.pushes then 1 else 0)
  skip_le := Nat.le_max_left _ _

/-- How it reads a command byte. -/
def attrShape (attr : List CloudAttr) (cmd : UInt8) : Option Shape := do
  let j ← attrOfCmd attr cmd
  let a ← attr[j]?
  pure a.shape

/-- How the KEYPRESS loop reads a byte. -/
def keypressShape (c : UInt8) : Option Shape :=
  if c = 0xf1 then some ⟨1, 1, Nat.le_refl 1⟩ else none

/-- The bytes record `r` is made of: those that are stored, and the one that
decides on a push event. -/
def recordPlaces (attr : List CloudAttr) (r : Nat × Nat) : List Nat :=
  match attr[r.2]? with
  | none => []
  | some a =>
      (List.range a.uartByteLen.toNat).map (r.1 + 1 + ·) ++ if a.pushes then [r.1 + 1] else []

/-- The bytes a frame is acted upon, by their places from the payload on: `value`
is the memory from there on, `n` the length of the payload. -/
def framePlaces (attr : List CloudAttr) (command : UInt8) (value : Nat → UInt8) (n : Nat) :
    List Nat :=
  if command = 0x03 ∨ command = 0x0d then (records value n attr).flatMap (recordPlaces attr)
  else if command = 0x04 then (marks keypressShape value n (n + 1) 0).map (· + 1)
  else []

/-- Every record of the payload is complete. -/
def OwnRecords (attr : List CloudAttr) (m : EcbMsg) : Prop :=
  if m.command = 0x03 ∨ m.command = 0x0d then Complete (attrShape attr) m.payload
  else if m.command = 0x04 then Complete keypressShape m.payload
  else True

section Records

variable {value value' : Nat → UInt8} {n fuel i : Nat} {attr : List CloudAttr}

theorem attrShape_eq {cmd : UInt8} {j : Nat} {a : CloudAttr} (h : attrOfCmd attr cmd = some j)
    (ha : attr[j]? = some a) : attrShape attr cmd = some a.shape := by
  simp [attrShape, h, ha]

/-- The records begin where the tags are. -/
theorem map_fst_recordsFrom :
    (recordsFrom value n attr fuel i).map Prod.fst = marks (attrShape attr) value n fuel i := by
  induction fuel generalizing i with
  | zero => rfl
  | succ fuel ih =>
      by_cases hi : i < n
      · rw [marks, if_pos hi]
        cases hj : attrOfCmd attr (value i) with
        | none =>
            rw [recordsFrom_skip hi hj, ih, show attrShape attr (value i) = none by simp [attrShape, hj]]
        | some j =>
            obtain ⟨a, ha, -⟩ := attrOfCmd_some hj
            rw [recordsFrom_cons hi hj ha, attrShape_eq hj ha, List.map_cons, ih]
            rfl
      · rw [recordsFrom_end (by omega), marks, if_neg hi]
        rfl

/-- Which records there are is decided by the payload. -/
theorem recordsFrom_congr_value (h : ∀ k < n, value k = value' k) :
    recordsFrom value n attr fuel i = recordsFrom value' n attr fuel i := by
  induction fuel generalizing i with
  | zero => rfl
  | succ fuel ih =>
      simp only [recordsFrom, ih]
      split
      · rename_i hi
        rw [h i hi]
      · rfl

/-- A record lies inside the payload exactly when its last byte does. -/
theorem recordPlaces_inside {r : Nat × Nat} {a : CloudAttr} (ha : attr[r.2]? = some a)
    (hr : r.1 < n) : (∀ k ∈ recordPlaces attr r, k < n) ↔ r.1 + a.shape.look < n := by
  simp only [recordPlaces, ha, CloudAttr.shape]
  constructor
  · intro h
    rcases Nat.eq_zero_or_pos a.uartByteLen.toNat with hz | hpos
    · by_cases hp : a.pushes = true
      · have := h (r.1 + 1) (by simp [hp])
        simp only [hz, hp, if_true]
        omega
      · simpa [hz, hp] using hr
    · have := h (r.1 + 1 + (a.uartByteLen.toNat - 1)) (by
        refine List.mem_append_left _ (List.mem_map.mpr ⟨_, List.mem_range.mpr ?_, rfl⟩)
        omega)
      have hone : (if a.pushes = true then 1 else 0) ≤ 1 := by split <;> decide
      omega
  · intro h k hk
    rcases List.mem_append.mp hk with hk | hk
    · obtain ⟨d, hd, rfl⟩ := List.mem_map.mp hk
      have := List.mem_range.mp hd
      omega
    · split at hk
      · obtain rfl := List.mem_singleton.mp hk
        have : 1 ≤ max a.uartByteLen.toNat (if a.pushes = true then 1 else 0) := by
          simp_all
        omega
      · exact absurd hk List.not_mem_nil

end Records

/-! ## What is read -/

/-- An attribute without a push event is not asked for one. -/
theorem getAttrReportEvent_quiet {a : CloudAttr} {v : Option UInt8} {all : Bool}
    (h : a.pushes = false) : getAttrReportEvent a v all = some [] := by
  simp only [CloudAttr.pushes, Bool.and_eq_false_iff, Bool.or_eq_false_iff, beq_eq_false_iff_ne,
    ne_eq] at h
  unfold getAttrReportEvent
  rcases h with (hr | ht) | ⟨⟨hl, hr⟩, he⟩
  · rw [hr]
    rfl
  · rw [if_pos ht, ite_self]
  · rw [if_neg hl, if_neg hr, if_neg he, ite_self, ite_self]

theorem getAttrReportEvent_congr {a : CloudAttr} {v v' : Option UInt8}
    (h : a.pushes = true → v = v') :
    getAttrReportEvent a v false = getAttrReportEvent a v' false := by
  cases hp : a.pushes with
  | false => rw [getAttrReportEvent_quiet hp, getAttrReportEvent_quiet hp]
  | true => rw [h hp]

/-- **What a record does is decided by its bytes.** -/
theorem sendDataRecord_congr {value value' : Nat → UInt8} {r : Nat × Nat} {b : Board}
    {root : Members} (h : ∀ k ∈ recordPlaces b.dev.attr r, value k = value' k) :
    sendDataRecord value r.1 r.2 b root = sendDataRecord value' r.1 r.2 b root := by
  unfold sendDataRecord
  cases ha : b.dev.attr[r.2]? with
  | none => simp only [Option.bind_eq_bind, Option.bind_none]
  | some a =>
      simp only [recordPlaces, ha, List.forall_mem_append] at h
      have hevent : getAttrReportEvent a (some (value (r.1 + 1))) false =
          getAttrReportEvent a (some (value' (r.1 + 1))) false := by
        refine getAttrReportEvent_congr fun hp => ?_
        rw [h.2 (r.1 + 1) (by simp [hp])]
      have hbytes : (List.range a.uartByteLen.toNat).map (fun k => value (r.1 + 1 + k)) =
          (List.range a.uartByteLen.toNat).map fun k => value' (r.1 + 1 + k) := by
        refine List.map_congr_left fun k hk => ?_
        exact h.1 _ (List.mem_map_of_mem hk)
      rw [Option.bind_eq_bind, Option.bind_some, Option.bind_eq_bind, Option.bind_some, hevent]
      refine congrArg _ (funext fun events => ?_)
      dsimp only
      rw [hbytes]

/-- The places of a record are a matter of the layout. -/
theorem recordPlaces_congr {attr attr' : List CloudAttr} (h : SameLayout attr attr')
    {r : Nat × Nat} : recordPlaces attr' r = recordPlaces attr r := by
  cases ha : attr[r.2]? with
  | none =>
      have hlen : attr.length ≤ r.2 := List.getElem?_eq_none_iff.mp ha
      have ha' : attr'[r.2]? = none := List.getElem?_eq_none_iff.mpr (h.length ▸ hlen)
      simp only [recordPlaces, ha, ha']
  | some a =>
      obtain ⟨a', ha', hl⟩ := h.get ha
      have hp : a'.pushes = a.pushes := by
        simp only [CloudAttr.pushes, CloudAttr.layout_isReported hl,
          CloudAttr.layout_cloudValueType hl, CloudAttr.layout_cloudKey hl]
      simp only [recordPlaces, ha, ha', CloudAttr.layout_uartByteLen hl, hp]

/-- Memory that agrees on the payload and on its records has the same effect. -/
theorem sendDataToCloud_congr {value value' : Nat → UInt8} {n : Nat} {b : Board}
    (hin : ∀ k < n, value k = value' k)
    (hown : ∀ r ∈ records value n b.dev.attr, ∀ k ∈ recordPlaces b.dev.attr r, k < n) :
    sendDataToCloud value n b = sendDataToCloud value' n b := by
  have hrec : records value' n b.dev.attr = records value n b.dev.attr :=
    (recordsFrom_congr_value hin).symm
  rw [sendDataToCloud_eq, sendDataToCloud_eq, hrec]
  congr 1
  refine foldlM_congr_keeps (I := fun out => SameLayout b.dev.attr out.1.dev.attr)
    (fun out r out' hout h => hout.trans (sendDataRecord_sameLayout h)) (fun out r hr hout => ?_)
    (.refl _)
  refine sendDataRecord_congr fun k hk => ?_
  rw [recordPlaces_congr hout] at hk
  exact hin k (hown r hr k hk)

/-- The key codes are the bytes behind the tags. -/
theorem keypressValues_drop {payload next : List UInt8} {value : Nat → UInt8} {fuel i : Nat}
    (hv : Reads value 0 (payload ++ next)) (hn : next ≠ []) (hf : payload.length < i + fuel) :
    keypressValues (payload.drop i) next =
      (marks keypressShape value payload.length fuel i).map fun k => value (k + 1) := by
  have hbyte : ∀ k c, (payload ++ next)[k]? = some c → value k = c := by
    intro k c hc
    simpa using hv k c hc
  induction fuel generalizing i with
  | zero =>
      rw [List.drop_of_length_le (by omega)]
      rfl
  | succ fuel ih =>
      by_cases hi : i < payload.length
      · have hc : value i = payload[i] :=
          hbyte i _ (by rw [List.getElem?_append_left hi, List.getElem?_eq_getElem hi])
        rw [marks, if_pos hi, hc, List.drop_eq_getElem_cons hi]
        by_cases hlast : i + 1 < payload.length
        · have hc' : value (i + 1) = payload[i + 1] :=
            hbyte _ _ (by rw [List.getElem?_append_left hlast, List.getElem?_eq_getElem hlast])
          rw [List.drop_eq_getElem_cons hlast]
          by_cases hk : payload[i] = 0xf1
          · rw [keypressValues, if_pos hk, keypressShape, if_pos hk, List.map_cons, hc',
              ih (by omega)]
          · rw [keypressValues, if_neg hk, keypressShape, if_neg hk,
              ← List.drop_eq_getElem_cons hlast]
            exact ih (by omega)
        · rw [List.drop_of_length_le (by omega)]
          obtain ⟨c, rest, rfl⟩ := List.exists_cons_of_ne_nil hn
          have hc' : value (i + 1) = c := by
            refine hbyte _ _ ?_
            rw [List.getElem?_append_right (by omega), show i + 1 - payload.length = 0 by omega]
            rfl
          have hend : ∀ j, i + 1 ≤ j → marks keypressShape value payload.length fuel j = [] := by
            intro j hj
            cases fuel with
            | zero => rfl
            | succ fuel => rw [marks, if_neg (by omega)]
          by_cases hk : payload[i] = 0xf1
          · rw [keypressValues, if_pos hk, keypressShape, if_pos hk]
            simp only [hend _ (show i + 1 ≤ i + 1 + 1 by omega), List.map_cons, List.map_nil, hc',
              byteAt, List.getD_cons_zero]
          · rw [keypressValues, if_neg hk, keypressShape, if_neg hk]
            simp only [hend _ (Nat.le_refl _), List.map_nil]
      · rw [List.drop_of_length_le (by omega), marks, if_neg hi]
        rfl

theorem keypressValues_eq {payload next : List UInt8} {value : Nat → UInt8}
    (hv : Reads value 0 (payload ++ next)) (hn : next ≠ []) :
    keypressValues payload next =
      (marks keypressShape value payload.length (payload.length + 1) 0).map
        fun k => value (k + 1) := by
  have h : keypressValues (payload.drop 0) next = _ :=
    keypressValues_drop hv hn (show payload.length < 0 + (payload.length + 1) by omega)
  rwa [List.drop_zero] at h

/-- **The places of a frame lie inside its payload exactly when its records are
complete.** -/
theorem framePlaces_inside_iff {attr : List CloudAttr} {m : EcbMsg} {value : Nat → UInt8}
    (hv : Reads value 0 m.payload) :
    (∀ k ∈ framePlaces attr m.command value m.payload.length, k < m.payload.length) ↔
      OwnRecords attr m := by
  have hbyte : ∀ k c, m.payload[k]? = some c → value k = c := by
    intro k c hc
    simpa using hv k c hc
  unfold framePlaces OwnRecords
  split
  · rw [complete_iff hbyte, ← map_fst_recordsFrom, List.forall_mem_map]
    simp only [List.mem_flatMap, forall_exists_index, and_imp]
    rw [forall_comm]
    refine forall_congr' fun r => ?_
    rw [forall_comm]
    refine forall_congr' fun hr => ?_
    have hcmd : attrOfCmd attr (value r.1) = some r.2 := attrOfCmd_of_mem_recordsFrom hr
    obtain ⟨a, ha, -⟩ := attrOfCmd_some hcmd
    have hlt : r.1 < m.payload.length := by
      have hmark : r.1 ∈ marks (attrShape attr) value m.payload.length (m.payload.length + 1) 0 := by
        rw [← map_fst_recordsFrom]
        exact List.mem_map_of_mem hr
      exact (mem_marks hmark).1
    rw [recordPlaces_inside ha hlt, attrShape_eq hcmd ha]
    simp
  · split
    · rw [complete_iff hbyte, List.forall_mem_map]
      refine forall₂_congr fun k hk => ?_
      have hs := (mem_marks hk).2
      unfold keypressShape at hs ⊢
      split
      · simp
      · rename_i hne
        simp [hne] at hs
    · simp

/-! ## What a frame does -/

/-- What the memory holds: the bytes, then whatever was there before. -/
def memoryOf (bytes : List UInt8) (stale : Nat → UInt8) (k : Nat) : UInt8 :=
  bytes.getD k (stale (k - bytes.length))

theorem reads_memoryOf (bytes : List UInt8) (stale : Nat → UInt8) :
    Reads (memoryOf bytes stale) 0 bytes := by
  intro k c hc
  simp [memoryOf, hc]

/-- The board behind an action of `ecb_uart_parse_msg`. -/
def EcbAction.onBoard (stale : Nat → UInt8) (b : Board) : EcbAction → Option Board
  | .sendDataToCloud payload next =>
      X50.sendDataToCloud (memoryOf (payload ++ next) stale) payload.length b
  | _ => some b

/-- The action is `send_data_to_cloud`. -/
def EcbAction.isSendData : EcbAction → Bool
  | .sendDataToCloud _ _ => true
  | _ => false

/-- What a frame does: to the board, and what else. -/
def frameEffect (stale : Nat → UInt8) (e : EcbEvent) (b : Board) :
    Option Board × List EcbAction :=
  (e.actions.foldlM (EcbAction.onBoard stale) b, e.actions.filter fun act => !act.isSendData)

/-- `ecb_uart_parse_msg` accepts the frame of `m` in `input`, and finds `next`
behind its payload. -/
def Accepted (input : List UInt8) (m : EcbMsg) (next : List UInt8) : Prop :=
  ∃ end₀, EcbEvent.dispatch m next ∈ (ecbUartParseMsg input end₀).events

/-- The frame of `m` acts on its own payload. -/
structure OwnPayload (b : Board) (m : EcbMsg) : Prop where
  /-- it is acted upon bytes of its payload only -/
  inside : ∀ input next stale, Accepted input m next →
    ∀ k ∈ framePlaces b.dev.attr m.command (memoryOf (m.payload ++ next) stale) m.payload.length,
      k < m.payload.length
  /-- and what follows makes no difference -/
  same : ∀ input input' next next' stale stale', Accepted input m next → Accepted input' m next' →
    frameEffect stale (.dispatch m next) b = frameEffect stale' (.dispatch m next') b

/-- An accepted frame has its check sum and its tail behind its payload. -/
theorem Accepted.next_ne_nil {input : List UInt8} {m : EcbMsg} {next : List UInt8}
    (h : Accepted input m next) : next ≠ [] := by
  obtain ⟨end₀, h⟩ := h
  unfold ecbUartParseMsg at h
  split at h
  · simp at h
  · split at h
    · simp at h
    · unfold ecbParseFrame at h
      split at h
      · simp at h
      · dsimp only at h
        split at h
        · simp at h
        · split at h
          · split at h <;> simp at h
          · rename_i hlen
            split at h
            · simp at h
            · simp only [List.mem_singleton, EcbEvent.dispatch.injEq] at h
              rw [h.2]
              intro hnil
              have := List.drop_eq_nil_iff.mp hnil
              omega

theorem reads_payload {payload next : List UInt8} (stale : Nat → UInt8) :
    Reads (memoryOf (payload ++ next) stale) 0 payload :=
  (reads_memoryOf (payload ++ next) stale).left

theorem memoryOf_payload {payload next next' : List UInt8} {stale stale' : Nat → UInt8} {k : Nat}
    (hk : k < payload.length) :
    memoryOf (payload ++ next) stale k = memoryOf (payload ++ next') stale' k := by
  have hget : payload[k]? = some payload[k] := List.getElem?_eq_getElem hk
  have h := @reads_payload payload next stale k _ hget
  have h' := @reads_payload payload next' stale' k _ hget
  rw [Nat.zero_add] at h h'
  exact h.trans h'.symm

theorem onBoard_quiet {stale : Nat → UInt8} {b : Board} {acts : List EcbAction}
    (h : ∀ act ∈ acts, act.isSendData = false) :
    acts.foldlM (EcbAction.onBoard stale) b = some b := by
  induction acts with
  | nil => rfl
  | cons act acts ih =>
      have hact : EcbAction.onBoard stale b act = some b := by
        cases act with
        | sendDataToCloud => exact absurd (h _ List.mem_cons_self) (by simp [EcbAction.isSendData])
        | _ => rfl
      rw [List.foldlM_cons, hact]
      exact ih fun act hmem => h act (List.mem_cons_of_mem _ hmem)

/-- Other frames than EVENT and GETACK leave the table alone. -/
theorem actions_quiet {m : EcbMsg} {next : List UInt8}
    (hm : ¬ (m.command = 0x03 ∨ m.command = 0x0d)) :
    ∀ act ∈ (EcbEvent.dispatch m next).actions, act.isSendData = false := by
  obtain ⟨h3, hd⟩ := not_or.mp hm
  intro act hact
  simp only [EcbEvent.actions, h3, hd, if_false] at hact
  split at hact
  · rcases List.mem_cons.mp hact with rfl | hact
    · rfl
    · obtain ⟨c, -, rfl⟩ := List.mem_map.mp hact
      rfl
  · split at hact
    · rcases List.mem_pair.mp hact with rfl | rfl <;> rfl
    · split at hact <;> (obtain rfl := List.mem_singleton.mp hact; rfl)

/-- What follows complete records makes no difference. -/
theorem frameEffect_congr {b : Board} {m : EcbMsg} {next next' : List UInt8}
    {stale stale' : Nat → UInt8} (hown : OwnRecords b.dev.attr m) (hn : next ≠ [])
    (hn' : next' ≠ []) :
    frameEffect stale (.dispatch m next) b = frameEffect stale' (.dispatch m next') b := by
  have hin := (framePlaces_inside_iff (@reads_payload m.payload next stale)).mpr hown
  have hagree : ∀ k < m.payload.length,
      memoryOf (m.payload ++ next) stale k = memoryOf (m.payload ++ next') stale' k :=
    fun _ => memoryOf_payload
  have hdata : (m.command = 0x03 ∨ m.command = 0x0d) →
      sendDataToCloud (memoryOf (m.payload ++ next) stale) m.payload.length b =
        sendDataToCloud (memoryOf (m.payload ++ next') stale') m.payload.length b := by
    intro hc
    rw [framePlaces, if_pos hc] at hin
    refine sendDataToCloud_congr hagree fun r hr k hk => ?_
    exact hin k (List.mem_flatMap.mpr ⟨r, hr, hk⟩)
  have hkeys : m.command = 0x04 →
      keypressValues m.payload next = keypressValues m.payload next' := by
    intro hc
    have hno : ¬ (m.command = 0x03 ∨ m.command = 0x0d) := by simp [hc]
    rw [framePlaces, if_neg hno, if_pos hc, List.forall_mem_map] at hin
    rw [keypressValues_eq (reads_memoryOf (m.payload ++ next) stale) hn,
      keypressValues_eq (reads_memoryOf (m.payload ++ next') stale') hn', ← marks_congr hagree]
    exact List.map_congr_left fun k hk => hagree _ (hin k hk)
  by_cases hm : m.command = 0x03 ∨ m.command = 0x0d
  · unfold frameEffect
    rcases hm with hc | hc <;>
      simp [EcbEvent.actions, hc, EcbAction.onBoard, EcbAction.isSendData, hdata]
  · have hacts : (EcbEvent.dispatch m next).actions = (EcbEvent.dispatch m next').actions := by
      obtain ⟨h3, hd⟩ := not_or.mp hm
      simp only [EcbEvent.actions, h3, hd, if_false]
      split
      · rename_i hc
        rw [hkeys hc]
      · rfl
    rw [frameEffect, frameEffect, onBoard_quiet (actions_quiet hm),
      onBoard_quiet (actions_quiet hm), hacts]

/-- A frame of the board acts on its own payload exactly when its records are
complete: each command has as many bytes behind it as its attribute is long, one
that decides on a push event has at least one, and each `0xf1` has its key code. -/
theorem frame_own_payload_iff (b : Board) (input : List UInt8) (m : EcbMsg) (next : List UInt8)
    (h : Accepted input m next) : OwnPayload b m ↔ OwnRecords b.dev.attr m := by
  constructor
  · intro hown
    exact (framePlaces_inside_iff (reads_payload fun _ => 0)).mp
      (hown.inside input next (fun _ => 0) h)
  · intro hown
    exact {
      inside := fun _ _ stale _ => (framePlaces_inside_iff (reads_payload stale)).mpr hown
      same := fun _ _ _ _ _ _ hacc hacc' =>
        frameEffect_congr hown hacc.next_ne_nil hacc'.next_ne_nil }

/-! ## A key code that is not there -/

/-- A KEYPRESS frame that ends with `0xf1`, and these bytes for its check sum. -/
def cutKeypress (hi lo : UInt8) : List UInt8 :=
  [0xe6, 0xe6, 0, 1, 0x04, 0, 1, 0xf1, hi, lo, 0x6e, 0x6e]

/-- A complete key code is all the frame acts on. -/
theorem frame_own_payload_keypress :
    OwnPayload (cookbookBoard noRecipes) ⟨0x04, 1, [0xf1, 0x09]⟩ := by
  refine (frame_own_payload_iff _ [0xe6, 0xe6, 0, 1, 0x04, 0, 2, 0xf1, 0x09, 0, 0, 0x6e, 0x6e]
    ⟨0x04, 1, [0xf1, 0x09]⟩ [0, 0, 0x6e, 0x6e] ⟨0, ?_⟩).mpr ?_
  · decide
  · exact .record rfl (by decide) .nil

/-- Its check sum is taken for the key code: `0xff` is a reboot. -/
theorem keypress_reads_check_sum :
    Accepted (cutKeypress 0xff 0) ⟨0x04, 1, [0xf1]⟩ [0xff, 0, 0x6e, 0x6e] ∧
      (EcbEvent.dispatch ⟨0x04, 1, [0xf1]⟩ [0xff, 0, 0x6e, 0x6e]).actions =
        [.sendAck 1, .keypressLocalPro 0xff] ∧
      (EcbEvent.dispatch ⟨0x04, 1, [0xf1]⟩ [0, 0, 0x6e, 0x6e]).actions =
        [.sendAck 1, .keypressLocalPro 0] ∧
      ¬ OwnPayload (cookbookBoard noRecipes) ⟨0x04, 1, [0xf1]⟩ := by
  have hacc : Accepted (cutKeypress 0xff 0) ⟨0x04, 1, [0xf1]⟩ [0xff, 0, 0x6e, 0x6e] :=
    ⟨0, by decide⟩
  have hacc' : Accepted (cutKeypress 0 0) ⟨0x04, 1, [0xf1]⟩ [0, 0, 0x6e, 0x6e] := ⟨0, by decide⟩
  refine ⟨hacc, by decide, by decide, fun hown => ?_⟩
  have hsame := hown.same _ _ _ _ (fun _ => 0) (fun _ => 0) hacc hacc'
  exact absurd (congrArg Prod.snd hsame) (by decide)

end X50
