/-
# `X50.Fault` — raising and clearing faults

`ErrorCode` is a word of 32 bits in the attribute table, one bit for each fault.
`gesture_send_error_cloud` reads it, changes one bit and puts it back by way of a
frame it makes up itself; `send_error_to_cloud` does so without reading.

What the functions read and write is not the same word.  `get_ErrorCode` looks
for its attribute with a pointer that it never moves, and reads the four bytes
in the order of the machine; and the frame has bits 6 to 13 where bits 8 to 15
belong.
-/
import X50.CloudSized
import X50.Lib.BigEndian

namespace X50

open X50.Lib

/-! ## The code -/

/-- `get_ErrorCode`: the loop compares the key of the FIRST attribute every time,
and `*((int *)attr->value)` is little-endian. -/
def getErrorCode (b : Board) : Option (BitVec 32) :=
  match b.dev.attr with
  | [] => some 0
  | attr :: _ =>
      if attr.cloudKey = cstr "ErrorCode" then do
        let b₀ ← attr.value[0]?
        let b₁ ← attr.value[1]?
        let b₂ ← attr.value[2]?
        let b₃ ← attr.value[3]?
        pure (b₃.toBitVec ++ b₂.toBitVec ++ b₁.toBitVec ++ b₀.toBitVec)
      else some 0

/-- `get_ErrorCodeShow`, with the same loop. -/
def getErrorCodeShow (b : Board) : Option UInt8 :=
  match b.dev.attr with
  | [] => some 0
  | attr :: _ => if attr.cloudKey = cstr "ErrorCodeShow" then attr.value[0]? else some 0

/-- Conversion to `unsigned char`. -/
def lowByte (x : BitVec 32) : UInt8 := ⟨x.setWidth 8⟩

/-- `1 << (error_code - 1)` -/
def faultBit (errorCode : Int) : BitVec 32 := BitVec.twoPow 32 (errorCode - 1).toNat

/-- `payload`, an array of eight bytes on the stack, and what lies behind it. -/
def localArray (payload : List UInt8) (stack : Nat → UInt8) (k : Nat) : UInt8 :=
  if k < 8 then payload.getD k 0 else stack (k - 8)

/-- `gesture_send_error_cloud`.  A shift by less than nothing, or by the width,
is not defined. -/
def gestureSendErrorCloud (errorCode : Int) (clear : Bool) (stack : Nat → UInt8) (b : Board) :
    Option Board := do
  let code ← getErrorCode b
  if 1 ≤ errorCode ∧ errorCode ≤ 32 then
    let code := if clear then code &&& ~~~(faultBit errorCode) else code ||| faultBit errorCode
    let payload := [0x0a, lowByte (code >>> 24), lowByte (code >>> 16), lowByte (code >>> 6),
      lowByte code]
    let payload ← (if clear then some payload
      else (getErrorCodeShow b).map fun shown =>
        if shown = 0 then payload ++ [0x0b, UInt8.ofInt errorCode] else payload)
    sendDataToCloud (localArray payload stack) payload.length b
  else none

/-- `send_error_to_cloud`; `code` is an `int`, and `>>` keeps its sign. -/
def sendErrorToCloud (errorCode : Int) (stack : Nat → UInt8) (b : Board) : Option Board :=
  if errorCode ≤ 32 then
    let code := if 0 < errorCode then faultBit errorCode else 0
    let payload := [0x0a, lowByte (code.sshiftRight 24), lowByte (code.sshiftRight 16),
      lowByte (code.sshiftRight 6), lowByte code, 0x0b, UInt8.ofInt errorCode]
    sendDataToCloud (localArray payload stack) payload.length b
  else none

/-! ## The machine -/

/-- The calls about faults, each with what lies behind its array. -/
inductive FaultCall where
  | gesture (errorCode : Int) (clear : Bool) (stack : Nat → UInt8)
  | send (errorCode : Int) (stack : Nat → UInt8)

def FaultCall.errorCode : FaultCall → Int
  | .gesture errorCode _ _ => errorCode
  | .send errorCode _ => errorCode

/-- A fault number. -/
def FaultCall.Valid (call : FaultCall) : Prop := 1 ≤ call.errorCode ∧ call.errorCode ≤ 32

/-- What a call should make of the word: one bit set, one bit cleared, or one
bit alone. -/
def FaultCall.apply : FaultCall → BitVec 32 → BitVec 32
  | .gesture errorCode true _, word => word &&& ~~~(faultBit errorCode)
  | .gesture errorCode false _, word => word ||| faultBit errorCode
  | .send errorCode _, _ => faultBit errorCode

/-- What a call does. -/
def FaultCall.run : FaultCall → Board → Option Board
  | .gesture errorCode clear stack, b => gestureSendErrorCloud errorCode clear stack b
  | .send errorCode stack, b => sendErrorToCloud errorCode stack b

/-- The board, and the word the faults should have left. -/
structure FaultState where
  board : Board
  word : BitVec 32

/-- The calls, beside what they should do. -/
def faultMachine : Machine FaultState FaultCall where
  step s call := (call.run s.board).map fun b => ⟨b, call.apply s.word⟩

/-- Four bytes, as `get_attr_report_value` decodes them. -/
def wordOf (bytes : List UInt8) : BitVec 32 := BitVec.ofNat 32 (BigEndian.decode bytes)

/-- `ErrorCode` is stored and reported as `word`; `j` is its place. -/
def ErrorCodeIs (j : Nat) (b : Board) (word : BitVec 32) : Prop :=
  (∃ a, b.dev.attr[j]? = some a ∧ wordOf a.bytes = word) ∧
    ∃ out, getAttrReportValue j b [] = some out ∧
      out.2 = [(cstr "ErrorCode", .number word.toInt)]

/-- The `ErrorCode` of a profile. -/
structure IsErrorCode (a : CloudAttr) : Prop where
  cloudKey : a.cloudKey = cstr "ErrorCode"
  num : a.cloudValueType = .num
  isReported : a.isReported = true
  uartCmd : a.uartCmd = 10
  uartByteLen : a.uartByteLen = 4
  value : 4 ≤ a.value.length

/-! ## The attribute -/

theorem IsErrorCode.congr {a a' : CloudAttr} (h : IsErrorCode a) (hl : a'.layout = a.layout) :
    IsErrorCode a' where
  cloudKey := (CloudAttr.layout_cloudKey hl).trans h.cloudKey
  num := (CloudAttr.layout_cloudValueType hl).trans h.num
  isReported := (CloudAttr.layout_isReported hl).trans h.isReported
  uartCmd := (CloudAttr.layout_uartCmd hl).trans h.uartCmd
  uartByteLen := (CloudAttr.layout_uartByteLen hl).trans h.uartByteLen
  value := by
    rw [CloudAttr.layout_length hl]
    exact h.value

theorem toInt_wordOf {bytes : List UInt8} : (wordOf bytes).toInt = cloudVal bytes :=
  BitVec.toInt_ofNat' _

/-- It is reported as what it is stored as. -/
theorem errorCodeIs_iff {j : Nat} {b : Board} {a : CloudAttr} {word : BitVec 32}
    (ha : b.dev.attr[j]? = some a) (h : IsErrorCode a) :
    ErrorCodeIs j b word ↔ wordOf a.bytes = word := by
  constructor
  · rintro ⟨⟨a', ha', hw⟩, -⟩
    rwa [Option.some.inj (ha.symm.trans ha')]
  · rintro rfl
    refine ⟨⟨a, ha, rfl⟩, ?_⟩
    have hlen : ¬ a.value.length < a.uartByteLen.toNat := by
      have := h.value
      rw [h.uartByteLen]
      exact Nat.not_lt.mpr this
    have hkey : a.cloudKey ≠ cstr "CookbookID" := by
      rw [h.cloudKey]
      decide
    have hitem : attrItem j a b = some (b, some (.number (cloudVal a.bytes))) := by
      simp only [attrItem, h.num, reduceCtorEq, if_false, if_neg hlen, if_neg hkey]
    refine ⟨(b.noteReported j, [(cstr "ErrorCode", .number (wordOf a.bytes).toInt)]), ?_, rfl⟩
    simp only [getAttrReportValue, ha, Option.bind_eq_bind, Option.bind_some, h.isReported,
      Bool.not_true, Bool.false_eq_true, if_false, hitem, Option.pure_def, List.nil_append,
      h.cloudKey, toInt_wordOf]

/-! ## The frames -/

/-- The payload of a fault frame: the word, as the code takes it apart, and the
number to be shown. -/
def faultPayload (code : BitVec 32) (shown : Option UInt8) : List UInt8 :=
  [0x0a, lowByte (code >>> 24), lowByte (code >>> 16), lowByte (code >>> 6), lowByte code] ++
    match shown with
    | none => []
    | some errorCode => [0x0b, errorCode]

theorem lowByte_sshiftRight {x : BitVec 32} {n : Nat} (hn : n ≤ 24) :
    lowByte (x.sshiftRight n) = lowByte (x >>> n) := by
  refine congrArg UInt8.ofBitVec (BitVec.eq_of_getLsbD_eq fun i hi => ?_)
  have h₁ : ¬ 32 ≤ i := by omega
  have h₂ : n + i < 32 := by omega
  simp [BitVec.getLsbD_sshiftRight, hi, h₁, h₂]

/-- The word a call puts into its frame. -/
def FaultCall.code (b : Board) : FaultCall → Option (BitVec 32)
  | .gesture errorCode clear stack => (getErrorCode b).map
      (FaultCall.gesture errorCode clear stack).apply
  | .send errorCode _ => some (faultBit errorCode)

/-- The call appends the number of the fault to its frame. -/
def FaultCall.Shows (b : Board) : FaultCall → Prop
  | .gesture _ clear _ => clear = false ∧ getErrorCodeShow b = some 0
  | .send _ _ => True

instance (b : Board) : DecidablePred (FaultCall.Shows b)
  | .gesture _ _ _ => inferInstanceAs (Decidable (_ ∧ _))
  | .send _ _ => inferInstanceAs (Decidable True)

def FaultCall.stack : FaultCall → Nat → UInt8
  | .gesture _ _ stack => stack
  | .send _ stack => stack

/-- What is appended. -/
def FaultCall.shown (b : Board) (call : FaultCall) : Option UInt8 :=
  if call.Shows b then some (UInt8.ofInt call.errorCode) else none

/-- The payload of a call. -/
def FaultCall.payload (b : Board) (code : BitVec 32) (call : FaultCall) : List UInt8 :=
  faultPayload code (call.shown b)

/-- **Both functions** send a frame of that form. -/
theorem faultCall_run {call : FaultCall} {b b' : Board} (hv : call.Valid)
    (h : call.run b = some b') :
    ∃ code, call.code b = some code ∧
      sendDataToCloud (localArray (call.payload b code) call.stack) (call.payload b code).length b =
        some b' := by
  cases call with
  | gesture errorCode clear stack =>
      obtain ⟨r, hr, h⟩ := Option.bind_eq_some_iff.mp h
      have hrange : 1 ≤ errorCode ∧ errorCode ≤ 32 := hv
      simp only [if_pos hrange] at h
      refine ⟨_, by rw [FaultCall.code, hr]; rfl, ?_⟩
      cases clear with
      | true =>
          exact h
      | false =>
          simp only [Bool.false_eq_true, if_false] at h
          obtain ⟨payload, hp, h⟩ := Option.bind_eq_some_iff.mp h
          obtain ⟨shown, hshown, rfl⟩ := Option.map_eq_some_iff.mp hp
          by_cases h0 : shown = 0
          · rw [if_pos h0] at h
            have hs : FaultCall.Shows b (.gesture errorCode false stack) :=
              ⟨rfl, hshown.trans (congrArg some h0)⟩
            simp only [FaultCall.payload, FaultCall.shown, if_pos hs]
            exact h
          · rw [if_neg h0] at h
            have hs : ¬ FaultCall.Shows b (.gesture errorCode false stack) := by
              rintro ⟨-, hz⟩
              exact h0 (Option.some.inj (hshown.symm.trans hz))
            simp only [FaultCall.payload, FaultCall.shown, if_neg hs]
            exact h
  | send errorCode stack =>
      have hpos : 0 < errorCode := hv.1
      have hle : errorCode ≤ 32 := hv.2
      simp only [FaultCall.run, sendErrorToCloud, if_pos hle, if_pos hpos,
        lowByte_sshiftRight (show 24 ≤ 24 by omega), lowByte_sshiftRight (show 16 ≤ 24 by omega),
        lowByte_sshiftRight (show 6 ≤ 24 by omega)] at h
      exact ⟨_, rfl, h⟩

/-! ## What a frame leaves -/

/-- Some byte of the fault number goes to an attribute: the first with the
command 11 has a length. -/
def ShowsError (attr : List CloudAttr) : Prop :=
  ∃ k ∈ attrOfCmd attr 0x0b, ∃ a ∈ attr[k]?, a.uartByteLen ≠ 0

instance (attr : List CloudAttr) : Decidable (ShowsError attr) :=
  inferInstanceAs (Decidable (∃ k ∈ attrOfCmd attr 0x0b, ∃ a ∈ attr[k]?, _))

/-- The fault number itself is read as the command of `ErrorCode`. -/
def Overrun (attr : List CloudAttr) (shown : Option UInt8) : Prop :=
  shown = some 0x0a ∧ ¬ ShowsError attr

instance (attr : List CloudAttr) (shown : Option UInt8) : Decidable (Overrun attr shown) :=
  inferInstanceAs (Decidable (_ ∧ _))

section Frame

variable {j : Nat} {a : CloudAttr} {attr : List CloudAttr} {code : BitVec 32}
  {shown : Option UInt8} {stack : Nat → UInt8}

/-- The fault number, where no attribute takes it as a value, is a command. -/
theorem recordsFrom_number {value : Nat → UInt8} {errorCode : UInt8} {fuel : Nat}
    (hj : attrOfCmd attr 0x0a = some j) (hv : value 6 = errorCode) :
    (recordsFrom value 7 attr (fuel + 1) 6).filter (·.2 == j) =
      if errorCode = 0x0a then [(6, j)] else [] := by
  cases hk : attrOfCmd attr (value 6) with
  | none =>
      have hne : errorCode ≠ 0x0a := by
        rintro rfl
        rw [hv, hj] at hk
        cases hk
      rw [recordsFrom_skip (by omega) hk, recordsFrom_end (by omega), if_neg hne]
      rfl
  | some k =>
      obtain ⟨c, hc, hcmd⟩ := attrOfCmd_some hk
      rw [recordsFrom_cons (by omega) hk hc, recordsFrom_end (by omega)]
      by_cases he : errorCode = 0x0a
      · have hkj : k = j := by
          rw [hv, he, hj] at hk
          exact (Option.some.inj hk).symm
        simp [he, hkj]
      · have hkj : k ≠ j := by
          rintro rfl
          obtain ⟨c', hc', hcmd'⟩ := attrOfCmd_some hj
          obtain rfl := Option.some.inj (hc.symm.trans hc')
          exact he (hv.symm.trans (hcmd.symm.trans hcmd'))
        simp [he, hkj]

/-- From the second record of a fault frame on, the number is a command exactly where
no attribute takes it as a value. -/
theorem recordsFrom_show {value : Nat → UInt8} {errorCode : UInt8} {fuel : Nat}
    (ha : attr[j]? = some a) (h : IsErrorCode a) (hj : attrOfCmd attr 0x0a = some j)
    (h5 : value 5 = 0x0b) (h6 : value 6 = errorCode) :
    (recordsFrom value 7 attr (fuel + 2) 5).filter (·.2 == j) =
      if Overrun attr (some errorCode) then [(6, j)] else [] := by
  cases hk : attrOfCmd attr 0x0b with
  | none =>
      have hshow : ¬ ShowsError attr := by
        rintro ⟨k, hk', -⟩
        cases hk.symm.trans hk'
      rw [recordsFrom_skip (by omega) (h5.symm ▸ hk), recordsFrom_number hj h6]
      simp [Overrun, hshow]
  | some k =>
      obtain ⟨c, hc, hccmd⟩ := attrOfCmd_some hk
      have hkj : (k == j) = false := by
        refine beq_eq_false_iff_ne.mpr ?_
        rintro rfl
        obtain rfl := Option.some.inj (hc.symm.trans ha)
        rw [h.uartCmd] at hccmd
        exact absurd hccmd (by decide)
      rw [recordsFrom_cons (by omega) (h5.symm ▸ hk) hc,
        List.filter_cons_of_neg (by simp [hkj])]
      by_cases h0 : c.uartByteLen = 0
      · have hshow : ¬ ShowsError attr := by
          rintro ⟨k', hk', c', hc', hne⟩
          obtain rfl := Option.some.inj (hk.symm.trans hk')
          obtain rfl := Option.some.inj (hc.symm.trans hc')
          exact hne h0
        have hzero : c.uartByteLen.toNat = 0 := by rw [h0]; rfl
        rw [hzero, recordsFrom_number hj h6]
        simp [Overrun, hshow]
      · have hshow : ShowsError attr := ⟨k, hk, c, hc, h0⟩
        have hpos : 1 ≤ c.uartByteLen.toNat := by
          have : c.uartByteLen.toNat ≠ 0 := fun hz => h0 (UInt8.toNat_inj.mp hz)
          omega
        rw [recordsFrom_end (by omega), if_neg fun ho => ho.2 hshow]
        rfl

/-- An attribute that is not found by its command has no record. -/
theorem records_unfound {value : Nat → UInt8} {valueLen : Nat} (ha : attr[j]? = some a)
    (hj : attrOfCmd attr a.uartCmd ≠ some j) :
    (records value valueLen attr).filter (·.2 == j) = [] := by
  refine List.filter_eq_nil_iff.mpr fun r hr hrj => ?_
  have hrec := attrOfCmd_of_mem_recordsFrom hr
  rw [beq_iff_eq.mp hrj] at hrec
  obtain ⟨c, hc, hccmd⟩ := attrOfCmd_some hrec
  obtain rfl := Option.some.inj (ha.symm.trans hc)
  rw [← hccmd] at hrec
  exact hj hrec

/-- The records of a fault frame that are for `ErrorCode`. -/
theorem records_faultPayload (ha : attr[j]? = some a) (h : IsErrorCode a) :
    (records (localArray (faultPayload code shown) stack) (faultPayload code shown).length
        attr).filter (·.2 == j) =
      if attrOfCmd attr 0x0a = some j then
        (0, j) :: if Overrun attr shown then [(6, j)] else []
      else [] := by
  have hcmd : localArray (faultPayload code shown) stack 0 = 0x0a := rfl
  split
  · rename_i hj
    have hlen : a.uartByteLen.toNat = 4 := by rw [h.uartByteLen]; rfl
    have hfirst : ∀ {valueLen fuel : Nat}, 0 < valueLen →
        recordsFrom (localArray (faultPayload code shown) stack) valueLen attr (fuel + 1) 0 =
          (0, j) :: recordsFrom (localArray (faultPayload code shown) stack) valueLen attr fuel 5 := by
      intro valueLen fuel hpos
      rw [recordsFrom_cons hpos (hcmd.symm ▸ hj) ha, hlen]
    cases shown with
    | none =>
        have hno : ¬ Overrun attr none := fun ho => by cases ho.1
        show (recordsFrom _ 5 attr 6 0).filter _ = _
        rw [hfirst (by omega), recordsFrom_end (by omega), if_neg hno]
        simp
    | some errorCode =>
        show (recordsFrom _ 7 attr 8 0).filter _ = _
        rw [hfirst (by omega), List.filter_cons_of_pos (by simp)]
        exact congrArg ((0, j) :: ·) (recordsFrom_show ha h hj rfl rfl)
  · rename_i hj
    exact records_unfound ha (h.uartCmd.symm ▸ hj)

/-- The word as it comes out of a frame. -/
def frameWord (code : BitVec 32) : BitVec 32 :=
  wordOf [lowByte (code >>> 24), lowByte (code >>> 16), lowByte (code >>> 6), lowByte code]

/-- The word behind the array. -/
def stackWord (stack : Nat → UInt8) : BitVec 32 := wordOf [0, stack 0, stack 1, stack 2]

theorem localArray_word : (List.range 4).map (fun k =>
    localArray (faultPayload code shown) stack (0 + 1 + k)) =
      [lowByte (code >>> 24), lowByte (code >>> 16), lowByte (code >>> 6), lowByte code] := by
  simp [List.range_succ_eq_map, localArray, faultPayload]

theorem localArray_behind (h : shown ≠ none) : (List.range 4).map (fun k =>
    localArray (faultPayload code shown) stack (6 + 1 + k)) = [0, stack 0, stack 1, stack 2] := by
  obtain ⟨errorCode, rfl⟩ := Option.ne_none_iff_exists'.mp h
  simp [List.range_succ_eq_map, localArray, faultPayload]

/-- **A fault frame**: what it leaves of `ErrorCode`. -/
theorem faultPayload_stored {b b' : Board} (ha : b.dev.attr[j]? = some a) (h : IsErrorCode a)
    (hrun : sendDataToCloud (localArray (faultPayload code shown) stack)
      (faultPayload code shown).length b = some b') :
    ∃ a', b'.dev.attr[j]? = some a' ∧ IsErrorCode a' ∧ wordOf a'.bytes =
      if attrOfCmd b.dev.attr 0x0a = some j then
        if Overrun b.dev.attr shown then stackWord stack else frameWord code
      else wordOf a.bytes := by
  rw [sendDataToCloud_eq] at hrun
  obtain ⟨out, hout, rfl⟩ := Option.map_eq_some_iff.mp hrun
  have hkept := foldlM_sendDataRecord_kept (Kept.refl _) hout
  have hlayout : SameLayout b.dev.attr out.1.dev.attr :=
    foldlM_keeps (I := fun s => SameLayout b.dev.attr s.1.dev.attr)
      (fun _ _ _ hs hf => hs.trans (sendDataRecord_sameLayout hf)) (.refl _) hout
  have hget := @foldl_writeRecord_get (localArray (faultPayload code shown) stack)
    (records (localArray (faultPayload code shown) stack) (faultPayload code shown).length
      b.dev.attr) b.dev.attr j
  rw [ha, records_faultPayload ha h, Option.map_some] at hget
  obtain ⟨a', ha', hk⟩ := hkept.get hget
  obtain ⟨a'', ha'', hl⟩ := hlayout.get ha
  obtain rfl := Option.some.inj (ha'.symm.trans ha'')
  have hE := h.congr hl
  refine ⟨a', ha', hE, ?_⟩
  have hkey := (CloudAttr.layout_cloudKey hk.layout).symm.trans hE.cloudKey
  have htype := (CloudAttr.layout_cloudValueType hk.layout).symm.trans hE.num
  have hvalue := hk.value (by rw [hkey]; decide) (by rw [htype]; decide)
  have hlen : a.uartByteLen.toNat = 4 := by rw [h.uartByteLen]; rfl
  have hbytes : a'.bytes = (List.foldl (fun a (r : Nat × Nat) =>
      CloudAttr.write (localArray (faultPayload code shown) stack) r.1 a) a
        (if attrOfCmd b.dev.attr 0x0a = some j then
          (0, j) :: if Overrun b.dev.attr shown then [(6, j)] else []
        else [])).bytes := by
    rw [CloudAttr.bytes, hvalue, CloudAttr.layout_uartByteLen hk.layout]
    rfl
  rw [hbytes]
  split
  · split
    · rename_i ho
      have hshown : shown ≠ none := by rw [ho.1]; exact Option.some_ne_none _
      have hlen' : (a.write (localArray (faultPayload code shown) stack) 0).uartByteLen.toNat = 4 :=
        hlen
      rw [List.foldl_cons, List.foldl_cons, List.foldl_nil, CloudAttr.write_bytes, hlen',
        localArray_behind hshown, stackWord]
    · rw [List.foldl_cons, List.foldl_nil, CloudAttr.write_bytes, hlen, localArray_word, frameWord]
  · rfl

end Frame

end X50
