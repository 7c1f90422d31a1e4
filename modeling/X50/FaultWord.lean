/-
# `X50.FaultWord` — when a fault changes one bit

The frame moves bits: bit `i` of the word it leaves is bit `moved i` of the word
it was made from, and bits 14 and 15 go nowhere.  So a call does what it should
only when the misplaced bits happen to agree, and `FaultKeeps` says when that is,
in terms of the word before the call, the number of the fault and the profile:

    send     the fault is 1 to 6, or from 17 on
    raise    the same, and no other fault is raised; or the fault is 7 or 8 and
             the only other one raised is two further on
    clear    no other fault is raised

for a profile whose first attribute is not `ErrorCode`.  If it is, the code does
read the word, backwards, and the condition compares its bits with those of the
memory.  `fault_word_iff` carries the condition over every run of calls.
-/
import X50.Fault
import X50.CloudEcho

namespace X50

open X50.Lib

/-! ## Bits -/

/-- The bit of the word a frame takes bit `i` from. -/
def moved (i : Nat) : Nat := if 8 ≤ i ∧ i < 16 then i - 2 else i

theorem testBit_lowByte {x : BitVec 32} {i : Nat} (hi : i < 8) :
    (lowByte x).toNat.testBit i = x.getLsbD i := by
  show (x.setWidth 8).toNat.testBit i = _
  rw [BitVec.testBit_toNat, BitVec.getLsbD_setWidth]
  simp [hi]

theorem getLsbD_wordOf {bytes : List UInt8} {i : Nat} (hi : i < 32) :
    (wordOf bytes).getLsbD i =
      (bytes.reverse[i / 8]?.map fun b => b.toNat.testBit (i % 8)).getD false := by
  rw [wordOf, BitVec.getLsbD_ofNat, BigEndian.testBit_decode]
  simp [hi]

/-- **The frame moves bits.** -/
theorem getLsbD_frameWord {code : BitVec 32} {i : Nat} (hi : i < 32) :
    (frameWord code).getLsbD i = code.getLsbD (moved i) := by
  have hm : i % 8 < 8 := Nat.mod_lt _ (by decide)
  rw [frameWord, getLsbD_wordOf hi]
  have hcases : i / 8 = 0 ∨ i / 8 = 1 ∨ i / 8 = 2 ∨ i / 8 = 3 := by omega
  rcases hcases with h | h | h | h
  · have hmoved : moved i = i % 8 := by rw [moved, if_neg (by omega)]; omega
    simp only [h, hmoved, List.reverse_cons, List.reverse_nil, List.nil_append, List.cons_append,
      List.getElem?_cons_zero, Option.map_some, Option.getD_some, testBit_lowByte hm]
  · have hmoved : moved i = 6 + i % 8 := by rw [moved, if_pos (by omega)]; omega
    simp only [h, hmoved, List.reverse_cons, List.reverse_nil, List.nil_append, List.cons_append,
      List.getElem?_cons_succ, List.getElem?_cons_zero, Option.map_some, Option.getD_some,
      testBit_lowByte hm, BitVec.getLsbD_ushiftRight]
  · have hmoved : moved i = 16 + i % 8 := by rw [moved, if_neg (by omega)]; omega
    simp only [h, hmoved, List.reverse_cons, List.reverse_nil, List.nil_append, List.cons_append,
      List.getElem?_cons_succ, List.getElem?_cons_zero, Option.map_some, Option.getD_some,
      testBit_lowByte hm, BitVec.getLsbD_ushiftRight]
  · have hmoved : moved i = 24 + i % 8 := by rw [moved, if_neg (by omega)]; omega
    simp only [h, hmoved, List.reverse_cons, List.reverse_nil, List.nil_append, List.cons_append,
      List.getElem?_cons_succ, List.getElem?_cons_zero, Option.map_some, Option.getD_some,
      testBit_lowByte hm, BitVec.getLsbD_ushiftRight]

theorem moved_lt {i : Nat} (hi : i < 32) : moved i < 32 := by
  unfold moved
  split <;> omega

theorem eq_iff_getLsbD {x y : BitVec 32} :
    x = y ↔ ∀ i < 32, (x.getLsbD i = true ↔ y.getLsbD i = true) := by
  constructor
  · rintro rfl i _
    rfl
  · exact fun h => BitVec.eq_of_getLsbD_eq fun i hi => Bool.eq_iff_iff.mpr (h i hi)

section Bit

variable {call : FaultCall} {errorCode : Int} {stack : Nat → UInt8} {x : BitVec 32} {i : Nat}

theorem getLsbD_faultBit (h : 1 ≤ errorCode ∧ errorCode ≤ 32) :
    (faultBit errorCode).getLsbD i = true ↔ i = (errorCode - 1).toNat := by
  have hlt : (errorCode - 1).toNat < 32 := by omega
  rw [faultBit, BitVec.getLsbD_twoPow]
  simp only [hlt, decide_true, Bool.true_and, decide_eq_true_eq]
  exact eq_comm

theorem getLsbD_raise (h : 1 ≤ errorCode ∧ errorCode ≤ 32) :
    ((FaultCall.gesture errorCode false stack).apply x).getLsbD i = true ↔
      x.getLsbD i = true ∨ i = (errorCode - 1).toNat := by
  rw [FaultCall.apply, BitVec.getLsbD_or, Bool.or_eq_true, getLsbD_faultBit h]

theorem getLsbD_clear (h : 1 ≤ errorCode ∧ errorCode ≤ 32) (hi : i < 32) :
    ((FaultCall.gesture errorCode true stack).apply x).getLsbD i = true ↔
      x.getLsbD i = true ∧ i ≠ (errorCode - 1).toNat := by
  rw [FaultCall.apply, BitVec.getLsbD_and, Bool.and_eq_true, BitVec.getLsbD_not]
  simp only [hi, decide_true, Bool.true_and, Bool.not_eq_true']
  rw [← Bool.not_eq_true, getLsbD_faultBit h]

end Bit

/-! ## The exact condition -/

/-- The first attribute is an `ErrorCode`, so that `get_ErrorCode` reads it. -/
def ReadsWord (b : Board) : Prop := ∃ a ∈ b.dev.attr.head?, a.cloudKey = cstr "ErrorCode"

instance (b : Board) : Decidable (ReadsWord b) :=
  inferInstanceAs (Decidable (∃ a ∈ b.dev.attr.head?, _))

/-- Bit `k` of the memory of the first attribute, counted through its bytes. -/
def memoryBit (b : Board) (k : Nat) : Bool :=
  match b.dev.attr.head? with
  | none => false
  | some a => (a.value[k / 8]?.map fun c => c.toNat.testBit (k % 8)).getD false

/-- A raise or a clear of bit `bit` leaves the other bits of `word` alone. -/
def GestureKeeps (b : Board) (word : BitVec 32) (bit : Nat) : Bool → Prop
  | true =>
      if ReadsWord b then
        ∀ i < 32, (memoryBit b (moved i) = true ∧ moved i ≠ bit ↔
          word.getLsbD i = true ∧ i ≠ bit)
      else ∀ i < 32, i ≠ bit → word.getLsbD i = false
  | false =>
      if ReadsWord b then
        ∀ i < 32, (memoryBit b (moved i) = true ∨ moved i = bit ↔
          word.getLsbD i = true ∨ i = bit)
      else
        ((bit ≤ 5 ∨ 16 ≤ bit) ∧ ∀ i < 32, i ≠ bit → word.getLsbD i = false) ∨
          ((bit = 6 ∨ bit = 7) ∧ ∀ i < 32, i ≠ bit → (word.getLsbD i = true ↔ i = bit + 2))

/-- The frame of a call moves no bit that matters. -/
def FaultCall.Keeps (s : FaultState) : FaultCall → Prop
  | .gesture errorCode clear _ => GestureKeeps s.board s.word (errorCode - 1).toNat clear
  | .send errorCode _ => (errorCode - 1).toNat ≤ 5 ∨ 16 ≤ (errorCode - 1).toNat

/-- The call does to the word what it should. -/
def FaultKeeps (j : Nat) (s : FaultState) (call : FaultCall) : Prop :=
  if attrOfCmd s.board.dev.attr 0x0a = some j then
    if Overrun s.board.dev.attr (call.shown s.board) then
      stackWord call.stack = call.apply s.word
    else call.Keeps s
  else call.apply s.word = s.word

instance (b : Board) (word : BitVec 32) (bit : Nat) :
    ∀ clear, Decidable (GestureKeeps b word bit clear)
  | true => inferInstanceAs (Decidable (if ReadsWord b then _ else _))
  | false => inferInstanceAs (Decidable (if ReadsWord b then _ else _))

instance (s : FaultState) : DecidablePred (FaultCall.Keeps s)
  | .gesture _ _ _ => inferInstanceAs (Decidable (GestureKeeps _ _ _ _))
  | .send _ _ => inferInstanceAs (Decidable (_ ∨ _))

instance (j : Nat) (s : FaultState) (call : FaultCall) : Decidable (FaultKeeps j s call) :=
  inferInstanceAs (Decidable (if attrOfCmd s.board.dev.attr 0x0a = some j then
    (if Overrun s.board.dev.attr (call.shown s.board) then
      stackWord call.stack = call.apply s.word else call.Keeps s) else call.apply s.word = s.word))

theorem getErrorCode_of_not_reads {b : Board} (h : ¬ ReadsWord b) : getErrorCode b = some 0 := by
  unfold getErrorCode
  split
  · rfl
  · rename_i a rest hattr
    rw [if_neg]
    intro hkey
    exact h ⟨a, by rw [hattr]; rfl, hkey⟩

/-- `*((int *)value)`, bit by bit. -/
theorem getLsbD_getErrorCode {b : Board} {r : BitVec 32} (h : ReadsWord b)
    (hr : getErrorCode b = some r) {k : Nat} (hk : k < 32) : r.getLsbD k = memoryBit b k := by
  obtain ⟨a, ha, hkey⟩ := h
  obtain ⟨rest, hattr⟩ : ∃ rest, b.dev.attr = a :: rest := by
    cases hb : b.dev.attr with
    | nil => simp [hb] at ha
    | cons c rest =>
        have hc : some c = some a := by simpa [hb] using ha
        exact ⟨rest, by rw [Option.some.inj hc]⟩
  simp only [getErrorCode, hattr, if_pos hkey] at hr
  obtain ⟨b₀, h₀, hr⟩ := Option.bind_eq_some_iff.mp hr
  obtain ⟨b₁, h₁, hr⟩ := Option.bind_eq_some_iff.mp hr
  obtain ⟨b₂, h₂, hr⟩ := Option.bind_eq_some_iff.mp hr
  obtain ⟨b₃, h₃, hr⟩ := Option.bind_eq_some_iff.mp hr
  obtain rfl := Option.some.inj hr
  have hmem : memoryBit b k = (a.value[k / 8]?.map fun c => c.toNat.testBit (k % 8)).getD false := by
    simp [memoryBit, hattr]
  rw [hmem]
  show (b₃.toBitVec ++ b₂.toBitVec ++ b₁.toBitVec ++ b₀.toBitVec : BitVec (8 + 8 + 8 + 8)).getLsbD
    k = _
  rw [BitVec.getLsbD_append, BitVec.getLsbD_append, BitVec.getLsbD_append]
  have hcases : k / 8 = 0 ∨ k / 8 = 1 ∨ k / 8 = 2 ∨ k / 8 = 3 := by omega
  rcases hcases with h | h | h | h
  · have hk' : k % 8 = k := by omega
    rw [if_pos (by omega), h, h₀, hk']
    rfl
  · have hk' : k % 8 = k - 8 := by omega
    rw [if_neg (by omega), if_pos (by omega), h, h₁, hk']
    rfl
  · have hk' : k % 8 = k - 8 - 8 := by omega
    rw [if_neg (by omega), if_neg (by omega), if_pos (by omega), h, h₂, hk']
    rfl
  · have hk' : k % 8 = k - 8 - 8 - 8 := by omega
    rw [if_neg (by omega), if_neg (by omega), if_neg (by omega), h, h₃, hk']
    rfl

/-! ## One call -/

/-- The frame of a word of one bit, where the rest of the word is `rest`. -/
theorem moved_raise_iff {rest : Nat → Prop} {bit : Nat} (hbit : bit < 32) :
    (∀ i < 32, (moved i = bit ↔ rest i ∨ i = bit)) ↔
      ((bit ≤ 5 ∨ 16 ≤ bit) ∧ ∀ i < 32, i ≠ bit → ¬ rest i) ∨
        ((bit = 6 ∨ bit = 7) ∧ ∀ i < 32, i ≠ bit → (rest i ↔ i = bit + 2)) := by
  have moved_eq : ∀ i, moved i = bit ↔ (8 ≤ i ∧ i < 16 ∧ i = bit + 2) ∨
      (¬ (8 ≤ i ∧ i < 16) ∧ i = bit) := by
    intro i
    unfold moved
    split <;> omega
  constructor
  · intro h
    -- the bit itself has to be found where it belongs
    have hself := (moved_eq bit).mp ((h bit hbit).mpr (Or.inr rfl))
    have hrest : ∀ i < 32, i ≠ bit → (rest i ↔ moved i = bit) := fun i hi hne =>
      ⟨fun hr => (h i hi).mpr (Or.inl hr), fun hm => ((h i hi).mp hm).resolve_right hne⟩
    by_cases hsix : bit = 6 ∨ bit = 7
    · refine Or.inr ⟨hsix, fun i hi hne => (hrest i hi hne).trans ((moved_eq i).trans ?_)⟩
      omega
    · refine Or.inl ⟨by omega, fun i hi hne hr => ?_⟩
      have := (moved_eq i).mp ((hrest i hi hne).mp hr)
      omega
  · rintro (⟨hb, h⟩ | ⟨hb, h⟩) i hi
    · by_cases hne : i = bit
      · exact iff_of_true ((moved_eq i).mpr (by omega)) (Or.inr hne)
      · have hm : ¬ moved i = bit := fun hm => by
          have := (moved_eq i).mp hm
          omega
        exact iff_of_false hm (not_or.mpr ⟨h i hi hne, hne⟩)
    · by_cases hne : i = bit
      · exact iff_of_true ((moved_eq i).mpr (by omega)) (Or.inr hne)
      · rw [moved_eq i, h i hi hne]
        omega

/-- What a gesture leaves, compared with what it should. -/
theorem frameWord_gesture_iff {b : Board} {errorCode : Int} {clear : Bool} {stack : Nat → UInt8}
    {r word : BitVec 32} (hv : 1 ≤ errorCode ∧ errorCode ≤ 32) (hr : getErrorCode b = some r) :
    frameWord ((FaultCall.gesture errorCode clear stack).apply r) =
        (FaultCall.gesture errorCode clear stack).apply word ↔
      GestureKeeps b word (errorCode - 1).toNat clear := by
  have hbit : (errorCode - 1).toNat < 32 := by omega
  have hzero : ¬ ReadsWord b → ∀ i, r.getLsbD i = false := by
    intro hreads i
    obtain rfl := Option.some.inj (hr.symm.trans (getErrorCode_of_not_reads hreads))
    exact BitVec.getLsbD_zero
  rw [eq_iff_getLsbD]
  cases clear with
  | false =>
      have hbits : ∀ i < 32, ((frameWord ((FaultCall.gesture errorCode false stack).apply
          r)).getLsbD i = true ↔ r.getLsbD (moved i) = true ∨ moved i = (errorCode - 1).toNat) :=
        fun i hi => by rw [getLsbD_frameWord hi, getLsbD_raise hv]
      simp only [GestureKeeps]
      split
      · rename_i hreads
        refine forall₂_congr fun i hi => ?_
        rw [hbits i hi, getLsbD_raise hv, getLsbD_getErrorCode hreads hr (moved_lt hi)]
      · rename_i hreads
        simp only [← Bool.not_eq_true]
        rw [← moved_raise_iff hbit]
        refine forall₂_congr fun i hi => ?_
        rw [hbits i hi, getLsbD_raise hv, hzero hreads]
        simp only [Bool.false_eq_true, false_or]
  | true =>
      have hbits : ∀ i < 32, ((frameWord ((FaultCall.gesture errorCode true stack).apply
          r)).getLsbD i = true ↔ r.getLsbD (moved i) = true ∧ moved i ≠ (errorCode - 1).toNat) :=
        fun i hi => by rw [getLsbD_frameWord hi, getLsbD_clear hv (moved_lt hi)]
      simp only [GestureKeeps]
      split
      · rename_i hreads
        refine forall₂_congr fun i hi => ?_
        rw [hbits i hi, getLsbD_clear hv hi, getLsbD_getErrorCode hreads hr (moved_lt hi)]
      · rename_i hreads
        refine forall₂_congr fun i hi => ?_
        rw [hbits i hi, getLsbD_clear hv hi, hzero hreads, ← Bool.not_eq_true]
        simp only [Bool.false_eq_true, false_and, false_iff, not_and, not_not, ne_eq]
        exact not_imp_not.symm

theorem frameWord_send_iff {errorCode : Int} (hv : 1 ≤ errorCode ∧ errorCode ≤ 32) :
    frameWord (faultBit errorCode) = faultBit errorCode ↔
      (errorCode - 1).toNat ≤ 5 ∨ 16 ≤ (errorCode - 1).toNat := by
  have hbit : (errorCode - 1).toNat < 32 := by omega
  have hbits : (∀ i < 32, ((frameWord (faultBit errorCode)).getLsbD i = true ↔
      (faultBit errorCode).getLsbD i = true)) ↔
      ∀ i < 32, (moved i = (errorCode - 1).toNat ↔ False ∨ i = (errorCode - 1).toNat) := by
    refine forall₂_congr fun i hi => ?_
    rw [getLsbD_frameWord hi, getLsbD_faultBit hv, getLsbD_faultBit hv, false_or]
  rw [eq_iff_getLsbD, hbits, moved_raise_iff hbit]
  constructor
  · rintro (⟨hb, -⟩ | ⟨hb, h⟩)
    · exact hb
    · exact ((h ((errorCode - 1).toNat + 2) (by omega) (by omega)).mpr rfl).elim
  · exact fun hb => Or.inl ⟨hb, fun _ _ _ => not_false⟩

/-- **One call.** -/
theorem faultMachine_step_iff {j : Nat} {s s' : FaultState} {call : FaultCall} {a : CloudAttr}
    (hv : call.Valid) (ha : s.board.dev.attr[j]? = some a) (h : IsErrorCode a)
    (hs : faultMachine.step s call = some s') :
    (∃ a', s'.board.dev.attr[j]? = some a' ∧ IsErrorCode a') ∧
      (ErrorCodeIs j s.board s.word →
        (ErrorCodeIs j s'.board s'.word ↔ FaultKeeps j s call)) := by
  obtain ⟨b', hb, rfl⟩ := Option.map_eq_some_iff.mp hs
  obtain ⟨code, hcode, hsend⟩ := faultCall_run hv hb
  obtain ⟨a', ha', h', hstored⟩ := faultPayload_stored ha h hsend
  refine ⟨⟨a', ha', h'⟩, fun hword => (errorCodeIs_iff ha' h').trans ?_⟩
  rw [hstored]
  unfold FaultKeeps
  split
  · split
    · rfl
    · cases call with
      | gesture errorCode clear stack =>
          obtain ⟨r, hr, rfl⟩ := Option.map_eq_some_iff.mp hcode
          exact frameWord_gesture_iff hv hr
      | send errorCode stack =>
          obtain rfl := Option.some.inj hcode
          exact frameWord_send_iff hv
  · rw [(errorCodeIs_iff ha h).mp hword]
    exact eq_comm

/-! ## The calls have a result -/

/-- A profile with both attributes of a fault, `ErrorCode` at place `j`. -/
structure FaultProfile (j : Nat) (attr : List CloudAttr) : Prop where
  sized : Sized attr
  readable : NameReadable attr
  errorCode : attrOfCmd attr 0x0a = some j ∧ ∃ a, attr[j]? = some a ∧ IsErrorCode a
  errorCodeShow : ∃ k c, attrOfCmd attr 0x0b = some k ∧ attr[k]? = some c ∧
    c.cloudKey = cstr "ErrorCodeShow" ∧ c.cloudValueType = .num ∧ c.isReported = true ∧
      c.uartByteLen = 1
  head : ∀ a ∈ attr.head?, (a.cloudKey = cstr "ErrorCode" → 4 ≤ a.value.length) ∧
    (a.cloudKey = cstr "ErrorCodeShow" → 1 ≤ a.value.length)

theorem FaultProfile.congr {j : Nat} {attr attr' : List CloudAttr} (h : FaultProfile j attr)
    (hl : SameLayout attr attr') : FaultProfile j attr' where
  sized := h.sized.congr hl
  readable := h.readable.congr hl
  errorCode := by
    obtain ⟨hj, a, ha, hE⟩ := h.errorCode
    obtain ⟨a', ha', hla⟩ := hl.get ha
    exact ⟨(hl.attrOfCmd _).trans hj, a', ha', hE.congr hla⟩
  errorCodeShow := by
    obtain ⟨k, c, hk, hc, hkey, htype, hrep, hlen⟩ := h.errorCodeShow
    obtain ⟨c', hc', hlc⟩ := hl.get hc
    exact ⟨k, c', (hl.attrOfCmd _).trans hk, hc', (CloudAttr.layout_cloudKey hlc).trans hkey,
      (CloudAttr.layout_cloudValueType hlc).trans htype,
      (CloudAttr.layout_isReported hlc).trans hrep, (CloudAttr.layout_uartByteLen hlc).trans hlen⟩
  head := by
    intro a' ha'
    rw [List.head?_eq_getElem?] at ha'
    obtain ⟨a, ha, hla⟩ := hl.symm.get ha'
    have hhead := h.head a (by rw [List.head?_eq_getElem?]; exact ha)
    rwa [CloudAttr.layout_cloudKey hla, CloudAttr.layout_length hla] at hhead

/-- The two reads of the first attribute have a result. -/
theorem FaultProfile.reads {j : Nat} {b : Board} (h : FaultProfile j b.dev.attr) :
    (∃ r, getErrorCode b = some r) ∧ ∃ shown, getErrorCodeShow b = some shown := by
  unfold getErrorCode getErrorCodeShow
  cases hattr : b.dev.attr with
  | nil => exact ⟨⟨0, rfl⟩, ⟨0, rfl⟩⟩
  | cons a rest =>
      obtain ⟨hcode, hshow⟩ := h.head a (by rw [hattr]; rfl)
      constructor
      · dsimp only
        split
        · rename_i hkey
          have hlen := hcode hkey
          rw [List.getElem?_eq_getElem (by omega), List.getElem?_eq_getElem (by omega),
            List.getElem?_eq_getElem (by omega), List.getElem?_eq_getElem (by omega)]
          exact ⟨_, rfl⟩
        · exact ⟨0, rfl⟩
      · dsimp only
        split
        · rename_i hkey
          rw [List.getElem?_eq_getElem (hshow hkey)]
          exact ⟨_, rfl⟩
        · exact ⟨0, rfl⟩

/-- A fault frame has a result. -/
theorem FaultProfile.frame {j : Nat} {b : Board} (h : FaultProfile j b.dev.attr)
    (code : BitVec 32) (shown : Option UInt8) (stack : Nat → UInt8) :
    ∃ b', sendDataToCloud (localArray (faultPayload code shown) stack)
      (faultPayload code shown).length b = some b' := by
  obtain ⟨hj, a, ha, hE⟩ := h.errorCode
  obtain ⟨k, c, hk, hc, hkey, htype, hrep, hlen⟩ := h.errorCodeShow
  have hjname : nameAt b.dev.attr ≠ some j := by
    intro hq
    obtain ⟨a', ha', hname⟩ := getAttrPtr_some hq
    obtain rfl := Option.some.inj (ha.symm.trans ha')
    exact absurd (hE.cloudKey.symm.trans hname) (by decide)
  have halen : a.uartByteLen.toNat = 4 := by rw [hE.uartByteLen]; rfl
  obtain ⟨out, hout, hecho⟩ := sendDataRecord_num
    (localArray (faultPayload code shown) stack) 0 [] ha hE.isReported hE.num (by omega) h.sized h.readable hjname
  have hcmd : localArray (faultPayload code shown) stack 0 = 0x0a := rfl
  rw [sendDataToCloud_eq]
  cases shown with
  | none =>
      have hlength : (faultPayload code none).length = 5 := rfl
      have hrecords : records (localArray (faultPayload code none) stack)
          (faultPayload code none).length b.dev.attr = [(0, j)] := by
        rw [hlength, records, recordsFrom_cons (by omega) (hcmd.symm ▸ hj) ha,
          recordsFrom_end (by omega)]
      rw [hrecords, List.foldlM_cons, hout]
      exact ⟨_, rfl⟩
  | some errorCode =>
      have hcmd' : localArray (faultPayload code (some errorCode)) stack 5 = 0x0b := rfl
      have hclen : c.uartByteLen.toNat = 1 := by rw [hlen]; rfl
      have hlength : (faultPayload code (some errorCode)).length = 7 := rfl
      have hrecords : records (localArray (faultPayload code (some errorCode)) stack)
          (faultPayload code (some errorCode)).length b.dev.attr = [(0, j), (5, k)] := by
        rw [hlength, records, recordsFrom_cons (by omega) (hcmd.symm ▸ hj) ha, halen,
          recordsFrom_cons (by omega) (hcmd'.symm ▸ hk) hc, recordsFrom_end (by omega)]
      have hkname : nameAt out.1.dev.attr ≠ some k := by
        intro hq
        obtain ⟨c', hc', hname⟩ := getAttrPtr_some ((hecho.layout.getAttrPtr _).symm.trans hq)
        obtain rfl := Option.some.inj (hc.symm.trans hc')
        exact absurd (hkey.symm.trans hname) (by decide)
      obtain ⟨c', hc', hlc⟩ := hecho.layout.get hc
      obtain ⟨out', hout', -⟩ := sendDataRecord_num
        (localArray (faultPayload code (some errorCode)) stack) 5 out.2 hc' ((CloudAttr.layout_isReported hlc).trans hrep)
        ((CloudAttr.layout_cloudValueType hlc).trans htype)
        (by rw [CloudAttr.layout_uartByteLen hlc]; omega) (h.sized.congr hecho.layout)
        (h.readable.congr hecho.layout) hkname
      rw [hrecords, List.foldlM_cons, hout]
      refine ⟨out'.1.reportMsg out'.2, ?_⟩
      show ((sendDataRecord _ 5 k out.1 out.2).bind _).map _ = _
      rw [hout']
      rfl

/-- **Every call** has a result on such a profile, and leaves it one. -/
theorem FaultProfile.run {j : Nat} {b : Board} {call : FaultCall} (h : FaultProfile j b.dev.attr)
    (hv : call.Valid) : ∃ b', call.run b = some b' ∧ FaultProfile j b'.dev.attr := by
  have hrun : ∃ b', call.run b = some b' := by
    obtain ⟨⟨r, hr⟩, shown, hshown⟩ := h.reads
    cases call with
    | gesture errorCode clear stack =>
        have hrange : 1 ≤ errorCode ∧ errorCode ≤ 32 := hv
        cases clear with
        | true =>
            simp only [FaultCall.run, gestureSendErrorCloud, hr, Option.bind_eq_bind,
              Option.bind_some, if_pos hrange, if_true]
            exact h.frame _ none stack
        | false =>
            simp only [FaultCall.run, gestureSendErrorCloud, hr, hshown, Option.bind_eq_bind,
              Option.bind_some, if_pos hrange, Bool.false_eq_true, if_false, Option.map_some]
            by_cases h0 : shown = 0
            · rw [if_pos h0]
              exact h.frame _ (some (UInt8.ofInt errorCode)) stack
            · rw [if_neg h0]
              exact h.frame _ none stack
    | send errorCode stack =>
        have hpos : 0 < errorCode := hv.1
        have hle : errorCode ≤ 32 := hv.2
        simp only [FaultCall.run, sendErrorToCloud, if_pos hle, if_pos hpos,
          lowByte_sshiftRight (show 24 ≤ 24 by omega), lowByte_sshiftRight (show 16 ≤ 24 by omega),
          lowByte_sshiftRight (show 6 ≤ 24 by omega)]
        exact h.frame (faultBit errorCode) (some (UInt8.ofInt errorCode)) stack
  obtain ⟨b', hb'⟩ := hrun
  obtain ⟨code, -, hsend⟩ := faultCall_run hv hb'
  exact ⟨b', hb', h.congr
    (@report_keeps_requests (.sendData (localArray _ _) _) _ _ hsend).2⟩

/-! ## Runs -/

/-- **Faults**: along every run of raises, clears and sends, wherever `ErrorCode`
stands in the table and whatever is stored in it, the word that is stored and
reported is the word the faults should have left exactly when every call meets
`FaultKeeps`.  With both attributes of a fault in the profile, every run has a
result. -/
theorem fault_word_iff (j : Nat) (b : Board) (a : CloudAttr) (calls : List FaultCall)
    (ha : b.dev.attr[j]? = some a) (h : IsErrorCode a) (hv : ∀ call ∈ calls, call.Valid) :
    (faultMachine.Along (fun s => ErrorCodeIs j s.board s.word) ⟨b, wordOf a.bytes⟩ calls ↔
      faultMachine.Meets (FaultKeeps j) ⟨b, wordOf a.bytes⟩ calls) ∧
    (FaultProfile j b.dev.attr →
      ∃ s', faultMachine.run ⟨b, wordOf a.bytes⟩ calls = some s') := by
  constructor
  · refine Machine.along_iff_meets (V := FaultCall.Valid)
      (Q := fun s => ∃ a', s.board.dev.attr[j]? = some a' ∧ IsErrorCode a') ?_ ?_ hv ⟨a, ha, h⟩
      ((errorCodeIs_iff ha h).mpr rfl)
    · rintro s call s' hcall ⟨a', ha', h'⟩ hs
      exact (faultMachine_step_iff hcall ha' h' hs).1
    · rintro s call s' hcall ⟨a', ha', h'⟩ hword hs
      exact (faultMachine_step_iff hcall ha' h' hs).2 hword
  · intro hprofile
    obtain ⟨s', hrun, -⟩ := Machine.run_total (M := faultMachine) (V := FaultCall.Valid)
      (P := fun s => FaultProfile j s.board.dev.attr) (s := ⟨b, wordOf a.bytes⟩)
      (fun s call hcall hs => by
        obtain ⟨b', hb', hs'⟩ := hs.run hcall
        exact ⟨⟨b', call.apply s.word⟩, by simp [faultMachine, hb'], hs'⟩) hv hprofile
    exact ⟨s', hrun⟩

/-- The attributes of a fault, behind another one. -/
def faultBoard : Board :=
  startBoard noRecipes
    [⟨cstr "SysPower", .num, .attrReportCtrl, 5, 1, [0]⟩,
      ⟨cstr "ErrorCode", .num, .attrReport, 10, 4, [0, 0, 0, 0]⟩,
      ⟨cstr "ErrorCodeShow", .num, .attrReport, 11, 1, [0]⟩]

/-- One fault raised and cleared, another raised, a third sent. -/
theorem fault_word_kept :
    faultMachine.Along (fun s => ErrorCodeIs 1 s.board s.word) ⟨faultBoard, wordOf [0, 0, 0, 0]⟩
        [.gesture 1 false fun _ => 0, .gesture 1 true fun _ => 0, .gesture 20 false fun _ => 0,
          .send 3 fun _ => 0] ∧
      ∃ s', faultMachine.run ⟨faultBoard, wordOf [0, 0, 0, 0]⟩
        [.gesture 1 false fun _ => 0, .gesture 1 true fun _ => 0, .gesture 20 false fun _ => 0,
          .send 3 fun _ => 0] = some s' := by
  have hE : IsErrorCode ⟨cstr "ErrorCode", .num, .attrReport, 10, 4, [0, 0, 0, 0]⟩ :=
    ⟨rfl, rfl, by decide, rfl, rfl, by decide⟩
  have hprofile : FaultProfile 1 faultBoard.dev.attr :=
    ⟨by decide +kernel, by decide +kernel, ⟨by decide +kernel, _, rfl, hE⟩,
      ⟨2, _, by decide +kernel, rfl, rfl, rfl, by decide, rfl⟩, by decide +kernel⟩
  obtain ⟨hword, hdefined⟩ := fault_word_iff 1 faultBoard _
    [.gesture 1 false fun _ => 0, .gesture 1 true fun _ => 0, .gesture 20 false fun _ => 0,
      .send 3 fun _ => 0] rfl hE (by simp [FaultCall.Valid, FaultCall.errorCode])
  exact ⟨hword.mpr (by decide +kernel), hdefined hprofile⟩

/-- A run does not leave the word it should when it leaves another. -/
theorem not_along_fault {j : Nat} {s : FaultState} {calls : List FaultCall}
    (stored word : BitVec 32) (h : (faultMachine.run s calls).map (fun s' =>
      (s'.board.dev.attr[j]?.map fun a => wordOf a.bytes, s'.word)) = some (some stored, word))
    (hne : stored ≠ word) :
    ¬ faultMachine.Along (fun s => ErrorCodeIs j s.board s.word) s calls := by
  intro halong
  obtain ⟨s', hrun, hs'⟩ := Option.map_eq_some_iff.mp h
  obtain ⟨hstored, rfl⟩ := Prod.mk.inj hs'
  obtain ⟨a, ha, hword⟩ := Option.map_eq_some_iff.mp hstored
  obtain ⟨⟨a', ha', hword'⟩, -⟩ := halong.last hrun
  obtain rfl := Option.some.inj (ha.symm.trans ha')
  exact hne (hword.symm.trans hword')

/-- Fault 9 sets bit 10; fault 2 takes the place of fault 1; and where `ErrorCode`
comes first, fault 1 comes back as fault 25. -/
theorem fault_word_moved :
    ¬ faultMachine.Along (fun s => ErrorCodeIs 1 s.board s.word)
        ⟨faultBoard, wordOf [0, 0, 0, 0]⟩ [.gesture 9 false fun _ => 0] ∧
      ¬ faultMachine.Along (fun s => ErrorCodeIs 1 s.board s.word)
        ⟨faultBoard, wordOf [0, 0, 0, 0]⟩
        [.gesture 1 false fun _ => 0, .gesture 2 false fun _ => 0] ∧
      ¬ faultMachine.Along (fun s => ErrorCodeIs 0 s.board s.word)
        ⟨startBoard noRecipes (faultBoard.dev.attr.drop 1), wordOf [0, 0, 0, 0]⟩
        [.gesture 1 false fun _ => 0, .gesture 2 false fun _ => 0] := by
  refine ⟨?_, ?_, ?_⟩
  · exact not_along_fault 0x400 0x100 (by decide +kernel) (by decide)
  · exact not_along_fault 0x2 0x3 (by decide +kernel) (by decide)
  · exact not_along_fault 0x1000002 0x3 (by decide +kernel) (by decide)

end X50
