/-
# `X50.Rejection` — what goes with a frame that is refused

A parser that refuses a frame says how many bytes are of no use.  If a whole frame is
among them, it is lost.

`gesture_uart_parse_msg` throws away what is as long as a frame, from the first header
on, so there is no room for another.  `ecb_uart_parse_msg` throws away one byte of the
header when the length is not one a frame can have; but when the tail is not where the
length says, it throws away as many bytes as the length says, and the length is all it
knows of them.  A frame that was cut off takes the next one with it
(`rejection_swallows`).
-/
import X50.FrameCheck
import X50.EcbLink
import X50.UartLoop

namespace X50

open X50.Lib

/-! ## Frames, and what is thrown away -/

/-- An output of `ecb_uart_send_msg`. -/
def EcbWellFormed (frame : List UInt8) : Prop :=
  ∃ command msg seqId ecbSeqId, frame = (ecbUartSendMsg command msg seqId ecbSeqId).1

/-- A frame of the gesture board: `verify` is that of the bytes before it. -/
structure GestureWellFormed (frame : List UInt8) : Prop where
  length : frame.length = 10
  header : byteAt frame 0 = 0xaa
  verify : UInt16.ofNat (be16 (byteAt frame 8) (byteAt frame 9)) = msgVerify (frame.take 8)

/-- When `ecb_uart_parse_msg` refuses a frame, no whole frame is among the bytes it
consumes. -/
def EcbRejectsOnly (input : List UInt8) (end₀ : Int) : Prop :=
  let r := ecbUartParseMsg input end₀
  r.status = .lenErr ∨ r.status = .tailerErr →
    ∀ frame, EcbWellFormed frame → ¬ frame <:+: input.take r.consumed.toNat

/-- The same of `gesture_uart_parse_msg`. -/
def GestureRejectsOnly (input : List UInt8) (end₀ : Int) : Prop :=
  let r := gestureUartParseMsg input end₀
  r.status = .checkErr →
    ∀ frame, GestureWellFormed frame → ¬ frame <:+: input.take r.consumed.toNat

/-- The first header is at `index`, and the length behind it is one a frame can have
and leads to bytes that are there, but are no tail. -/
structure TailMissing (input : List UInt8) (index : Nat) : Prop where
  header : findHeader input = some index
  short : dataLenAt input index ≤ 512
  fits : index + 11 + dataLenAt input index ≤ input.length
  tail : ¬ TailAt input index

/-- From `j` on, behind `index`, the parser would find a frame with the right sum,
which ends within the length at `index`. -/
structure FrameBehind (input : List UInt8) (index j : Nat) : Prop where
  behind : index < j
  candidate : EcbCandidate (input.drop j) 0
  within : j + dataLenAt (input.drop j) 0 ≤ index + dataLenAt input index
  sum : checkSumAt (input.drop j) 0 = (crc16Maxim (checkedAt (input.drop j) 0)).toNat

/-! ## Places -/

/-- A part of the first `n` bytes stands somewhere among them. -/
theorem infix_take_iff {α : Type*} {part l : List α} {n : Nat} :
    part <:+: l.take n ↔ ∃ j, j + part.length ≤ n ∧ part <+: l.drop j := by
  constructor
  · intro h
    obtain ⟨t, hpart, ht⟩ := List.infix_iff_prefix_suffix.mp h
    rw [List.suffix_iff_eq_drop.mp ht, List.drop_take, List.prefix_take_iff] at hpart
    obtain ⟨hpart, hlen⟩ := hpart
    refine ⟨_, ?_, hpart⟩
    have hle : (l.take n).length - t.length ≤ n :=
      (Nat.sub_le _ _).trans (List.length_take_le n l)
    omega
  · rintro ⟨j, hlen, hpart⟩
    have hprefix : part <+: (l.take n).drop j := by
      rw [List.drop_take, List.prefix_take_iff]
      exact ⟨hpart, by omega⟩
    exact hprefix.isInfix.trans (List.drop_suffix j _).isInfix

theorem byteAt_drop (l : List UInt8) (j i : Nat) : byteAt (l.drop j) i = byteAt l (j + i) := by
  simp [byteAt, List.getD_eq_getElem?_getD]

/-- The first header is the first. -/
theorem findHeader_first {l : List UInt8} {index j : Nat} (h : findHeader l = some index)
    (h₀ : byteAt l j = 0xe6) (h₁ : byteAt l (j + 1) = 0xe6) : index ≤ j := by
  induction l using findHeader.induct generalizing index j with
  | case1 a b rest hab =>
      rw [findHeader, if_pos hab] at h
      obtain rfl := Option.some.inj h
      exact Nat.zero_le j
  | case2 a b rest hab ih =>
      rw [findHeader, if_neg hab] at h
      obtain ⟨i, hi, rfl⟩ := Option.map_eq_some_iff.mp h
      cases j with
      | zero => exact absurd ⟨h₀, h₁⟩ hab
      | succ j => exact Nat.succ_le_succ (ih hi h₀ h₁)
  | case3 l hl =>
      rw [findHeader] at h
      · cases h
      · exact hl

/-! ## The electrical board -/

section Ecb

variable {l : List UInt8} {index : Nat} {end₀ : Int}

theorem ecbWellFormed_iff {frame : List UInt8} :
    EcbWellFormed frame ↔ ∃ m : EcbMsg, frame = m.frame := by
  constructor
  · rintro ⟨command, msg, seqId, ecbSeqId, rfl⟩
    obtain ⟨seq, hseq⟩ := ecbUartSendMsg_frame command msg seqId ecbSeqId
    exact ⟨_, hseq⟩
  · rintro ⟨m, rfl⟩
    exact ⟨m.command, m.payload, m.seqId.toNat, 0, (ecbUartSendMsg_own m 0).symm⟩

/-- A frame stands where the parser would find it, with its sum. -/
theorem frame_candidate {m : EcbMsg} (hm : m.payload.length ≤ 512) (h : m.frame <+: l) :
    EcbCandidate l 0 ∧ msgAt l 0 = m ∧ dataLenAt l 0 = m.payload.length := by
  obtain ⟨rest, rfl⟩ := h
  obtain ⟨tail, htail⟩ := m.frame_header
  have hdata : dataLenAt (m.frame ++ rest) 0 = m.payload.length :=
    EcbMsg.dataLenAt_frame hm (frame_take_initial m rest)
  refine ⟨⟨?_, ?_, ?_, tailAt_frame hm rest⟩, msgAt_frame hm rest, hdata⟩
  · rw [htail]
    rfl
  · rw [hdata]
    exact hm
  · rw [hdata, List.length_append, m.length_frame]
    omega

/-- No frame begins before the first header. -/
theorem frame_after_header {m : EcbMsg} {j : Nat} (h : findHeader l = some index)
    (hm : m.frame <+: l.drop j) : index ≤ j := by
  obtain ⟨rest, hrest⟩ := hm
  obtain ⟨tail, htail⟩ := m.frame_header
  rw [htail] at hrest
  refine findHeader_first h ?_ ?_
  · have hbyte := byteAt_drop l j 0
    rw [← hrest] at hbyte
    exact hbyte.symm
  · have hbyte := byteAt_drop l j 1
    rw [← hrest] at hbyte
    exact hbyte.symm

/-- What `ecb_uart_parse_msg` makes of the bytes behind a header. -/
theorem ecbParseFrame_cases (l : List UInt8) (index : Nat) :
    (¬ (dataLenAt l index ≤ 512 ∧ index + 11 + dataLenAt l index ≤ l.length) ∧
      ((ecbParseFrame l index).status = .lenSmall ∨
        (ecbParseFrame l index).status = .lenErr ∧
          (ecbParseFrame l index).consumed.toNat = index + 1)) ∨
    (dataLenAt l index ≤ 512 ∧ index + 11 + dataLenAt l index ≤ l.length) ∧
      (ecbParseFrame l index).consumed.toNat = index + 11 + dataLenAt l index ∧
      (¬ TailAt l index ∧ (ecbParseFrame l index).status = .tailerErr ∨
        TailAt l index ∧ (ecbParseFrame l index).status = .valid) := by
  simp only [ecbParseFrame, ecbMsgMinLen, dataLenAt, TailAt]
  split
  · exact Or.inl ⟨by omega, Or.inl rfl⟩
  · split
    · exact Or.inl ⟨by omega, Or.inr ⟨rfl, by dsimp only; omega⟩⟩
    · split
      · split
        · exact Or.inl ⟨by omega, Or.inr ⟨rfl, by dsimp only; omega⟩⟩
        · exact Or.inl ⟨by omega, Or.inl rfl⟩
      · split
        · rename_i htail
          rw [← not_and_or] at htail
          exact Or.inr ⟨by omega, by dsimp only; omega, Or.inl ⟨htail, rfl⟩⟩
        · rename_i htail
          rw [← not_and_or, not_not] at htail
          exact Or.inr ⟨by omega, by dsimp only; omega, Or.inr ⟨htail, rfl⟩⟩

theorem ecbUartParseMsg_header (h : findHeader l = some index) :
    ecbUartParseMsg l end₀ = ecbParseFrame l index := by
  have hle := findHeader_le h
  rw [ecbUartParseMsg, if_neg (by omega), h]

/-- Without a header nothing is refused. -/
theorem header_of_refused
    (h : (ecbUartParseMsg l end₀).status = .lenErr ∨ (ecbUartParseMsg l end₀).status = .tailerErr) :
    ∃ index, findHeader l = some index := by
  by_contra hnone
  have hheader : findHeader l = none :=
    Option.eq_none_iff_forall_ne_some.mpr fun index hindex => hnone ⟨index, hindex⟩
  rw [ecbUartParseMsg, hheader] at h
  split at h
  · rcases h with h | h <;> cases h
  · rcases h with h | h <;> cases h

/-- **What is thrown away**: one byte of the header, or what the length says. -/
theorem ecbUartParseMsg_refused
    (h : (ecbUartParseMsg l end₀).status = .lenErr ∨ (ecbUartParseMsg l end₀).status = .tailerErr) :
    ∃ index, findHeader l = some index ∧
      ((ecbUartParseMsg l end₀).consumed.toNat = index + 1 ∨
        TailMissing l index ∧
          (ecbUartParseMsg l end₀).consumed.toNat = index + 11 + dataLenAt l index) := by
  obtain ⟨index, hheader⟩ := header_of_refused h
  refine ⟨index, hheader, ?_⟩
  rw [ecbUartParseMsg_header hheader] at h ⊢
  rcases ecbParseFrame_cases l index with
    ⟨-, hs | ⟨-, hcons⟩⟩ | ⟨⟨hshort, hfits⟩, hcons, ⟨htail, -⟩ | ⟨-, hs⟩⟩
  · rw [hs] at h
    rcases h with h | h <;> cases h
  · exact Or.inl hcons
  · exact Or.inr ⟨⟨hheader, hshort, hfits, htail⟩, hcons⟩
  · rw [hs] at h
    rcases h with h | h <;> cases h

theorem TailMissing.refused (h : TailMissing l index) (end₀ : Int) :
    (ecbUartParseMsg l end₀).status = .tailerErr ∧
      (ecbUartParseMsg l end₀).consumed.toNat = index + 11 + dataLenAt l index := by
  rw [ecbUartParseMsg_header h.header]
  rcases ecbParseFrame_cases l index with ⟨hno, -⟩ | ⟨-, hcons, ⟨-, hs⟩ | ⟨htail, -⟩⟩
  · exact absurd ⟨h.short, h.fits⟩ hno
  · exact ⟨hs, hcons⟩
  · exact absurd htail h.tail

/-- A whole frame among the bytes that a missing tail throws away. -/
theorem TailMissing.frameBehind (h : TailMissing l index) {m : EcbMsg} {j : Nat}
    (hlen : j + m.frame.length ≤ index + 11 + dataLenAt l index) (hm : m.frame <+: l.drop j) :
    FrameBehind l index j := by
  have hafter := frame_after_header h.header hm
  have hshort := h.short
  rw [m.length_frame] at hlen
  obtain ⟨hc, hmsg, hdata⟩ := frame_candidate (by omega) hm
  refine ⟨Nat.lt_of_le_of_ne hafter ?_, hc, by omega, ?_⟩
  · -- at `index` itself there would be a tail
    rintro rfl
    refine h.tail ?_
    have htail := hc.tail
    simpa only [TailAt, dataLenAt, byteAt_drop, Nat.zero_add, Nat.add_assoc] using htail
  · exact hc.frame_iff.mp (hmsg ▸ hm)

/-- **When a refused frame takes another with it.** -/
theorem ecbRejectsOnly_iff :
    EcbRejectsOnly l end₀ ↔ ∀ index, TailMissing l index → ∀ j, ¬ FrameBehind l index j := by
  constructor
  · intro h index hmiss j hj
    obtain ⟨hstatus, hcons⟩ := hmiss.refused end₀
    have hframe := hj.candidate.frame_iff.mpr hj.sum
    refine h (Or.inr hstatus) (msgAt (l.drop j) 0).frame (ecbWellFormed_iff.mpr ⟨_, rfl⟩) ?_
    rw [hcons, infix_take_iff]
    refine ⟨j, ?_, hframe⟩
    have hfits := hj.candidate.fits
    have hpayload : (msgAt (l.drop j) 0).payload.length = dataLenAt (l.drop j) 0 := by
      rw [msgAt, List.length_take, List.length_drop]
      omega
    have hwithin := hj.within
    rw [EcbMsg.length_frame, hpayload]
    omega
  · intro h hrefused frame hframe hin
    obtain ⟨m, rfl⟩ := ecbWellFormed_iff.mp hframe
    obtain ⟨index, hheader, hcons | ⟨hmiss, hcons⟩⟩ := ecbUartParseMsg_refused hrefused
    · -- the bytes up to the header and one of it
      rw [hcons] at hin
      obtain ⟨j, hlen, hm⟩ := infix_take_iff.mp hin
      have hafter := frame_after_header hheader hm
      rw [m.length_frame] at hlen
      omega
    · rw [hcons] at hin
      obtain ⟨j, hlen, hm⟩ := infix_take_iff.mp hin
      exact h index hmiss j (hmiss.frameBehind hlen hm)

end Ecb

/-! ## The gesture board -/

section Gesture

variable {l : List UInt8} {index : Nat} {end₀ : Int}

/-- The header loop stops at the first header. -/
theorem gestureHeader_first {m : Nat → UInt8} {n i k : Nat}
    (h : (gestureHeader n i).run m = some k) :
    i ≤ k ∧ m k = 0xaa ∧ ∀ j, i ≤ j → m j = 0xaa → k ≤ j := by
  induction n generalizing i with
  | zero => cases h
  | succ n ih =>
      simp only [gestureHeader, Probe.run_look] at h
      split at h
      · rename_i hi
        obtain rfl := Option.some.inj h
        exact ⟨Nat.le_refl _, hi, fun j hj _ => hj⟩
      · rename_i hi
        obtain ⟨hle, hk, hfirst⟩ := ih h
        refine ⟨by omega, hk, ?_⟩
        intro j hij hj
        refine hfirst j (Nat.lt_of_le_of_ne hij ?_) hj
        rintro rfl
        exact hi hj

/-- What `verify` is over. -/
theorem take_eq_map_byteAt {l : List UInt8} {n : Nat} (h : n ≤ l.length) :
    l.take n = (List.range n).map fun k => byteAt l k := by
  refine List.ext_getElem (by simp [h]) ?_
  intro i h₁ h₂
  have hi : i < l.length := by
    rw [List.length_take] at h₁
    omega
  simp [byteAt, hi]

/-- **What is thrown away**: the bytes of one frame, from the first header on, and
those before it. -/
theorem gestureUartParseMsg_refused (h : (gestureUartParseMsg l end₀).status = .checkErr) :
    ∃ index, (gestureHeader l.length 0).run (byteAt l) = some index ∧ index + 10 ≤ l.length ∧
      (gestureUartParseMsg l end₀).consumed.toNat = index + 10 ∧
      msgVerify ((List.range 8).map fun k => byteAt l (index + k)) ≠
        UInt16.ofNat (be16 (byteAt l (index + 8)) (byteAt l (index + 9))) := by
  simp only [gestureUartParseMsg, gestureRead] at h ⊢
  split at h
  · cases h
  · rename_i hlen
    rw [if_neg hlen]
    simp only [Probe.run_bind] at h ⊢
    cases hheader : (gestureHeader l.length 0).run (byteAt l) with
    | none =>
        rw [hheader] at h
        cases h
    | some index =>
        rw [hheader] at h
        refine ⟨index, rfl, ?_⟩
        simp only [gestureFrameRead] at h ⊢
        split at h
        · cases h
        · rename_i hall
          rw [if_neg hall]
          simp only [Probe.run_look, Probe.run_bind, Probe.run_lookAll] at h ⊢
          split at h
          · rename_i hverify
            rw [if_pos hverify]
            refine ⟨by omega, ?_, hverify⟩
            exact Int.toNat_natCast _
          · split at h
            · cases h
            · cases h

/-- There is no room for another frame. -/
theorem gestureRejectsOnly (l : List UInt8) (end₀ : Int) : GestureRejectsOnly l end₀ := by
  intro h frame hframe hin
  obtain ⟨index, hheader, hfits, hcons, hverify⟩ := gestureUartParseMsg_refused h
  obtain ⟨-, -, hfirst⟩ := gestureHeader_first hheader
  rw [hcons] at hin
  obtain ⟨j, hlen, hpart⟩ := infix_take_iff.mp hin
  rw [hframe.length] at hlen
  have hbyte : ∀ k, k < 10 → byteAt l (j + k) = byteAt frame k := by
    intro k hk
    rw [← byteAt_drop]
    exact byteAt_prefix hpart (hframe.length ▸ hk)
  have hstart : byteAt l j = 0xaa := (hbyte 0 (by decide)).trans hframe.header
  have hle := hfirst j (Nat.zero_le j) hstart
  obtain rfl : j = index := by omega
  refine hverify ?_
  have hchecked : (List.range 8).map (fun k => byteAt l (j + k)) = frame.take 8 := by
    rw [take_eq_map_byteAt (hframe.length ▸ by decide)]
    refine List.map_congr_left ?_
    intro k hk
    exact hbyte k (Nat.lt_trans (List.mem_range.mp hk) (by decide))
  rw [hchecked, hbyte 8 (by decide), hbyte 9 (by decide), hframe.verify]

end Gesture

/-! ## Both -/

/-- **Refusing a frame costs no other**, exactly if no frame stands among the bytes
that a missing tail throws away. -/
theorem rejection_iff (input gesture : List UInt8) (end₀ end₁ : Int) :
    (EcbRejectsOnly input end₀ ∧ GestureRejectsOnly gesture end₁) ↔
      ∀ index, TailMissing input index → ∀ j, ¬ FrameBehind input index j := by
  rw [ecbRejectsOnly_iff]
  exact and_iff_left (gestureRejectsOnly gesture end₁)

/-- A frame of eleven bytes that is cut off behind its length, a whole heart beat, and
the beginning of the next frame. -/
def cutOffInput : List UInt8 :=
  [0xe6, 0xe6, 0, 1, 0x03, 0, 11] ++ ecbFrame 0x0c [] 2 ++ [0xe6, 0xe6, 0, 3]

/-- The heart beat is thrown away with the frame before it. -/
theorem rejection_swallows :
    (ecbUartParseMsg cutOffInput 0).status = .tailerErr ∧
      EcbWellFormed (ecbFrame 0x0c [] 2) ∧
      ecbFrame 0x0c [] 2 <:+: cutOffInput.take (ecbUartParseMsg cutOffInput 0).consumed.toNat ∧
      ¬ EcbRejectsOnly cutOffInput 0 := by
  have hstatus : (ecbUartParseMsg cutOffInput 0).status = .tailerErr := by decide +kernel
  have hwell : EcbWellFormed (ecbFrame 0x0c [] 2) := ⟨0x0c, [], 2, 0, rfl⟩
  have hin : ecbFrame 0x0c [] 2 <:+:
      cutOffInput.take (ecbUartParseMsg cutOffInput 0).consumed.toNat := by decide +kernel
  exact ⟨hstatus, hwell, hin, fun h => h (Or.inr hstatus) _ hwell hin⟩

end X50
