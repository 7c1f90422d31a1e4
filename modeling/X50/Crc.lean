/-
# `X50.Crc` — the check sum is the remainder of a polynomial

`CRC16_MAXIM` of `uart/ecb_uart.c` is a register of sixteen bits that shifts to
the right, a byte at a time; `InvertUint16` turns 0x8005 into the word the
register adds.  It leaves the complement of the remainder of the message by
`x^16 + x^15 + x^2 + 1`, the bits of every byte taken from the least significant
one.
-/
import X50.EcbUart
import X50.Lib.Crc

namespace X50

open X50.Lib Polynomial

/-! ## The register -/

theorem invertUint16_poly : invertUint16 0x8005 = 0xA001 := by decide

theorem and_one_ne_zero (w : UInt16) : w &&& 0x01 ≠ 0 ↔ w.toBitVec.getLsbD 0 = true := by
  have hand : (w &&& 0x01).toBitVec = BitVec.setWidth 16 (BitVec.ofBool (w.toBitVec.getLsbD 0)) := by
    rw [UInt16.toBitVec_and]
    exact BitVec.and_one_eq_setWidth_ofBool_getLsbD
  rw [← UInt16.toBitVec_inj.ne, hand]
  cases w.toBitVec.getLsbD 0 <;> decide

theorem toBitVec_crc16Bit (wCPoly w : UInt16) :
    (crc16Bit wCPoly w).toBitVec = crcShift wCPoly.toBitVec w.toBitVec := by
  rw [crc16Bit, crcShift]
  simp only [and_one_ne_zero]
  split
  · rw [UInt16.toBitVec_xor, UInt16.toBitVec_shiftRight]
    rfl
  · rw [UInt16.toBitVec_shiftRight]
    rfl

theorem toBitVec_crc16Byte (wCPoly w : UInt16) (d : UInt8) :
    (crc16Byte wCPoly w d).toBitVec = crcSymbol wCPoly.toBitVec w.toBitVec d.toBitVec := by
  have hloop : ∀ (k : ℕ) (v : UInt16),
      ((crc16Bit wCPoly)^[k] v).toBitVec = (crcShift wCPoly.toBitVec)^[k] v.toBitVec := by
    intro k v
    induction k with
    | zero => rfl
    | succ k ih =>
        rw [Function.iterate_succ_apply', Function.iterate_succ_apply', toBitVec_crc16Bit, ih]
  rw [crc16Byte, List.foldl_const, List.length_range, hloop, crcSymbol, UInt16.toBitVec_xor]
  rfl

/-- The complement of the register. -/
theorem toBitVec_crc16Maxim (data : List UInt8) :
    (crc16Maxim data).toBitVec =
      ~~~ crcSymbols (0xA001#16) 0 (data.map UInt8.toBitVec) := by
  have hloop : ∀ w : UInt16, (data.foldl (crc16Byte 0xA001) w).toBitVec =
      crcSymbols (0xA001#16) w.toBitVec (data.map UInt8.toBitVec) := by
    induction data with
    | nil =>
        intro w
        rfl
    | cons d data ih =>
        intro w
        rw [List.foldl_cons, ih, toBitVec_crc16Byte]
        rfl
  rw [crc16Maxim, invertUint16_poly, UInt16.toBitVec_xor, hloop]
  exact BitVec.xor_allOnes

/-! ## The code -/

/-- The bits of a message, each byte from its least significant bit on. -/
def bitsOf (data : List UInt8) : List Bool := data.flatMap fun d => bitsLsb d.toBitVec

theorem bitsOf_eq (data : List UInt8) : bitsOf data = (data.map UInt8.toBitVec).flatMap bitsLsb := by
  rw [bitsOf, List.flatMap_map]

theorem crcDivisor_maxim :
    crcDivisor (0xA001#16) = (X ^ 16 + X ^ 15 + X ^ 2 + 1 : (ZMod 2)[X]) := by
  have hbits : (bitsLsb (0xA001#16)).map gf2 = [1, 0, 0, 0, 0, 0, 0, 0, 0, 0, 0, 0, 0, 1, 0, 1] := by
    decide
  rw [crcDivisor, regPoly, bitsPoly, hbits]
  simp [msgPoly]
  ring

/-- The complement of the check sum holds the remainder backwards. -/
theorem regPoly_crc16Maxim (data : List UInt8) :
    regPoly (~~~ (crc16Maxim data).toBitVec) =
      (bitsPoly (bitsOf data) * X ^ 16) %ₘ (X ^ 16 + X ^ 15 + X ^ 2 + 1) := by
  rw [toBitVec_crc16Maxim, BitVec.not_not, bitsOf_eq, ← crcDivisor_maxim]
  exact crcSymbols_zero _ _ (by decide)

/-- A bit of the check sum is a coefficient of the remainder, complemented. -/
theorem getLsbD_crc16Maxim (data : List UInt8) {k : ℕ} (hk : k < 16) :
    (crc16Maxim data).toBitVec.getLsbD (15 - k) = true ↔
      ((bitsPoly (bitsOf data) * X ^ 16) %ₘ (X ^ 16 + X ^ 15 + X ^ 2 + 1)).coeff k = 0 := by
  have hin : 15 - k < 16 := by omega
  rw [← regPoly_crc16Maxim, coeff_regPoly, if_pos hk, BitVec.getLsbD_not]
  cases h : (crc16Maxim data).toBitVec.getLsbD (15 - k) <;> simp [hin, gf2]

/-- A burst of at most sixteen bits changes the check sum. -/
theorem crc16Maxim_ne {data other : List UInt8} (hlen : data.length = other.length)
    (hne : data ≠ other) (hwin : DiffersWithin 16 (bitsOf data) (bitsOf other)) :
    crc16Maxim data ≠ crc16Maxim other := by
  intro heq
  have hmap : data.map UInt8.toBitVec ≠ other.map UInt8.toBitVec := by
    intro h
    exact hne (List.map_injective_iff.mpr (fun a b => UInt8.toBitVec_inj.mp) h)
  have hreg : crcSymbols (0xA001#16) 0 (data.map UInt8.toBitVec) =
      crcSymbols (0xA001#16) 0 (other.map UInt8.toBitVec) := by
    have h := congrArg UInt16.toBitVec heq
    rwa [toBitVec_crc16Maxim, toBitVec_crc16Maxim, BitVec.not_inj] at h
  rw [bitsOf_eq, bitsOf_eq] at hwin
  exact hwin.crcSymbols_ne (by decide) (by decide) (by simpa using hlen) hmap hreg

/-- **The check sum is the intended code.**  Bit `15 - k` of it is the complement of
the coefficient of `x^k` in the remainder of the message, and messages of one length
that differ within sixteen consecutive bits have different check sums. -/
theorem crc16Maxim_is_crc16 (data : List UInt8) :
    (∀ k, k < 16 → ((crc16Maxim data).toBitVec.getLsbD (15 - k) = true ↔
      ((bitsPoly (bitsOf data) * X ^ 16) %ₘ (X ^ 16 + X ^ 15 + X ^ 2 + 1)).coeff k = 0)) ∧
    ∀ other : List UInt8, data.length = other.length → data ≠ other →
      DiffersWithin 16 (bitsOf data) (bitsOf other) → crc16Maxim data ≠ crc16Maxim other := by
  constructor
  · intro k hk
    exact getLsbD_crc16Maxim data hk
  · intro other hlen hne hwin
    exact crc16Maxim_ne hlen hne hwin

theorem crc16Maxim_is_crc16_pair : crc16Maxim [0x01, 0x80] ≠ crc16Maxim [0x00, 0x00] := by
  refine (crc16Maxim_is_crc16 [0x01, 0x80]).2 [0x00, 0x00] rfl (by decide) ⟨0, ?_⟩
  intro i hi
  have hge : 16 ≤ i := by omega
  rw [List.getElem?_eq_none (by simpa [bitsOf] using hge),
    List.getElem?_eq_none (by simpa [bitsOf] using hge)]

end X50
