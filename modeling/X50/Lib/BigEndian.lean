/-
# `X50.Lib.BigEndian` — numbers as bytes, the most significant first

The two loops every such protocol has, `v = (v << 8) + b` to read a number and
`b = v >> (8 * (len - 1 - i))` to write one, and that they are inverse at every
width.  Bit `i` of the number is bit `i % 8` of the byte `i / 8` from the end.
-/
import Mathlib.Data.Nat.Bitwise
import Mathlib.Data.List.Induction
import Mathlib.Tactic.Ring

namespace X50.Lib.BigEndian

/-- `v = (v << 8) + b`, over the bytes. -/
def decode (bytes : List UInt8) : Nat := bytes.foldl (fun v b => v * 256 + b.toNat) 0

/-- `b = n >> (8 * (len - 1 - i))`, for every `i`. -/
def encode (len n : Nat) : List UInt8 :=
  (List.range len).map fun i => UInt8.ofNat (n >>> (8 * (len - 1 - i)))

@[simp] theorem decode_nil : decode [] = 0 := rfl

@[simp] theorem decode_concat {bytes : List UInt8} {b : UInt8} :
    decode (bytes ++ [b]) = decode bytes * 256 + b.toNat := by
  simp [decode]

@[simp] theorem length_encode {len n : Nat} : (encode len n).length = len := by
  simp [encode]

/-- The last byte is the low one, the others are those of `n / 256`. -/
theorem encode_succ {len n : Nat} :
    encode (len + 1) n = encode len (n / 256) ++ [UInt8.ofNat n] := by
  have hlast : UInt8.ofNat (n >>> (8 * (len + 1 - 1 - len))) = UInt8.ofNat n := by simp
  rw [encode, List.range_succ, List.map_append, List.map_singleton, hlast]
  congr 1
  refine List.map_congr_left fun i hi => ?_
  have hi' : i < len := List.mem_range.mp hi
  have hshift : 8 * (len + 1 - 1 - i) = 8 + 8 * (len - 1 - i) := by omega
  rw [hshift, Nat.shiftRight_add, Nat.shiftRight_eq_div_pow n 8]

/-- Writing and reading back cuts to the width. -/
theorem decode_encode {len n : Nat} : decode (encode len n) = n % 256 ^ len := by
  induction len generalizing n with
  | zero => simp [encode, Nat.mod_one]
  | succ len ih =>
      have hbyte : (UInt8.ofNat n).toNat = n % 256 := UInt8.toNat_ofNat'
      rw [encode_succ, decode_concat, ih, hbyte, pow_succ', Nat.mod_mul]
      ring

theorem decode_encode_of_lt {len n : Nat} (h : n < 256 ^ len) : decode (encode len n) = n := by
  rw [decode_encode, Nat.mod_eq_of_lt h]

/-- The bits of a number are those of its bytes, from the end. -/
theorem testBit_decode {bytes : List UInt8} {i : Nat} :
    (decode bytes).testBit i =
      (bytes.reverse[i / 8]?.map fun b => b.toNat.testBit (i % 8)).getD false := by
  induction bytes using List.reverseRecOn generalizing i with
  | nil => simp
  | append_singleton bytes b ih =>
      have hb : b.toNat < 2 ^ 8 := b.toNat_lt
      rw [decode_concat, show decode bytes * 256 = 2 ^ 8 * decode bytes from Nat.mul_comm _ _,
        Nat.testBit_two_pow_mul_add _ hb, List.reverse_append, List.reverse_singleton,
        List.singleton_append]
      by_cases hi : i < 8
      · have hdiv : i / 8 = 0 := by omega
        have hmod : i % 8 = i := by omega
        simp [hi, hdiv, hmod]
      · have hdiv : i / 8 = (i - 8) / 8 + 1 := by omega
        have hmod : i % 8 = (i - 8) % 8 := by omega
        rw [if_neg hi, ih, hdiv, hmod, List.getElem?_cons_succ]

end X50.Lib.BigEndian
