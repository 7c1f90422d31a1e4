/-
# `X50.Lib.Crc` — shift registers as polynomial division

A string of coefficients is a polynomial, its first entry the coefficient of the
highest power.  Dividing by a monic polynomial goes one coefficient at a time
(`X_mul_modByMonic`), and a register that shifts to the right and holds its
polynomial backwards, bit `i` the coefficient of `X ^ (n - 1 - i)`, takes such a
step over `ZMod 2`:

    crcShift poly w       w >> 1, and poly added when a one fell out
    crcSymbol poly w d    d added to the register, then a shift for each of its bits
    crcSymbols poly w ds  a register after a string of symbols

So the register after a message is the remainder of the message
(`crcSymbols_zero`), and two messages that differ within a window no longer than
the register have different remainders (`DiffersWithin.crcSymbols_ne`): the
remainder is linear, and the divisor has no factor `X`.
-/
import Mathlib.Algebra.Polynomial.FieldDivision
import Mathlib.Algebra.Field.ZMod
import Mathlib.Data.List.TakeDrop

namespace X50.Lib

open Polynomial

/-! ## Strings of coefficients -/

section Coefficients

variable {R : Type*} [CommRing R]

/-- The polynomial of a string of coefficients, the highest first. -/
noncomputable def msgPoly : List R → R[X]
  | [] => 0
  | b :: bs => C b * X ^ bs.length + msgPoly bs

@[simp] theorem msgPoly_nil : msgPoly ([] : List R) = 0 := rfl

theorem msgPoly_append (as bs : List R) :
    msgPoly (as ++ bs) = msgPoly as * X ^ bs.length + msgPoly bs := by
  induction as with
  | nil => simp
  | cons a as ih =>
      simp only [List.cons_append, msgPoly, ih, List.length_append, pow_add]
      ring

theorem coeff_msgPoly (bs : List R) (k : ℕ) : (msgPoly bs).coeff k = (bs.reverse[k]?).getD 0 := by
  induction bs with
  | nil => simp
  | cons b bs ih =>
      rw [msgPoly, coeff_add, ih, coeff_C_mul_X_pow, List.reverse_cons]
      rcases Nat.lt_trichotomy k bs.length with hlt | rfl | hgt
      · rw [List.getElem?_append_left (by simpa using hlt), if_neg hlt.ne, zero_add]
      · simp
      · rw [if_neg hgt.ne', zero_add]
        simp [List.getElem?_eq_none, hgt.le, Nat.succ_le_of_lt hgt]

theorem degree_msgPoly_lt (bs : List R) : (msgPoly bs).degree < bs.length := by
  rw [degree_lt_iff_coeff_zero]
  intro k hk
  simp [coeff_msgPoly, hk]

theorem msgPoly_inj {as bs : List R} (hlen : as.length = bs.length) (h : msgPoly as = msgPoly bs) :
    as = bs := by
  apply List.reverse_injective
  apply List.ext_getElem?
  intro k
  have hk : (as.reverse[k]?).getD 0 = (bs.reverse[k]?).getD 0 := by
    rw [← coeff_msgPoly, ← coeff_msgPoly, h]
  rcases Nat.lt_or_ge k as.length with hlt | hge
  · have ha : k < as.reverse.length := by simpa using hlt
    have hb : k < bs.reverse.length := by simpa [hlen] using hlt
    rw [List.getElem?_eq_getElem ha, List.getElem?_eq_getElem hb] at hk ⊢
    exact congrArg some hk
  · rw [List.getElem?_eq_none (by simpa using hge), List.getElem?_eq_none (by simpa [← hlen] using hge)]

/-! ## Division, one coefficient at a time -/

/-- **One step of the division**: the highest coefficient of the remainder falls
out of `X * r`, and is taken away as so many divisors. -/
theorem X_mul_modByMonic [Nontrivial R] {P r : R[X]} {n : ℕ} (hP : P.Monic)
    (hn : P.natDegree = n + 1) (hr : r.degree < (n + 1 : ℕ)) :
    (X * r) %ₘ P = X * r - C (r.coeff n) * P := by
  have hdeg : P.degree = (n + 1 : ℕ) := by rw [degree_eq_natDegree hP.ne_zero, hn]
  refine (div_modByMonic_unique (C (r.coeff n)) _ hP ⟨by ring, ?_⟩).2
  rw [hdeg, degree_lt_iff_coeff_zero]
  intro m hm
  obtain ⟨m, rfl⟩ : ∃ k, m = k + 1 := ⟨m - 1, by omega⟩
  rw [coeff_sub, coeff_X_mul, coeff_C_mul]
  rcases Nat.eq_or_lt_of_le (Nat.succ_le_succ_iff.mp hm) with rfl | hlt
  · have hone : P.coeff (n + 1) = 1 := by rw [← hn]; exact hP.coeff_natDegree
    rw [hone, mul_one, sub_self]
  · have hrm : r.coeff m = 0 := (degree_lt_iff_coeff_zero _ _).mp hr m hlt
    have hPm : P.coeff (m + 1) = 0 := coeff_eq_zero_of_natDegree_lt (by omega)
    rw [hrm, hPm, mul_zero, sub_zero]

/-- Reducing before a multiplication changes nothing. -/
theorem mul_modByMonic_left (p q P : R[X]) : ((p %ₘ P) * q) %ₘ P = (p * q) %ₘ P := by
  rcases subsingleton_or_nontrivial R with hsub | hnon
  · exact Subsingleton.elim _ _
  · by_cases hP : P.Monic
    · rw [← sub_eq_zero, ← sub_modByMonic, modByMonic_eq_zero_iff_dvd hP, ← sub_mul]
      exact (dvd_modByMonic_sub p P).mul_right q
    · simp only [modByMonic_eq_of_not_monic _ hP]

end Coefficients

/-! ## Messages that differ within a window -/

/-- The two strings agree outside some `w` consecutive places. -/
def DiffersWithin {α : Type*} (w : ℕ) (as bs : List α) : Prop :=
  ∃ k, ∀ i, i < k ∨ k + w ≤ i → as[i]? = bs[i]?

theorem DiffersWithin.map {α β : Type*} {w : ℕ} {as bs : List α} (f : α → β)
    (h : DiffersWithin w as bs) : DiffersWithin w (as.map f) (bs.map f) := by
  obtain ⟨k, hk⟩ := h
  refine ⟨k, fun i hi => ?_⟩
  rw [List.getElem?_map, List.getElem?_map, hk i hi]

/-- A common beginning, the window, and a common end. -/
theorem DiffersWithin.split {α : Type*} {w : ℕ} {as bs : List α} (h : DiffersWithin w as bs)
    (hlen : as.length = bs.length) :
    ∃ u x y v, as = u ++ (x ++ v) ∧ bs = u ++ (y ++ v) ∧ x.length = y.length ∧ x.length ≤ w := by
  obtain ⟨k, hk⟩ := h
  have hfront : as.take k = bs.take k := by
    apply List.ext_getElem?
    intro i
    simp only [List.getElem?_take]
    split
    · exact hk i (Or.inl ‹_›)
    · rfl
  have hback : as.drop (k + w) = bs.drop (k + w) := by
    apply List.ext_getElem?
    intro i
    simp only [List.getElem?_drop]
    exact hk _ (Or.inr (by omega))
  have hcut : ∀ cs : List α, cs = cs.take k ++ ((cs.drop k).take w ++ cs.drop (k + w)) := by
    intro cs
    rw [← List.drop_drop, List.take_append_drop, List.take_append_drop]
  refine ⟨as.take k, (as.drop k).take w, (bs.drop k).take w, as.drop (k + w), hcut as, ?_, ?_, ?_⟩
  · rw [hfront, hback]
    exact hcut bs
  · simp [hlen]
  · simp

/-- **Burst detection.**  A divisor with no factor `X` tells apart the remainders of
two messages that differ within a window no longer than its degree. -/
theorem DiffersWithin.modByMonic_ne {K : Type*} [Field K] {P : K[X]} (hP : P.Monic)
    (hzero : P.coeff 0 ≠ 0) {as bs : List K} (h : DiffersWithin P.natDegree as bs)
    (hlen : as.length = bs.length) (hne : as ≠ bs) (k : ℕ) :
    (msgPoly as * X ^ k) %ₘ P ≠ (msgPoly bs * X ^ k) %ₘ P := by
  obtain ⟨u, x, y, v, rfl, rfl, hxy, hw⟩ := h.split hlen
  intro heq
  have hcop : IsCoprime P (X ^ (v.length + k)) := by
    have hX : Irreducible (X : K[X]) := irreducible_X
    have hndvd : ¬ X ∣ P := fun h => hzero (X_dvd_iff.mp h)
    exact (hX.coprime_iff_not_dvd.mpr hndvd).symm.pow_right
  have hdvd : P ∣ X ^ (v.length + k) * (msgPoly x - msgPoly y) := by
    rw [← sub_eq_zero, ← sub_modByMonic, modByMonic_eq_zero_iff_dvd hP] at heq
    have hdiff : msgPoly (u ++ (x ++ v)) * X ^ k - msgPoly (u ++ (y ++ v)) * X ^ k =
        X ^ (v.length + k) * (msgPoly x - msgPoly y) := by
      simp only [msgPoly_append, List.length_append, hxy]
      ring
    rwa [hdiff] at heq
  have hwin : P ∣ msgPoly x - msgPoly y := hcop.dvd_of_dvd_mul_left hdvd
  -- the difference of the windows has a degree below that of the divisor
  have hsmall : (msgPoly x - msgPoly y).degree < P.degree := by
    rw [degree_eq_natDegree hP.ne_zero, degree_lt_iff_coeff_zero]
    intro m hm
    have hx : m ≥ x.length := hw.trans hm
    have hy : m ≥ y.length := hxy ▸ hx
    simp [coeff_msgPoly, hx, hy]
  have hpoly : msgPoly x = msgPoly y := by
    rw [← sub_eq_zero]
    exact eq_zero_of_dvd_of_degree_lt hwin hsmall
  exact hne (by rw [msgPoly_inj hxy hpoly])

/-! ## Registers -/

/-- A bit as an element of the field of two elements. -/
def gf2 (b : Bool) : ZMod 2 := if b then 1 else 0

theorem gf2_xor (a b : Bool) : gf2 (a ^^ b) = gf2 a + gf2 b := by
  cases a <;> cases b <;> decide

theorem gf2_injective : Function.Injective gf2 := by
  intro a b h
  cases a <;> cases b <;> first | rfl | exact absurd h (by decide)

/-- The bits of a word, the least significant first. -/
def bitsLsb {n : ℕ} (w : BitVec n) : List Bool := (List.range n).map w.getLsbD

@[simp] theorem length_bitsLsb {n : ℕ} (w : BitVec n) : (bitsLsb w).length = n := by
  simp [bitsLsb]

theorem bitsLsb_injective {n : ℕ} : Function.Injective (bitsLsb (n := n)) := by
  intro v w h
  apply BitVec.eq_of_getLsbD_eq
  intro i hi
  have hget : (bitsLsb v)[i]? = (bitsLsb w)[i]? := by rw [h]
  simpa [bitsLsb, hi] using hget

/-- The polynomial of a string of bits. -/
noncomputable def bitsPoly (bs : List Bool) : (ZMod 2)[X] := msgPoly (bs.map gf2)

/-- The polynomial a register holds backwards. -/
noncomputable def regPoly {n : ℕ} (w : BitVec n) : (ZMod 2)[X] := bitsPoly (bitsLsb w)

theorem coeff_regPoly {n : ℕ} (w : BitVec n) (k : ℕ) :
    (regPoly w).coeff k = if k < n then gf2 (w.getLsbD (n - 1 - k)) else 0 := by
  rw [regPoly, bitsPoly, coeff_msgPoly]
  split
  · rename_i hk
    have hlt : n - 1 - k < n := by omega
    simp [bitsLsb, hk, hlt]
  · rename_i hk
    rw [List.getElem?_eq_none (by simpa using hk)]
    rfl

theorem degree_regPoly_lt {n : ℕ} (w : BitVec n) : (regPoly w).degree < n := by
  simpa [regPoly, bitsPoly] using degree_msgPoly_lt ((bitsLsb w).map gf2)

theorem regPoly_xor {n : ℕ} (v w : BitVec n) : regPoly (v ^^^ w) = regPoly v + regPoly w := by
  ext k
  simp only [coeff_add, coeff_regPoly, BitVec.getLsbD_xor, gf2_xor]
  split
  · rfl
  · rw [add_zero]

@[simp] theorem regPoly_zero (n : ℕ) : regPoly (0 : BitVec n) = 0 := by
  ext k
  simp [coeff_regPoly, gf2]

variable {n m : ℕ}

/-- The divisor of a register of `n` bits. -/
noncomputable def crcDivisor (poly : BitVec n) : (ZMod 2)[X] := X ^ n + regPoly poly

theorem monic_crcDivisor (poly : BitVec n) : (crcDivisor poly).Monic :=
  monic_X_pow_add (degree_regPoly_lt poly)

theorem natDegree_crcDivisor (poly : BitVec n) : (crcDivisor poly).natDegree = n := by
  rw [crcDivisor, natDegree_add_eq_left_of_degree_lt, natDegree_X_pow]
  rw [degree_X_pow]
  exact degree_regPoly_lt poly

/-- One shift of the register. -/
def crcShift (poly w : BitVec n) : BitVec n :=
  if w.getLsbD 0 then (w >>> 1) ^^^ poly else w >>> 1

/-- A symbol of `m` bits, the least significant first. -/
def crcSymbol (poly w : BitVec n) (d : BitVec m) : BitVec n :=
  (crcShift poly)^[m] (w ^^^ d.setWidth n)

/-- A string of symbols. -/
def crcSymbols (poly w : BitVec n) (ds : List (BitVec m)) : BitVec n :=
  ds.foldl (crcSymbol poly) w

/-- What a shift to the right does to the polynomial. -/
theorem X_mul_regPoly (w : BitVec (n + 1)) :
    X * regPoly w = C (gf2 (w.getLsbD 0)) * X ^ (n + 1) + regPoly (w >>> 1) := by
  ext k
  rw [coeff_add, coeff_C_mul_X_pow, coeff_regPoly, BitVec.getLsbD_ushiftRight]
  cases k with
  | zero => simp [gf2]
  | succ k =>
      rw [coeff_X_mul, coeff_regPoly]
      rcases Nat.lt_trichotomy k n with hlt | rfl | hgt
      · have hpos : 1 + (n + 1 - 1 - (k + 1)) = n + 1 - 1 - k := by omega
        rw [if_pos (by omega), if_neg (by omega), if_pos (by omega), hpos, zero_add]
      · simp
      · rw [if_neg (by omega), if_neg (by omega), if_neg (by omega), add_zero]

/-- **A shift of the register is a step of the division.** -/
theorem regPoly_crcShift (poly w : BitVec (n + 1)) :
    regPoly (crcShift poly w) = (X * regPoly w) %ₘ crcDivisor poly := by
  have htop : (regPoly w).coeff n = gf2 (w.getLsbD 0) := by simp [coeff_regPoly]
  rw [X_mul_modByMonic (monic_crcDivisor poly) (natDegree_crcDivisor poly) (degree_regPoly_lt w),
    htop, X_mul_regPoly, crcShift]
  cases hb : w.getLsbD 0 with
  | false => simp [gf2]
  | true =>
      -- over `ZMod 2` taking the divisor away is adding it
      have hchar : regPoly (w >>> 1) + regPoly poly = regPoly (w >>> 1) - regPoly poly := by
        rw [sub_eq_add_neg, CharTwo.neg_eq]
      rw [if_pos rfl, regPoly_xor, hchar, crcDivisor]
      simp only [gf2, if_true, map_one, one_mul]
      ring

theorem regPoly_modByMonic (poly w : BitVec n) : regPoly w %ₘ crcDivisor poly = regPoly w := by
  rw [modByMonic_eq_self_iff (monic_crcDivisor poly),
    degree_eq_natDegree (monic_crcDivisor poly).ne_zero, natDegree_crcDivisor]
  exact degree_regPoly_lt w

theorem regPoly_shifts (poly w : BitVec (n + 1)) (k : ℕ) :
    regPoly ((crcShift poly)^[k] w) = (regPoly w * X ^ k) %ₘ crcDivisor poly := by
  induction k with
  | zero => rw [Function.iterate_zero_apply, pow_zero, mul_one, regPoly_modByMonic]
  | succ k ih =>
      rw [Function.iterate_succ_apply', regPoly_crcShift, ih, mul_comm X, mul_modByMonic_left,
        mul_assoc, ← pow_succ]

/-- A symbol stands in the low bits of the register, the high coefficients. -/
theorem regPoly_setWidth (d : BitVec m) (hm : m ≤ n) :
    regPoly (d.setWidth n) = bitsPoly (bitsLsb d) * X ^ (n - m) := by
  change _ = regPoly d * _
  ext k
  rw [coeff_mul_X_pow', coeff_regPoly, coeff_regPoly, BitVec.getLsbD_setWidth]
  rcases Nat.lt_or_ge k n with hk | hk
  · rcases Nat.lt_or_ge k (n - m) with hlow | hhigh
    · -- beyond the symbol the register is empty
      have hout : d.getLsbD (n - 1 - k) = false := d.getLsbD_of_ge _ (by omega)
      rw [if_pos hk, if_neg (by omega), hout]
      simp [gf2]
    · have hpos : m - 1 - (k - (n - m)) = n - 1 - k := by omega
      have hin : n - 1 - k < n := by omega
      rw [if_pos hk, if_pos hhigh, if_pos (by omega), hpos]
      simp [hin]
  · rw [if_neg (by omega), if_pos (by omega), if_neg (by omega)]

theorem regPoly_crcSymbol (poly w : BitVec (n + 1)) (d : BitVec m) (hm : m ≤ n + 1) :
    regPoly (crcSymbol poly w d) =
      (regPoly w * X ^ m + bitsPoly (bitsLsb d) * X ^ (n + 1)) %ₘ crcDivisor poly := by
  have hexp : (X : (ZMod 2)[X]) ^ (n + 1 - m) * X ^ m = X ^ (n + 1) := by
    rw [← pow_add, Nat.sub_add_cancel hm]
  rw [crcSymbol, regPoly_shifts, regPoly_xor, regPoly_setWidth d hm, add_mul, mul_assoc, hexp]

theorem bitsPoly_append (as bs : List Bool) :
    bitsPoly (as ++ bs) = bitsPoly as * X ^ bs.length + bitsPoly bs := by
  rw [bitsPoly, List.map_append, msgPoly_append, List.length_map]
  rfl

theorem length_flatMap_bitsLsb (ds : List (BitVec m)) :
    (ds.flatMap bitsLsb).length = m * ds.length := by
  induction ds with
  | nil => rfl
  | cons d ds ih =>
      rw [List.flatMap_cons, List.length_append, ih, length_bitsLsb, List.length_cons]
      ring

theorem flatMap_bitsLsb_inj {ds es : List (BitVec m)} (hlen : ds.length = es.length)
    (h : ds.flatMap bitsLsb = es.flatMap bitsLsb) : ds = es := by
  induction ds generalizing es with
  | nil =>
      cases es with
      | nil => rfl
      | cons e es => simp at hlen
  | cons d ds ih =>
      cases es with
      | nil => simp at hlen
      | cons e es =>
          rw [List.flatMap_cons, List.flatMap_cons] at h
          obtain ⟨hd, hds⟩ := List.append_inj h (by simp)
          rw [bitsLsb_injective hd, ih (Nat.succ.inj hlen) hds]

/-- **The register after a string of symbols** is the remainder of what it held,
followed by the string. -/
theorem regPoly_crcSymbols (poly w : BitVec (n + 1)) (ds : List (BitVec m)) (hm : m ≤ n + 1) :
    regPoly (crcSymbols poly w ds) =
      (regPoly w * X ^ (m * ds.length) + bitsPoly (ds.flatMap bitsLsb) * X ^ (n + 1)) %ₘ
        crcDivisor poly := by
  induction ds generalizing w with
  | nil => simp [crcSymbols, bitsPoly, regPoly_modByMonic]
  | cons d ds ih =>
      have hstep : crcSymbols poly w (d :: ds) = crcSymbols poly (crcSymbol poly w d) ds := rfl
      rw [hstep, ih, regPoly_crcSymbol poly w d hm, add_modByMonic, mul_modByMonic_left,
        ← add_modByMonic, List.flatMap_cons, bitsPoly_append, length_flatMap_bitsLsb,
        List.length_cons]
      refine congrArg (fun p => p %ₘ crcDivisor poly) ?_
      ring

/-- From an empty register: the remainder of the message. -/
theorem crcSymbols_zero (poly : BitVec (n + 1)) (ds : List (BitVec m)) (hm : m ≤ n + 1) :
    regPoly (crcSymbols poly 0 ds) =
      (bitsPoly (ds.flatMap bitsLsb) * X ^ (n + 1)) %ₘ crcDivisor poly := by
  rw [regPoly_crcSymbols poly 0 ds hm, regPoly_zero, zero_mul, zero_add]

/-- The constant term of the divisor is the top bit of its word. -/
theorem coeff_zero_crcDivisor (poly : BitVec (n + 1)) :
    (crcDivisor poly).coeff 0 = gf2 poly.msb := by
  simp [crcDivisor, coeff_regPoly, BitVec.msb_eq_getLsbD_last]

/-- **A register sees every burst that is not longer than it is.** -/
theorem DiffersWithin.crcSymbols_ne {poly : BitVec (n + 1)} (hpoly : poly.msb = true)
    {ds es : List (BitVec m)} (hm : m ≤ n + 1)
    (h : DiffersWithin (n + 1) (ds.flatMap bitsLsb) (es.flatMap bitsLsb))
    (hlen : ds.length = es.length) (hne : ds ≠ es) :
    crcSymbols poly 0 ds ≠ crcSymbols poly 0 es := by
  intro heq
  have hzero : (crcDivisor poly).coeff 0 ≠ 0 := by
    rw [coeff_zero_crcDivisor, hpoly]
    decide
  have hwin : DiffersWithin (crcDivisor poly).natDegree ((ds.flatMap bitsLsb).map gf2)
      ((es.flatMap bitsLsb).map gf2) := by
    rw [natDegree_crcDivisor]
    exact h.map gf2
  refine hwin.modByMonic_ne (monic_crcDivisor poly) hzero ?_ ?_ (n + 1) ?_
  · simp only [List.length_map, length_flatMap_bitsLsb, hlen]
  · intro hmap
    exact hne (flatMap_bitsLsb_inj hlen (List.map_injective_iff.mpr gf2_injective hmap))
  · have hreg := congrArg regPoly heq
    rwa [crcSymbols_zero poly ds hm, crcSymbols_zero poly es hm] at hreg

end X50.Lib
