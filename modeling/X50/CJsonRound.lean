/-
# `X50.CJsonRound` — what is printed is read back

The texts of `cJSON_PrintUnformatted` are read by `cJSON_Parse`: first bytes, escapes,
numbers, then the values by induction on how sound they are.  A value whose text ends in a
mark is read back whatever follows; of a number the following byte must not be one of a
number (`Delimits`).  `strtod` is assumed to read an int that is printed (`ReadsInts`).
-/
import Mathlib.Data.List.TakeWhile
import X50.CJsonParse

namespace X50

open X50.Lib

namespace CJson

/-! ## Strings -/

theorem skipWhitespace_cons {c : UInt8} {l : List UInt8} (h : 32 < c) :
    skipWhitespace (c :: l) = c :: l := by
  have hc : ¬ c ≤ 32 := UInt8.not_le.mpr h
  simp [skipWhitespace, hc]

/-- The three ways a byte is written: itself, behind a backslash, or with its code. -/
theorem escape_cases (c : UInt8) :
    (escape c = [c] ∧ c ≠ 34 ∧ c ≠ 92) ∨
      (∃ d, escape c = [92, d] ∧ simpleEscape d = some c) ∨
      ∃ d e, escape c = [92, 117, 48, 48, d, e] ∧ parseHex4 [48, 48, d, e] = c.toNat ∧
        c.toNat < 0x80 ∧ d ≠ 34 ∧ d ≠ 92 ∧ e ≠ 34 ∧ e ≠ 92 := by
  have hall : ∀ n < 256, ∀ c, c = UInt8.ofNat n →
      (escape c = [c] ∧ c ≠ 34 ∧ c ≠ 92) ∨
        (escape c = [92, (escape c).getD 1 0] ∧ simpleEscape ((escape c).getD 1 0) = some c) ∨
        escape c = [92, 117, 48, 48, (escape c).getD 4 0, (escape c).getD 5 0] ∧
          parseHex4 [48, 48, (escape c).getD 4 0, (escape c).getD 5 0] = c.toNat ∧
          c.toNat < 0x80 ∧ (escape c).getD 4 0 ≠ 34 ∧ (escape c).getD 4 0 ≠ 92 ∧
          (escape c).getD 5 0 ≠ 34 ∧ (escape c).getD 5 0 ≠ 92 := by
    simp only [forall_eq]
    decide +kernel
  rcases hall c.toNat c.toNat_lt c (UInt8.ofNat_toNat).symm with h | h | h
  · exact .inl h
  · exact .inr (.inl ⟨_, h⟩)
  · exact .inr (.inr ⟨_, _, h⟩)

theorem escape_pos (c : UInt8) : 0 < (escape c).length := by
  rcases escape_cases c with ⟨h, -⟩ | ⟨d, h, -⟩ | ⟨d, e, h, -⟩ <;> simp [h]

/-- A byte of the literal that is neither a quote nor a backslash is passed. -/
theorem stringLiteral_plain {c : UInt8} {l : List UInt8} (hquote : c ≠ 34) (hslash : c ≠ 92) :
    stringLiteral (c :: l) = (stringLiteral l).map fun r => (c :: r.1, r.2) := by
  cases l with
  | nil => simp [stringLiteral, hquote]
  | cons d l => simp [stringLiteral, hquote, hslash]

/-- A backslash takes the next byte along. -/
theorem stringLiteral_escape {d : UInt8} {l : List UInt8} :
    stringLiteral (92 :: d :: l) = (stringLiteral l).map fun r => (92 :: d :: r.1, r.2) := by
  simp [stringLiteral]

/-- The literal ends behind no byte of what is written for a byte. -/
theorem stringLiteral_append_escape (c : UInt8) (l : List UInt8) :
    stringLiteral (escape c ++ l) =
      (stringLiteral l).map fun r => (escape c ++ r.1, r.2) := by
  rcases escape_cases c with ⟨h, hquote, hslash⟩ | ⟨d, h, -⟩ | ⟨d, e, h, -, -, hd, hd', he, he'⟩
  · rw [h]
    exact stringLiteral_plain hquote hslash
  · rw [h]
    exact stringLiteral_escape
  · have hzero : (48 : UInt8) ≠ 34 ∧ (48 : UInt8) ≠ 92 := by decide
    simp only [h, List.cons_append, List.nil_append]
    rw [stringLiteral_escape, stringLiteral_plain hzero.1 hzero.2,
      stringLiteral_plain hzero.1 hzero.2, stringLiteral_plain hd hd', stringLiteral_plain he he']
    simp only [Option.map_map]
    rfl

/-- **The literal** of a string ends at its closing quote. -/
theorem stringLiteral_print (s : CStr) (rest : List UInt8) :
    stringLiteral (s.flatMap escape ++ 34 :: rest) = some (s.flatMap escape, rest) := by
  induction s with
  | nil => cases rest <;> simp [stringLiteral]
  | cons c s ih =>
      rw [List.flatMap_cons, List.append_assoc, stringLiteral_append_escape, ih]
      rfl

/-- One round reads what is written for one byte. -/
theorem unescape_escape (n : Nat) (c : UInt8) (l : List UInt8) :
    unescape (n + 1) (escape c ++ l) = (unescape n l).map (c :: ·) := by
  rcases escape_cases c with ⟨h, -, hslash⟩ | ⟨d, h, hd⟩ | ⟨d, e, h, hhex, hascii, -⟩
  · rw [h, List.cons_append, List.nil_append, unescape, if_pos hslash]
  · have hne : ¬ (92 : UInt8) ≠ 92 := by decide
    rw [h, List.cons_append, List.cons_append, List.nil_append, unescape, if_neg hne,
      List.headD_cons, hd, List.tail_cons]
  · have hne : ¬ (92 : UInt8) ≠ 92 := by decide
    have hu : simpleEscape 117 = none := by decide
    have hutf : utf16LiteralToUtf8 (92 :: 117 :: 48 :: 48 :: d :: e :: l) = some ([c], 6) := by
      have hcode : parseHex4 (48 :: 48 :: d :: e :: l) = c.toNat := hhex
      have hsize : ¬ l.length + 1 + 1 + 1 + 1 + 1 + 1 < 6 := by omega
      have hlow : ¬ (0xdc00 ≤ c.toNat ∧ c.toNat ≤ 0xdfff) := by omega
      have hhigh : ¬ (0xd800 ≤ c.toNat ∧ c.toNat ≤ 0xdbff) := by omega
      have hmask : UInt8.ofNat (c.toNat &&& 0x7f) = c := by
        rw [show (0x7f : Nat) = 2 ^ 7 - 1 from rfl, Nat.and_two_pow_sub_one_eq_mod,
          Nat.mod_eq_of_lt hascii, UInt8.ofNat_toNat]
      simp only [utf16LiteralToUtf8, List.length_cons, if_neg hsize, List.drop_succ_cons,
        List.drop_zero, hcode, if_neg hlow, if_neg hhigh, utf8, if_pos hascii, hmask,
        Option.map_some]
    simp only [h, List.cons_append, List.nil_append]
    rw [unescape, if_neg hne, List.headD_cons, hu]
    simp only [if_true, hutf, Option.bind_some, List.drop_succ_cons, List.drop_zero]
    rfl

theorem unescape_print {n : Nat} {s : CStr} (hn : s.length ≤ n) :
    unescape n (s.flatMap escape) = some s := by
  induction s generalizing n with
  | nil => cases n <;> rfl
  | cons c s ih =>
      obtain ⟨n, rfl⟩ : ∃ k, n = k + 1 := ⟨n - 1, by simp only [List.length_cons] at hn; omega⟩
      rw [List.flatMap_cons, unescape_escape, ih (Nat.le_of_succ_le_succ hn)]
      rfl

theorem length_le_escape (s : CStr) : s.length ≤ (s.flatMap escape).length := by
  induction s with
  | nil => exact Nat.le_refl _
  | cons c s ih =>
      have := escape_pos c
      rw [List.flatMap_cons, List.length_append, List.length_cons]
      omega

theorem cstrOf_eq_self {s : CStr} (h : (0 : UInt8) ∉ s) : cstrOf s = s := by
  have hall : ∀ c ∈ s, decide (c ≠ 0) = Bool.true := by
    intro c hc
    have hne : c ≠ 0 := fun h0 => h (h0 ▸ hc)
    simpa using hne
  exact List.takeWhile_eq_self_iff.mpr hall

theorem printString_eq (s : CStr) : printString s = 34 :: (s.flatMap escape ++ [34]) := by
  have hquote : cstr "\"" = [34] := by decide
  rw [printString, hquote, List.append_assoc]
  rfl

/-- **A string** is read back, whatever follows. -/
theorem parseString_print {s : CStr} (hs : (0 : UInt8) ∉ s) (rest : List UInt8) :
    parseString (printString s ++ rest) = some (s, rest) := by
  have hhead : ¬ (34 :: (s.flatMap escape ++ 34 :: rest) : List UInt8).head? ≠ some 34 :=
    fun hne => hne rfl
  rw [printString_eq, List.cons_append, List.append_assoc, List.cons_append, List.nil_append,
    parseString, if_neg hhead, List.tail_cons, stringLiteral_print, Option.bind_some,
    unescape_print (length_le_escape s), Option.map_some, cstrOf_eq_self hs]

/-! ## Numbers -/

/-- The digits of a number. -/
def digitBytes (n : Nat) : List UInt8 := (Nat.toDigits 10 n).map fun c => UInt8.ofNat c.toNat

theorem cstr_ofList {l : List Char} (h : ∀ c ∈ l, c.toNat ≤ 127) :
    cstr (String.ofList l) = l.map fun c => UInt8.ofNat c.toNat := by
  have hbytes : l.flatMap String.utf8EncodeChar = l.map fun c => UInt8.ofNat c.toNat := by
    induction l with
    | nil => rfl
    | cons c l ih =>
        have hc : c.val.toNat ≤ 127 := h c List.mem_cons_self
        have hone : String.utf8EncodeChar c = [UInt8.ofNat c.toNat] := if_pos hc
        rw [List.flatMap_cons, hone, ih fun d hd => h d (List.mem_cons_of_mem _ hd)]
        rfl
  simp [cstr, List.utf8Encode, hbytes]

theorem toNat_of_isDigit {c : Char} (h : c.isDigit = Bool.true) :
    48 ≤ c.toNat ∧ c.toNat ≤ 57 := by
  simp only [Char.isDigit, Bool.and_eq_true, decide_eq_true_eq] at h
  exact h

theorem toNat_of_mem_toDigits {n : Nat} {c : Char} (h : c ∈ Nat.toDigits 10 n) :
    48 ≤ c.toNat ∧ c.toNat ≤ 57 :=
  toNat_of_isDigit (Nat.isDigit_of_mem_toDigits (by decide) (by decide) h)

theorem cstr_repr (n : Nat) : cstr n.repr = digitBytes n := by
  rw [Nat.repr_eq_ofList_toDigits]
  exact cstr_ofList fun c hc => by
    have := toNat_of_mem_toDigits hc
    omega

theorem cstr_append (a b : String) : cstr (a ++ b) = cstr a ++ cstr b := by
  simp [cstr]

/-- A number is its sign and its digits. -/
theorem decimal_eq (n : Int) :
    decimal n = (if n < 0 then [45] else []) ++ digitBytes n.natAbs := by
  cases n with
  | ofNat n =>
      have hpos : ¬ Int.ofNat n < 0 := by simp
      rw [if_neg hpos]
      exact cstr_repr n
  | negSucc n =>
      have hneg : Int.negSucc n < 0 := Int.negSucc_lt_zero n
      have hminus : cstr "-" = [45] := by decide
      rw [if_pos hneg, ← hminus, Int.natAbs_negSucc, ← cstr_repr, ← cstr_append]
      rfl

theorem isDigit_of_mem {n : Nat} {c : UInt8} (h : c ∈ digitBytes n) : isDigit c = Bool.true := by
  obtain ⟨c, hc, rfl⟩ := List.mem_map.mp h
  have := toNat_of_mem_toDigits hc
  simp only [isDigit, Bool.and_eq_true, decide_eq_true_eq, UInt8.le_iff_toNat_le]
  rw [UInt8.toNat_ofNat_of_lt' (show c.toNat < 256 by omega)]
  exact this

theorem digitBytes_ne_nil (n : Nat) : digitBytes n ≠ [] := by
  simp [digitBytes, Nat.toDigits_ne_nil]

theorem length_decimal {n : Int} (h : FitsInt n) : (decimal n).length ≤ 11 := by
  obtain ⟨hmin, hmax⟩ := h
  have hdigits : (digitBytes n.natAbs).length ≤ 10 := by
    rw [digitBytes, List.length_map]
    exact (Nat.length_toDigits_le_iff (by decide) (by decide)).mpr (by omega)
  rw [decimal_eq, List.length_append]
  split
  · simp only [List.length_cons, List.length_nil]
    omega
  · simp only [List.length_nil]
    omega

theorem isNumberChar_of_mem {n : Int} {c : UInt8} (h : c ∈ decimal n) :
    isNumberChar c = Bool.true := by
  rw [decimal_eq] at h
  rcases List.mem_append.mp h with h | h
  · split at h
    · obtain rfl := List.mem_singleton.mp h
      decide
    · cases h
  · simp [isNumberChar, isDigit_of_mem h]

/-- What follows does not go on with a number. -/
def Delimits (rest : List UInt8) : Prop := ∀ c ∈ rest.head?, isNumberChar c = Bool.false

/-- `strtod` reads an int that is printed, to its end. -/
def ReadsInts (strtod : Strtod) : Prop :=
  ∀ n : Int, FitsInt n → strtod (decimal n) = ((decimal n).length, (n : Rat))

theorem takeWhile_take {p : UInt8 → Bool} {l rest : List UInt8} {k : Nat} (hk : l.length ≤ k)
    (hl : ∀ c ∈ l, p c = Bool.true) (hrest : ∀ c ∈ rest.head?, p c = Bool.false) :
    ((l ++ rest).take k).takeWhile p = l := by
  have hnil : (rest.take (k - l.length)).takeWhile p = [] := by
    cases rest with
    | nil => simp
    | cons c rest =>
        have hc := hrest c rfl
        cases k - l.length with
        | zero => rfl
        | succ n => rw [List.take_succ_cons, List.takeWhile_cons, hc]; rfl
  rw [List.take_append, List.take_of_length_le hk, List.takeWhile_append_of_pos hl, hnil,
    List.append_nil]

/-- **A number** is read back in front of anything that does not go on with it. -/
theorem parseNumber_print {strtod : Strtod} (hint : ReadsInts strtod) {n : Int} (hn : FitsInt n)
    {rest : List UInt8} (hrest : Delimits rest) :
    parseNumber strtod (decimal n ++ rest) = some (.number n, rest) := by
  have hlen := length_decimal hn
  have htext : ((decimal n ++ rest).take 63).takeWhile isNumberChar = decimal n :=
    takeWhile_take (by omega) (fun c hc => isNumberChar_of_mem hc) hrest
  have hpos : (decimal n).length ≠ 0 := by
    have := List.length_pos_of_ne_nil (digitBytes_ne_nil n.natAbs)
    rw [decimal_eq, List.length_append]
    omega
  simp only [parseNumber, htext, hint n hn, if_neg hpos, toValueint_intCast hn,
    List.drop_left]

/-! ## Values -/

/-- A member of an object, as it is printed. -/
def printMember (m : CStr × CJson) : CStr := printString m.1 ++ 58 :: m.2.printUnformatted

theorem printItems_eq (items : List CJson) :
    printItems items = Listing.joined 44 printUnformatted items := by
  have hcomma : cstr "," = [44] := by decide
  induction items with
  | nil => rfl
  | cons item items ih =>
      cases items with
      | nil => rfl
      | cons next items =>
          rw [printItems, ih, hcomma, List.append_assoc]
          · rfl
          · exact List.cons_ne_nil next items

theorem printMembers_eq (members : List (CStr × CJson)) :
    printMembers members = Listing.joined 44 printMember members := by
  have hcomma : cstr "," = [44] := by decide
  have hcolon : cstr ":" = [58] := by decide
  induction members with
  | nil => rfl
  | cons m members ih =>
      cases members with
      | nil => rw [printMembers, hcolon, List.append_assoc]; rfl
      | cons next members =>
          rw [printMembers, ih, hcomma, hcolon]
          · simp [Listing.joined, printMember]
          · exact List.cons_ne_nil next members

/-- No text begins with a blank, with the end of an array or with a byte order mark. -/
theorem printUnformatted_head (t : CJson) :
    ∃ c l, t.printUnformatted = c :: l ∧ 32 < c ∧ c ≠ 93 ∧ c ≠ 0xef := by
  cases t with
  | null => exact ⟨110, [117, 108, 108], by decide, by decide, by decide, by decide⟩
  | false => exact ⟨102, [97, 108, 115, 101], by decide, by decide, by decide, by decide⟩
  | true => exact ⟨116, [114, 117, 101], by decide, by decide, by decide, by decide⟩
  | number n =>
      cases hd : decimal n with
      | nil =>
          have := digitBytes_ne_nil n.natAbs
          rw [decimal_eq] at hd
          exact absurd (List.append_eq_nil_iff.mp hd).2 this
      | cons c l =>
          have hc : isNumberChar c = Bool.true :=
            isNumberChar_of_mem (hd ▸ List.mem_cons_self (l := l))
          have hall : ∀ n < 256, isNumberChar (UInt8.ofNat n) = Bool.true →
              32 < UInt8.ofNat n ∧ UInt8.ofNat n ≠ 93 ∧ UInt8.ofNat n ≠ 0xef := by
            decide +kernel
          have hmark := hall c.toNat c.toNat_lt (by rwa [UInt8.ofNat_toNat])
          rw [UInt8.ofNat_toNat] at hmark
          exact ⟨c, l, hd, hmark⟩
  | string s => exact ⟨34, _, printString_eq s, by decide, by decide, by decide⟩
  | array items => exact ⟨91, _, rfl, by decide, by decide, by decide⟩
  | object members => exact ⟨123, _, rfl, by decide, by decide, by decide⟩

section

variable {strtod : Strtod} {levels : Nat}

theorem literals : cstr "null" = [110, 117, 108, 108] ∧ cstr "false" = [102, 97, 108, 115, 101] ∧
    cstr "true" = [116, 114, 117, 101] := by decide

theorem parseValue_string (l : List UInt8) :
    parseValue strtod levels (34 :: l) =
      (parseString (34 :: l)).map fun r => (.string r.1, r.2) := by
  unfold parseValue
  simp [literals]

theorem parseValue_number {c : UInt8} {l : List UInt8} (hc : c = 45 ∨ isDigit c = Bool.true) :
    parseValue strtod levels (c :: l) = parseNumber strtod (c :: l) := by
  have hall : ∀ n < 256, (UInt8.ofNat n = 45 ∨ isDigit (UInt8.ofNat n) = Bool.true) →
      UInt8.ofNat n ≠ 110 ∧ UInt8.ofNat n ≠ 102 ∧ UInt8.ofNat n ≠ 116 ∧ UInt8.ofNat n ≠ 34 := by
    decide +kernel
  have hne := hall c.toNat c.toNat_lt (by rwa [UInt8.ofNat_toNat])
  rw [UInt8.ofNat_toNat] at hne
  obtain ⟨hnull, hfalse, htrue, hquote⟩ := hne
  unfold parseValue
  simp [literals, hnull, hfalse, htrue, hquote, hc]

theorem parseValue_array (l : List UInt8) :
    parseValue strtod (levels + 1) (91 :: l) =
      parseArray (parseValue strtod levels) (91 :: l) := by
  rw [parseValue]
  simp [literals, isDigit]

theorem parseValue_object (l : List UInt8) :
    parseValue strtod (levels + 1) (123 :: l) =
      parseObject (parseValue strtod levels) (123 :: l) := by
  rw [parseValue]
  simp [literals, isDigit]

theorem delimits_cons {c : UInt8} {rest : List UInt8} (h : isNumberChar c = Bool.false) :
    Delimits (c :: rest) := by
  intro d hd
  obtain rfl := Option.some.inj hd
  exact h

/-- What is behind the text lets it end there; only a number needs this. -/
def EndsBefore (t : CJson) (rest : List UInt8) : Prop := (∃ n, t = .number n) → Delimits rest

/-- Every value is read back from its text by this reader. -/
def ReadsBack (read : Reader UInt8 CJson) (t : CJson) : Prop :=
  ∀ rest, EndsBefore t rest → read (t.printUnformatted ++ rest) = some (t, rest)

theorem marked_items {read : Reader UInt8 CJson} {items : List CJson}
    (h : ∀ item ∈ items, ReadsBack read item) :
    Listing.Marked skipWhitespace 44 93 read printUnformatted items where
  item := by
    intro item _ rest
    obtain ⟨c, l, hc, hblank, -⟩ := printUnformatted_head item
    rw [hc]
    exact skipWhitespace_cons hblank
  mark := by
    rintro c rest (rfl | rfl)
    · exact skipWhitespace_cons (by decide)
    · exact skipWhitespace_cons (by decide)
  readBack := by
    rintro item hitem c rest (rfl | rfl)
    · exact h item hitem _ fun _ => delimits_cons (by decide)
    · exact h item hitem _ fun _ => delimits_cons (by decide)
  differ := by decide

/-- One round of an object reads a member back. -/
theorem parseMember_print {read : Reader UInt8 CJson} {m : CStr × CJson} {rest : List UInt8}
    (hname : (0 : UInt8) ∉ m.1) (hvalue : ReadsBack read m.2) (hends : EndsBefore m.2 rest) :
    parseMember read (printMember m ++ rest) = some (m, rest) := by
  obtain ⟨c, l, hc, hblank, -⟩ := printUnformatted_head m.2
  have hskip : skipWhitespace (m.2.printUnformatted ++ rest) = m.2.printUnformatted ++ rest := by
    rw [hc]
    exact skipWhitespace_cons hblank
  have hcolon : skipWhitespace (58 :: (m.2.printUnformatted ++ rest)) =
      58 :: (m.2.printUnformatted ++ rest) := skipWhitespace_cons (by decide)
  rw [printMember, List.append_assoc, List.cons_append, parseMember, parseString_print hname,
    Option.bind_some]
  simp only [hcolon, List.head?_cons, if_true, List.tail_cons, hskip, hvalue rest hends,
    Option.map_some]

theorem marked_members {read : Reader UInt8 CJson} {members : List (CStr × CJson)}
    (hnames : ∀ m ∈ members, (0 : UInt8) ∉ m.1) (h : ∀ m ∈ members, ReadsBack read m.2) :
    Listing.Marked skipWhitespace 44 125 (parseMember read) printMember members where
  item := by
    intro m _ rest
    rw [printMember, printString_eq]
    exact skipWhitespace_cons (by decide)
  mark := by
    rintro c rest (rfl | rfl)
    · exact skipWhitespace_cons (by decide)
    · exact skipWhitespace_cons (by decide)
  readBack := by
    rintro m hm c rest (rfl | rfl)
    · exact parseMember_print (hnames m hm) (h m hm) fun _ => delimits_cons (by decide)
    · exact parseMember_print (hnames m hm) (h m hm) fun _ => delimits_cons (by decide)
  differ := by decide

theorem printUnformatted_array (items : List CJson) :
    (CJson.array items).printUnformatted =
      91 :: (Listing.joined 44 printUnformatted items ++ [93]) := by
  have hopen : cstr "[" = [91] := by decide
  have hclose : cstr "]" = [93] := by decide
  rw [printUnformatted, hopen, hclose, printItems_eq]
  rfl

theorem printUnformatted_object (members : List (CStr × CJson)) :
    (CJson.object members).printUnformatted =
      123 :: (Listing.joined 44 printMember members ++ [125]) := by
  have hopen : cstr "\x7b" = [123] := by decide
  have hclose : cstr "\x7d" = [125] := by decide
  rw [printUnformatted, hopen, hclose, printMembers_eq]
  rfl

/-- **Values are read back**, at any depth that leaves them enough levels: by induction on
how sound they are. -/
theorem parseValue_print (hint : ReadsInts strtod) {t : CJson} (h : Sound levels t) :
    ReadsBack (parseValue strtod levels) t := by
  induction h with
  | null levels =>
      intro rest _
      unfold parseValue
      rw [if_pos] <;> rfl
  | false levels =>
      intro rest _
      have hnull : ¬ (CJson.false.printUnformatted ++ rest).take 4 = cstr "null" := by
        simp [printUnformatted, literals]
      unfold parseValue
      rw [if_neg hnull, if_pos] <;> rfl
  | true levels =>
      intro rest _
      have hnull : ¬ (CJson.true.printUnformatted ++ rest).take 4 = cstr "null" := by
        simp [printUnformatted, literals]
      have hfalse : ¬ (CJson.true.printUnformatted ++ rest).take 5 = cstr "false" := by
        simp [printUnformatted, literals]
      unfold parseValue
      rw [if_neg hnull, if_neg hfalse, if_pos] <;> rfl
  | number levels hn =>
      rename_i n
      intro rest hends
      have hfirst : ∃ c l, decimal n = c :: l ∧ (c = 45 ∨ isDigit c = Bool.true) := by
        rw [decimal_eq]
        split
        · exact ⟨45, _, rfl, .inl rfl⟩
        · obtain ⟨c, l, hc⟩ := List.exists_cons_of_ne_nil (digitBytes_ne_nil n.natAbs)
          exact ⟨c, l, hc, .inr (isDigit_of_mem (hc ▸ List.mem_cons_self))⟩
      obtain ⟨c, l, hc, hdigit⟩ := hfirst
      have hnumber := parseNumber_print hint hn (hends ⟨n, rfl⟩)
      rw [hc, List.cons_append] at hnumber
      rw [printUnformatted, hc, List.cons_append, parseValue_number hdigit, hnumber]
  | string levels hs =>
      rename_i s
      intro rest _
      have hstring := parseString_print hs rest
      rw [printString_eq, List.cons_append] at hstring
      rw [printUnformatted, printString_eq, List.cons_append, parseValue_string, hstring]
      rfl
  | @array levels items _ ih =>
      intro rest _
      have hopen : ∀ item ∈ items, ∃ c l, printUnformatted item = c :: l ∧ c ≠ 93 := by
        intro item _
        obtain ⟨c, l, hc, -, hne, -⟩ := printUnformatted_head item
        exact ⟨c, l, hc, hne⟩
      have hpos : ∀ item ∈ items, 0 < (printUnformatted item).length := by
        intro item hitem
        obtain ⟨c, l, hc, -⟩ := hopen item hitem
        rw [hc]
        exact Nat.succ_pos _
      have hrounds : items.length ≤ (Listing.joined 44 printUnformatted items).length :=
        Listing.length_le_joined hpos
      have hread : Listing.bracketed skipWhitespace 93
          (Listing.each skipWhitespace 44 (parseValue strtod levels)
            ((Listing.joined 44 printUnformatted items ++ 93 :: rest).length + 1))
          (Listing.joined 44 printUnformatted items ++ 93 :: rest) = some (items, rest) :=
        Listing.bracketed_joined (marked_items ih) (by rw [List.length_append]; omega) hopen
      rw [printUnformatted_array, List.cons_append, List.append_assoc, List.cons_append,
        List.nil_append, parseValue_array, parseArray, List.tail_cons, List.length_cons,
        parseElements, hread]
      rfl
  | @object levels members hnames _ ih =>
      intro rest _
      have hopen : ∀ m ∈ members, ∃ c l, printMember m = c :: l ∧ c ≠ 125 := by
        intro m _
        rw [printMember, printString_eq]
        exact ⟨34, _, rfl, by decide⟩
      have hpos : ∀ m ∈ members, 0 < (printMember m).length := by
        intro m hm
        obtain ⟨c, l, hc, -⟩ := hopen m hm
        rw [hc]
        exact Nat.succ_pos _
      have hrounds : members.length ≤ (Listing.joined 44 printMember members).length :=
        Listing.length_le_joined hpos
      have hread : Listing.bracketed skipWhitespace 125
          (Listing.each skipWhitespace 44 (parseMember (parseValue strtod levels))
            ((Listing.joined 44 printMember members ++ 125 :: rest).length + 1))
          (Listing.joined 44 printMember members ++ 125 :: rest) = some (members, rest) :=
        Listing.bracketed_joined (marked_members hnames ih) (by rw [List.length_append]; omega) hopen
      rw [printUnformatted_object, List.cons_append, List.append_assoc, List.cons_append,
        List.nil_append, parseValue_object, parseObject, List.tail_cons, List.length_cons,
        parseElements, hread]
      rfl

/-- **`cJSON_Parse` reads back** what is printed, with text behind it or without. -/
theorem parse_print (hint : ReadsInts strtod) {t : CJson} (h : Sound nestingLimit t)
    {rest : List UInt8} (hends : EndsBefore t (rest ++ [0])) :
    parse strtod (t.printUnformatted ++ rest) = some t := by
  obtain ⟨c, l, hc, hblank, -, hbom⟩ := printUnformatted_head t
  have hne : ¬ t.printUnformatted ++ (rest ++ [0]) = [] := by simp [hc]
  have hmark : ¬ (4 < (t.printUnformatted ++ (rest ++ [0])).length ∧
      (t.printUnformatted ++ (rest ++ [0])).take 3 = [0xef, 0xbb, 0xbf]) := by
    rintro ⟨-, htake⟩
    rw [hc] at htake
    exact hbom (List.cons.inj htake).1
  have hskip : skipWhitespace (t.printUnformatted ++ (rest ++ [0])) =
      t.printUnformatted ++ (rest ++ [0]) := by
    rw [hc]
    exact skipWhitespace_cons hblank
  rw [parse, List.append_assoc, parseWithLengthOpts, if_neg hne, skipUtf8Bom, if_neg hmark, hskip,
    parseValue_print hint h _ hends]
  rfl

end

/-! ## The round trip -/

theorem zero_not_mem_printString (s : CStr) : (0 : UInt8) ∉ printString s := by
  have hall : ∀ n < 256, (0 : UInt8) ∉ escape (UInt8.ofNat n) := by decide +kernel
  have hescape : (0 : UInt8) ∉ s.flatMap escape := by
    intro h
    obtain ⟨c, -, hc⟩ := List.mem_flatMap.mp h
    have hno := hall c.toNat c.toNat_lt
    rw [UInt8.ofNat_toNat] at hno
    exact hno hc
  rw [printString_eq]
  simpa using hescape

/-- A text has no NUL in it. -/
theorem zero_not_mem_print {levels : Nat} {t : CJson} (h : Sound levels t) :
    (0 : UInt8) ∉ t.printUnformatted := by
  induction h with
  | null levels => decide
  | false levels => decide
  | true levels => decide
  | number levels _ => exact fun h => absurd (isNumberChar_of_mem h) (by decide)
  | string levels _ => exact zero_not_mem_printString _
  | @array levels items _ ih =>
      rw [printUnformatted_array]
      intro h
      simp only [List.mem_cons, List.mem_append, List.not_mem_nil, or_false] at h
      rcases h with h | h | h
      · exact absurd h (by decide)
      · rcases Listing.mem_joined h with h | ⟨item, hitem, h⟩
        · exact absurd h (by decide)
        · exact ih item hitem h
      · exact absurd h (by decide)
  | @object levels members _ _ ih =>
      rw [printUnformatted_object]
      intro h
      simp only [List.mem_cons, List.mem_append, List.not_mem_nil, or_false] at h
      rcases h with h | h | h
      · exact absurd h (by decide)
      · rcases Listing.mem_joined h with h | ⟨m, hm, h⟩
        · exact absurd h (by decide)
        · rcases List.mem_append.mp h with h | h
          · exact zero_not_mem_printString m.1 h
          · rcases List.mem_cons.mp h with h | h
            · exact absurd h (by decide)
            · exact ih m hm h
      · exact absurd h (by decide)

/-- Values the structure can hold whose doubles are ints. -/
inductive HoldsInts : CJson → Prop
  | null : HoldsInts .null
  | false : HoldsInts .false
  | true : HoldsInts .true
  | number {n : Int} : FitsInt n → HoldsInts (.number n)
  | string (s : CStr) : HoldsInts (.string s)
  | array {items : List CJson} : (∀ item ∈ items, HoldsInts item) → HoldsInts (.array items)
  | object {members : List (CStr × CJson)} : (∀ m ∈ members, HoldsInts m.2) →
      HoldsInts (.object members)

/-- No string and no name has a NUL in it, and there are so many levels of nesting at most. -/
inductive Readable : Nat → CJson → Prop
  | null (levels : Nat) : Readable levels .null
  | false (levels : Nat) : Readable levels .false
  | true (levels : Nat) : Readable levels .true
  | number (levels : Nat) (n : Int) : Readable levels (.number n)
  | string (levels : Nat) {s : CStr} : 0 ∉ s → Readable levels (.string s)
  | array {levels : Nat} {items : List CJson} :
      (∀ item ∈ items, Readable levels item) → Readable (levels + 1) (.array items)
  | object {levels : Nat} {members : List (CStr × CJson)} :
      (∀ m ∈ members, 0 ∉ m.1) → (∀ m ∈ members, Readable levels m.2) →
        Readable (levels + 1) (.object members)

theorem Sound.readable {levels : Nat} {t : CJson} (h : Sound levels t) : Readable levels t := by
  induction h with
  | null levels => exact .null levels
  | false levels => exact .false levels
  | true levels => exact .true levels
  | number levels _ => exact .number levels _
  | string levels hs => exact .string levels hs
  | array _ ih => exact .array ih
  | object hnames _ ih => exact .object hnames ih

theorem HoldsInts.sound {levels : Nat} {t : CJson} (h : HoldsInts t) (hread : Readable levels t) :
    Sound levels t := by
  induction hread with
  | null levels => exact .null levels
  | false levels => exact .false levels
  | true levels => exact .true levels
  | number levels n =>
      cases h with
      | number hn => exact .number levels hn
  | string levels hs => exact .string levels hs
  | array _ ih =>
      cases h with
      | array hitems => exact .array fun item hitem => ih item hitem (hitems item hitem)
  | object hnames _ ih =>
      cases h with
      | object hmembers => exact .object hnames fun m hm => ih m hm (hmembers m hm)

/-- **Printing and parsing.**  Of a value whose numbers are ints the structure holds, the text
that `cJSON_PrintUnformatted` makes is read back by `cJSON_Parse` as that value if and only
if its strings and names have no NUL in them, and it is nested at most 1000 levels deep. -/
theorem cjson_round_trip_iff {strtod : Strtod} (hstrtod : ReadsInts strtod) {t : CJson}
    (hints : HoldsInts t) :
    parse strtod t.printUnformatted = some t ↔ Readable nestingLimit t := by
  constructor
  · exact fun h => (parse_sound h).readable
  · intro h
    have hend : EndsBefore t ([] ++ [0]) := fun _ => delimits_cons (by decide)
    simpa using parse_print hstrtod (hints.sound h) hend

/-- `strtod`, as far as signs and digits go. -/
def decimalStrtod : Strtod := fun text =>
  let sign := if text.head? = some 45 then 1 else 0
  let digits := (text.drop sign).takeWhile isDigit
  let number : Nat := digits.foldl (fun n c => 10 * n + (c.toNat - 48)) 0
  if digits = [] then (0, 0)
  else (sign + digits.length, if sign = 1 then ((-number : Int) : Rat) else (number : Int))

theorem foldl_digitBytes (n : Nat) :
    (digitBytes n).foldl (fun n c => 10 * n + (c.toNat - 48)) 0 = n := by
  rw [digitBytes, List.foldl_map]
  have hstep : ∀ (sofar : Nat) (c : Char), c ∈ Nat.toDigits 10 n →
      10 * sofar + ((UInt8.ofNat c.toNat).toNat - 48) = 10 * sofar + (c.toNat - '0'.toNat) := by
    intro sofar c hc
    have := toNat_of_mem_toDigits hc
    rw [UInt8.toNat_ofNat_of_lt' (show c.toNat < 256 by omega)]
    rfl
  rw [List.foldl_ext _ _ 0 hstep]
  exact Nat.ofDigitChars_ten_toDigits

theorem takeWhile_digitBytes (n : Nat) : (digitBytes n).takeWhile isDigit = digitBytes n := by
  exact List.takeWhile_eq_self_iff.mpr fun c hc => isDigit_of_mem hc

theorem decimalStrtod_reads : ReadsInts decimalStrtod := by
  intro n _
  have hdigits := digitBytes_ne_nil n.natAbs
  by_cases hneg : n < 0
  · have habs : -((n.natAbs : Nat) : Int) = n := by omega
    rw [decimal_eq, if_pos hneg]
    simp only [decimalStrtod, List.cons_append, List.nil_append, List.head?_cons, if_true,
      List.drop_succ_cons, List.drop_zero, takeWhile_digitBytes, foldl_digitBytes, if_neg hdigits,
      habs, List.length_cons]
    rw [Nat.add_comm]
  · have habs : ((n.natAbs : Nat) : Int) = n := by omega
    have hsign : ¬ (digitBytes n.natAbs).head? = some 45 := by
      intro hhead
      obtain ⟨l, hl⟩ := List.head?_eq_some_iff.mp hhead
      have hminus := isDigit_of_mem (hl ▸ List.mem_cons_self : (45 : UInt8) ∈ digitBytes n.natAbs)
      exact absurd hminus (by decide)
    have hone : ¬ (0 : Nat) = 1 := by decide
    rw [decimal_eq, if_neg hneg, List.nil_append]
    simp only [decimalStrtod, if_neg hsign, List.drop_zero, takeWhile_digitBytes,
      foldl_digitBytes, if_neg hdigits, if_neg hone, habs, Nat.zero_add]

/-- A stage of cooking, with a remark in it. -/
def stageJson : CJson :=
  .object [(cstr "Mode", .number 38), (cstr "Temp", .number (-5)), (cstr "Paused", .false),
    (cstr "Remark", .string [34, 10, 0xe7, 0x82, 0xb9]), (cstr "Steps", .array [.null, .object []])]

theorem readable_stageJson : Readable nestingLimit stageJson := by
  have hsteps : Readable 999 (.array [.null, .object []]) := by
    refine .array ?_
    rintro item (_ | ⟨_, _ | ⟨_, ⟨⟩⟩⟩)
    · exact .null 998
    · exact .object (fun m hm => absurd hm List.not_mem_nil) fun m hm => absurd hm List.not_mem_nil
  refine .object (by decide) ?_
  intro m hm
  simp only [List.mem_cons, List.not_mem_nil, or_false] at hm
  rcases hm with rfl | rfl | rfl | rfl | rfl
  · exact .number _ _
  · exact .number _ _
  · exact .false _
  · exact .string _ (by decide)
  · exact hsteps

theorem holdsInts_stageJson : HoldsInts stageJson := by
  have hsteps : HoldsInts (.array [.null, .object []]) := by
    refine .array ?_
    rintro item (_ | ⟨_, _ | ⟨_, ⟨⟩⟩⟩)
    · exact .null
    · exact .object fun m hm => absurd hm List.not_mem_nil
  refine .object ?_
  intro m hm
  simp only [List.mem_cons, List.not_mem_nil, or_false] at hm
  rcases hm with rfl | rfl | rfl | rfl | rfl
  · exact .number (by decide)
  · exact .number (by decide)
  · exact .false
  · exact .string _
  · exact hsteps

theorem cjson_round_trip_stage :
    CJson.parse decimalStrtod stageJson.printUnformatted = some stageJson :=
  (cjson_round_trip_iff decimalStrtod_reads holdsInts_stageJson).mpr readable_stageJson

end CJson

end X50
