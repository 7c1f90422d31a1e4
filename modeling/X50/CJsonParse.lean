/-
# `X50.CJsonParse` — `cJSON_Parse`

The reader of the text that `X50.CJson` writes.  A parse buffer is the list of the bytes
from `offset` on, the terminating NUL included; the nesting that is left, counted down from
`CJSON_NESTING_LIMIT`, is what the recursion is on.  `strtod` is the C library's, a
parameter.

Three habits of the library are kept: blanks are everything up to 32, the NUL included,
and where nothing else follows the last byte stays; an escape with bad digits reads as
`\u0000`; a string ends for its readers at the first NUL in it.

Everything that is accepted is sound: ints in range, strings without NUL, at most 1000
levels (`parse_sound`).  Sound values, and no others, are read back from what is printed
of them (`cjson_round_trip_iff`).
-/
import X50.CJson
import X50.Lib.Listing

namespace X50

open X50.Lib

/-- What `strtod` makes of a text: how many bytes it takes, and what they say.  For an
infinity stands a number past every int. -/
abbrev Strtod := CStr → Nat × Rat

namespace CJson

/-! ## Blanks -/

/-- `buffer_skip_whitespace`: at the end of the buffer it takes one step back. -/
def skipWhitespace (buffer : List UInt8) : List UInt8 :=
  if buffer.dropWhile (· ≤ 32) = [] then buffer.drop (buffer.length - 1)
  else buffer.dropWhile (· ≤ 32)

/-- `skip_utf8_bom`. -/
def skipUtf8Bom (buffer : List UInt8) : List UInt8 :=
  if 4 < buffer.length ∧ buffer.take 3 = [0xef, 0xbb, 0xbf] then buffer.drop 3 else buffer

/-! ## Numbers -/

/-- `'0'` to `'9'`. -/
def isDigit (c : UInt8) : Bool := 48 ≤ c && c ≤ 57

/-- What is copied for `strtod`: digits and `+-eE.`; the decimal point is the locale's, and
that is C. -/
def isNumberChar (c : UInt8) : Bool :=
  isDigit c || c == 43 || c == 45 || c == 101 || c == 69 || c == 46

/-- A double as an int, saturated. -/
def toValueint (number : Rat) : Int :=
  if (2147483647 : Int) ≤ number then 2147483647
  else if number ≤ (-2147483648 : Int) then -2147483648
  else if 0 ≤ number then number.floor else number.ceil

/-- `parse_number`; `number_c_string` has 64 bytes. -/
def parseNumber (strtod : Strtod) : Reader UInt8 CJson := fun buffer =>
  let read := strtod ((buffer.take 63).takeWhile isNumberChar)
  if read.1 = 0 then none else some (.number (toValueint read.2), buffer.drop read.1)

/-! ## Strings -/

/-- The value of a hexadecimal digit. -/
def hexDigit (c : UInt8) : Option Nat :=
  if isDigit c then some (c.toNat - 48)
  else if 65 ≤ c ∧ c ≤ 70 then some (10 + c.toNat - 65)
  else if 97 ≤ c ∧ c ≤ 102 then some (10 + c.toNat - 97)
  else none

/-- `parse_hex4`: 0 where a digit is not one. -/
def parseHex4 (input : List UInt8) : Nat :=
  match (input.take 4).mapM hexDigit with
  | some digits => digits.foldl (fun h digit => h <<< 4 + digit) 0
  | none => 0

/-- The bytes of a code point behind the first, back to front, and the first. -/
def utf8Bytes (firstByteMark : Nat) : Nat → Nat → List UInt8 → List UInt8
  | 0, codepoint, output => UInt8.ofNat ((codepoint ||| firstByteMark) &&& 0xff) :: output
  | position + 1, codepoint, output =>
      utf8Bytes firstByteMark position (codepoint >>> 6)
        (UInt8.ofNat ((codepoint ||| 0x80) &&& 0xbf) :: output)

/-- A code point as UTF-8. -/
def utf8 (codepoint : Nat) : Option (List UInt8) :=
  if codepoint < 0x80 then some [UInt8.ofNat (codepoint &&& 0x7f)]
  else if codepoint < 0x800 then some (utf8Bytes 0xc0 1 codepoint [])
  else if codepoint < 0x10000 then some (utf8Bytes 0xe0 2 codepoint [])
  else if codepoint ≤ 0x10ffff then some (utf8Bytes 0xf0 3 codepoint [])
  else none

/-- `utf16_literal_to_utf8`, on what is left of a string literal: the bytes, and the length
of the sequence read. -/
def utf16LiteralToUtf8 (input : List UInt8) : Option (List UInt8 × Nat) :=
  if input.length < 6 then none
  else
    let firstCode := parseHex4 (input.drop 2)
    if 0xdc00 ≤ firstCode ∧ firstCode ≤ 0xdfff then none
    else if 0xd800 ≤ firstCode ∧ firstCode ≤ 0xdbff then
      -- the first half of a surrogate pair
      let second := input.drop 6
      if second.length < 6 ∨ second.take 2 ≠ [92, 117] then none
      else
        let secondCode := parseHex4 (second.drop 2)
        if secondCode < 0xdc00 ∨ 0xdfff < secondCode then none
        else
          (utf8 (0x10000 + ((firstCode &&& 0x3ff) <<< 10 ||| secondCode &&& 0x3ff))).map
            fun bytes => (bytes, 12)
    else (utf8 firstCode).map fun bytes => (bytes, 6)

/-- From behind the opening quote: the literal, and what follows the closing quote.  Two
bytes are passed at a backslash. -/
def stringLiteral : List UInt8 → Option (List UInt8 × List UInt8)
  | [] => none
  | [c] => if c = 34 then some ([], []) else none
  | c :: d :: rest =>
      if c = 34 then some ([], d :: rest)
      else if c = 92 then (stringLiteral rest).map fun r => (c :: d :: r.1, r.2)
      else (stringLiteral (d :: rest)).map fun r => (c :: r.1, r.2)

/-- An escape of one letter. -/
def simpleEscape (c : UInt8) : Option UInt8 :=
  match c.toNat with
  | 98 => some 8
  | 102 => some 12
  | 110 => some 10
  | 114 => some 13
  | 116 => some 9
  | 34 => some 34
  | 92 => some 92
  | 47 => some 47
  | _ => none

/-- The loop of `parse_string` through the literal, for at most so many rounds.  Behind the
last byte the closing quote stands, and there a backslash finds it. -/
def unescape : Nat → List UInt8 → Option (List UInt8)
  | _, [] => some []
  | 0, _ :: _ => none
  | rounds + 1, c :: input =>
      if c ≠ 92 then (unescape rounds input).map (c :: ·)
      else
        match simpleEscape (input.headD 34) with
        | some b => (unescape rounds input.tail).map (b :: ·)
        | none =>
            if input.headD 34 = 117 then
              (utf16LiteralToUtf8 (c :: input)).bind fun r =>
                (unescape rounds ((c :: input).drop r.2)).map (r.1 ++ ·)
            else none

/-- `parse_string`. -/
def parseString : Reader UInt8 CStr := fun buffer =>
  if buffer.head? ≠ some 34 then none
  else
    (stringLiteral buffer.tail).bind fun r =>
      (unescape r.1.length r.1).map fun output => (cstrOf output, r.2)

/-! ## Arrays and objects -/

/-- The do-while loop of both. -/
def parseElements {α : Type} (parseOne : Reader UInt8 α) : Nat → Reader UInt8 (List α) :=
  Listing.each skipWhitespace 44 parseOne

/-- `parse_array`, its depth checked before. -/
def parseArray (parseValue : Reader UInt8 CJson) : Reader UInt8 CJson := fun buffer =>
  (Listing.bracketed skipWhitespace 93 (parseElements parseValue buffer.length) buffer.tail).map
    fun r => (.array r.1, r.2)

/-- One round of `parse_object`: the name, the colon, the value. -/
def parseMember (parseValue : Reader UInt8 CJson) : Reader UInt8 (CStr × CJson) := fun buffer =>
  (parseString buffer).bind fun name =>
    if (skipWhitespace name.2).head? = some 58 then
      (parseValue (skipWhitespace (skipWhitespace name.2).tail)).map
        fun r => ((name.1, r.1), r.2)
    else none

/-- `parse_object`, its depth checked before. -/
def parseObject (parseValue : Reader UInt8 CJson) : Reader UInt8 CJson := fun buffer =>
  (Listing.bracketed skipWhitespace 125
    (parseElements (parseMember parseValue) buffer.length) buffer.tail).map
    fun r => (.object r.1, r.2)

/-- `CJSON_NESTING_LIMIT`. -/
def nestingLimit : Nat := 1000

/-- `parse_value`, with so many levels of nesting left. -/
def parseValue (strtod : Strtod) (levels : Nat) : Reader UInt8 CJson := fun buffer =>
  if buffer.take 4 = cstr "null" then some (.null, buffer.drop 4)
  else if buffer.take 5 = cstr "false" then some (.false, buffer.drop 5)
  else if buffer.take 4 = cstr "true" then some (.true, buffer.drop 4)
  else if buffer.head? = some 34 then (parseString buffer).map fun r => (.string r.1, r.2)
  else if buffer.head?.any (fun c => c == 45 || isDigit c) then parseNumber strtod buffer
  else
    match levels with
    | 0 => none
    | levels + 1 =>
        if buffer.head? = some 91 then parseArray (parseValue strtod levels) buffer
        else if buffer.head? = some 123 then parseObject (parseValue strtod levels) buffer
        else none

/-- `cJSON_ParseWithLengthOpts`, without `require_null_terminated`. -/
def parseWithLengthOpts (strtod : Strtod) (value : List UInt8) : Option CJson :=
  if value = [] then none
  else (parseValue strtod nestingLimit (skipWhitespace (skipUtf8Bom value))).map Prod.fst

/-- `cJSON_Parse` of a C string. -/
def parse (strtod : Strtod) (value : CStr) : Option CJson :=
  parseWithLengthOpts strtod (value ++ [0])

/-! ## What is accepted -/

/-- What an `int` holds. -/
def FitsInt (n : Int) : Prop := -2147483648 ≤ n ∧ n ≤ 2147483647

instance (n : Int) : Decidable (FitsInt n) := inferInstanceAs (Decidable (_ ∧ _))

/-- Values the structure can hold, with so many levels of nesting at most: ints, and C
strings. -/
inductive Sound : Nat → CJson → Prop
  | null (levels : Nat) : Sound levels .null
  | false (levels : Nat) : Sound levels .false
  | true (levels : Nat) : Sound levels .true
  | number (levels : Nat) {n : Int} : FitsInt n → Sound levels (.number n)
  | string (levels : Nat) {s : CStr} : 0 ∉ s → Sound levels (.string s)
  | array {levels : Nat} {items : List CJson} :
      (∀ item ∈ items, Sound levels item) → Sound (levels + 1) (.array items)
  | object {levels : Nat} {members : List (CStr × CJson)} :
      (∀ m ∈ members, 0 ∉ m.1) → (∀ m ∈ members, Sound levels m.2) →
        Sound (levels + 1) (.object members)

/-- What a sound object has under a name has a level less. -/
theorem Sound.getObjectItem {levels : Nat} {t sub : CJson} {name : CStr}
    (h : Sound (levels + 1) t) (hsub : t.getObjectItem name = some sub) :
    Sound levels sub := by
  cases h with
  | null => cases hsub
  | false => cases hsub
  | true => cases hsub
  | number => cases hsub
  | string => cases hsub
  | array => cases hsub
  | object _ hmembers =>
      obtain ⟨m, hm, rfl⟩ := Option.map_eq_some_iff.mp hsub
      exact hmembers m (List.mem_of_find?_eq_some hm)

/-- Strings of a sound value have no NUL. -/
theorem Sound.valuestring {levels : Nat} {t : CJson} {s : CStr} (h : Sound levels t)
    (hs : t.valuestring = some s) : (0 : UInt8) ∉ s := by
  cases h with
  | null => cases hs
  | false => cases hs
  | true => cases hs
  | number => cases hs
  | string _ hzero =>
      cases hs
      exact hzero
  | array => cases hs
  | object => cases hs

/-- The conversion saturates. -/
theorem toValueint_fits (number : Rat) : FitsInt (toValueint number) := by
  unfold toValueint
  split
  · decide
  · rename_i hmax
    split
    · decide
    · rename_i hmin
      have hlt : number < (2147483647 : Int) := Rat.not_le.mp hmax
      have hgt : (-2147483648 : Int) < number := Rat.not_le.mp hmin
      split
      · rename_i hpos
        have hfloor : number.floor < 2147483647 := Rat.floor_lt_iff.mpr hlt
        have hzero : (0 : Int) ≤ number.floor := Rat.le_floor_iff.mpr (by exact_mod_cast hpos)
        exact ⟨by omega, by omega⟩
      · rename_i hneg
        have hceil : (-2147483648 : Int) < number.ceil := Rat.lt_ceil_iff.mpr hgt
        have hzero : number.ceil ≤ (0 : Int) :=
          Rat.ceil_le_iff.mpr (by exact_mod_cast Rat.le_of_lt (Rat.not_le.mp hneg))
        exact ⟨by omega, by omega⟩

/-- An int comes through. -/
theorem toValueint_intCast {n : Int} (h : FitsInt n) : toValueint (n : Rat) = n := by
  obtain ⟨hmin, hmax⟩ := h
  unfold toValueint
  split
  · rename_i hle
    have : (2147483647 : Int) ≤ n := by exact_mod_cast hle
    omega
  · split
    · rename_i hle
      have : n ≤ (-2147483648 : Int) := by exact_mod_cast hle
      omega
    · split
      · exact Rat.floor_intCast n
      · exact Rat.ceil_intCast n

theorem zero_not_mem_cstrOf (bytes : List UInt8) : (0 : UInt8) ∉ cstrOf bytes := by
  intro h
  have hne := List.all_eq_true.mp List.all_takeWhile _ h
  simp at hne

section

variable {strtod : Strtod} {levels : Nat} {buffer rest : List UInt8} {t : CJson}

theorem parseString_sound {s : CStr} (h : parseString buffer = some (s, rest)) :
    (0 : UInt8) ∉ s := by
  unfold parseString at h
  split at h
  · cases h
  · obtain ⟨r, -, hr⟩ := Option.bind_eq_some_iff.mp h
    obtain ⟨output, -, heq⟩ := Option.map_eq_some_iff.mp hr
    cases heq
    exact zero_not_mem_cstrOf output

/-- What `parse_value` can come to, and through which function. -/
inductive Parsed (strtod : Strtod) (levels : Nat) (buffer rest : List UInt8) : CJson → Prop
  | null : rest = buffer.drop 4 → Parsed strtod levels buffer rest .null
  | false : rest = buffer.drop 5 → Parsed strtod levels buffer rest .false
  | true : rest = buffer.drop 4 → Parsed strtod levels buffer rest .true
  | string {s : CStr} : parseString buffer = some (s, rest) →
      Parsed strtod levels buffer rest (.string s)
  | number {number : Rat} (n : Nat) : rest = buffer.drop n →
      Parsed strtod levels buffer rest (.number (toValueint number))
  | array {inner : Nat} {items : List CJson} : levels = inner + 1 →
      Listing.bracketed skipWhitespace 93 (parseElements (parseValue strtod inner) buffer.length)
        buffer.tail = some (items, rest) →
      Parsed strtod levels buffer rest (.array items)
  | object {inner : Nat} {members : List (CStr × CJson)} : levels = inner + 1 →
      Listing.bracketed skipWhitespace 125
        (parseElements (parseMember (parseValue strtod inner)) buffer.length)
        buffer.tail = some (members, rest) →
      Parsed strtod levels buffer rest (.object members)

theorem parsed (h : parseValue strtod levels buffer = some (t, rest)) :
    Parsed strtod levels buffer rest t := by
  unfold parseValue at h
  split at h
  · cases h
    exact .null rfl
  split at h
  · cases h
    exact .false rfl
  split at h
  · cases h
    exact .true rfl
  split at h
  · obtain ⟨r, hr, heq⟩ := Option.map_eq_some_iff.mp h
    cases heq
    exact .string hr
  split at h
  · unfold parseNumber at h
    simp only at h
    split at h
    · cases h
    · cases h
      exact .number _ rfl
  cases levels with
  | zero => cases h
  | succ inner =>
      simp only at h
      split at h
      · obtain ⟨r, hr, heq⟩ := Option.map_eq_some_iff.mp h
        cases heq
        exact .array rfl hr
      · split at h
        · obtain ⟨r, hr, heq⟩ := Option.map_eq_some_iff.mp h
          cases heq
          exact .object rfl hr
        · cases h

theorem parseMember_some {parseOne : Reader UInt8 CJson} {m : CStr × CJson}
    (h : parseMember parseOne buffer = some (m, rest)) :
    (∃ rest', parseString buffer = some (m.1, rest')) ∧
      ∃ buffer', parseOne buffer' = some (m.2, rest) := by
  obtain ⟨name, hname, hvalue⟩ := Option.bind_eq_some_iff.mp h
  split at hvalue
  · obtain ⟨r, hr, heq⟩ := Option.map_eq_some_iff.mp hvalue
    cases heq
    exact ⟨⟨_, hname⟩, _, hr⟩
  · cases hvalue

/-- Everything in a bracket was read by the reader of one item. -/
theorem bracket_mem {α : Type} {close : UInt8} {parseOne : Reader UInt8 α} {n : Nat}
    {items : List α}
    (h : Listing.bracketed skipWhitespace close (parseElements parseOne n) buffer =
      some (items, rest)) :
    ∀ item ∈ items, ∃ s r, parseOne s = some (item, r) := by
  rcases Listing.bracketed_mem h with rfl | ⟨s, r, hloop⟩
  · exact fun item hitem => absurd hitem List.not_mem_nil
  · exact Listing.each_mem hloop

/-- **Only sound values are accepted**, whatever the text and the number format. -/
theorem parseValue_sound (h : parseValue strtod levels buffer = some (t, rest)) :
    Sound levels t := by
  induction levels generalizing buffer rest t with
  | zero =>
      cases parsed h with
      | null => exact .null _
      | false => exact .false _
      | true => exact .true _
      | string hs => exact .string _ (parseString_sound hs)
      | number => exact .number _ (toValueint_fits _)
      | array hlevels => cases hlevels
      | object hlevels => cases hlevels
  | succ levels ih =>
      cases parsed h with
      | null => exact .null _
      | false => exact .false _
      | true => exact .true _
      | string hs => exact .string _ (parseString_sound hs)
      | number => exact .number _ (toValueint_fits _)
      | array hlevels hitems =>
          cases hlevels
          refine .array fun item hitem => ?_
          obtain ⟨s, r, hread⟩ := bracket_mem hitems item hitem
          exact ih hread
      | object hlevels hmembers =>
          cases hlevels
          refine .object (fun m hm => ?_) (fun m hm => ?_)
          · obtain ⟨s, r, hread⟩ := bracket_mem hmembers m hm
            obtain ⟨⟨_, hname⟩, -⟩ := parseMember_some hread
            exact parseString_sound hname
          · obtain ⟨s, r, hread⟩ := bracket_mem hmembers m hm
            obtain ⟨-, _, hvalue⟩ := parseMember_some hread
            exact ih hvalue

theorem parse_sound {value : CStr} (h : parse strtod value = some t) :
    Sound nestingLimit t := by
  unfold parse parseWithLengthOpts at h
  split at h
  · cases h
  · obtain ⟨r, hr, rfl⟩ := Option.map_eq_some_iff.mp h
    exact parseValue_sound hr

/-! ## What is left -/

theorem skipWhitespace_le (s : List UInt8) : (skipWhitespace s).length ≤ s.length := by
  unfold skipWhitespace
  split
  · simp
  · exact (List.dropWhile_sublist _).length_le

theorem stringLiteral_le {s : List UInt8} {r : List UInt8 × List UInt8}
    (h : stringLiteral s = some r) : r.2.length ≤ s.length := by
  fun_induction stringLiteral s generalizing r with
  | case1 => cases h
  | case2 => cases h; exact Nat.zero_le _
  | case3 => cases h
  | case4 => cases h; simp
  | case5 d rest hc ih =>
      obtain ⟨r', hr', rfl⟩ := Option.map_eq_some_iff.mp h
      have := ih hr'
      simp only [List.length_cons]
      omega
  | case6 c d rest hc hd ih =>
      obtain ⟨r', hr', rfl⟩ := Option.map_eq_some_iff.mp h
      have := ih hr'
      simp only [List.length_cons] at this ⊢
      omega

theorem parseString_le {s : CStr} (h : parseString buffer = some (s, rest)) :
    rest.length ≤ buffer.length := by
  unfold parseString at h
  split at h
  · cases h
  · obtain ⟨r, hr, hout⟩ := Option.bind_eq_some_iff.mp h
    obtain ⟨output, -, heq⟩ := Option.map_eq_some_iff.mp hout
    cases heq
    have := stringLiteral_le hr
    have := List.length_tail (l := buffer)
    omega

theorem parseMember_le {parseOne : Reader UInt8 CJson} {m : CStr × CJson}
    (hone : ∀ s t rest, parseOne s = some (t, rest) → rest.length ≤ s.length)
    (h : parseMember parseOne buffer = some (m, rest)) : rest.length ≤ buffer.length := by
  obtain ⟨name, hname, hvalue⟩ := Option.bind_eq_some_iff.mp h
  split at hvalue
  · obtain ⟨r, hr, heq⟩ := Option.map_eq_some_iff.mp hvalue
    cases heq
    have hvalue := hone _ _ _ hr
    have hname := parseString_le hname
    have hcolon := skipWhitespace_le name.2
    have hblank := skipWhitespace_le (skipWhitespace name.2).tail
    have := List.length_tail (l := skipWhitespace name.2)
    omega
  · cases hvalue

/-- No value takes more than there is. -/
theorem parseValue_le (h : parseValue strtod levels buffer = some (t, rest)) :
    rest.length ≤ buffer.length := by
  have htail := List.length_tail (l := buffer)
  induction levels using Nat.strong_induction_on generalizing buffer rest t with
  | _ levels ih =>
      cases parsed h with
      | null hrest => simp [hrest]
      | false hrest => simp [hrest]
      | true hrest => simp [hrest]
      | string hs => exact parseString_le hs
      | number n hrest => simp [hrest]
      | @array inner items hlevels hitems =>
          have hone : ∀ s t r, parseValue strtod inner s = some (t, r) → r.length ≤ s.length :=
            fun s t r hr => ih inner (by omega) hr List.length_tail
          have hloop := Listing.bracketed_le skipWhitespace_le
            (fun s as r hr => Listing.each_le skipWhitespace_le hone hr) hitems
          omega
      | @object inner members hlevels hmembers =>
          have hone : ∀ s t r, parseValue strtod inner s = some (t, r) → r.length ≤ s.length :=
            fun s t r hr => ih inner (by omega) hr List.length_tail
          have hloop := Listing.bracketed_le skipWhitespace_le
            (fun s as r hr => Listing.each_le skipWhitespace_le
              (fun s m r hm => parseMember_le hone hm) hr) hmembers
          omega

end

end CJson

end X50
