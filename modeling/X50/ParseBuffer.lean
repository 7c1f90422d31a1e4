/-
# `X50.ParseBuffer` — a text is parsed in its buffer

The whole of `parse_value`, on a buffer and an offset into it.  Most reads ask first
whether they may (`can_access_at_index`); that of `parse_string` does not, and the name
of a member is read with nothing asked before.  On the buffer of `cJSON_Parse` it may:
a NUL is its last byte, no reader takes that byte, and so the offset never gets behind
it (`parse_in_memory`).
-/
import X50.ParseString

namespace X50

open X50.Lib

namespace CJson

/-! ## Reading in a buffer -/

/-- `buffer_skip_whitespace`, its loop. -/
def blanksAt (content : List UInt8) : Nat → Nat → Nat
  | 0, offset => offset
  | rounds + 1, offset =>
      match content[offset]? with
      | none => offset
      | some c => if c ≤ 32 then blanksAt content rounds (offset + 1) else offset

/-- `buffer_skip_whitespace`. -/
def skipWhitespaceAt (content : List UInt8) (offset : Nat) : Nat :=
  if content.length ≤ offset then offset
  else if blanksAt content content.length offset = content.length then
    blanksAt content content.length offset - 1
  else blanksAt content content.length offset

/-- `strncmp` of the buffer with a word, over the length of the word. -/
def strncmpAt (content : List UInt8) : Nat → CStr → Except ParseStop Bool
  | _, [] => .ok Bool.true
  | offset, c :: word => do
      let d ← readByte content offset
      if d = c then strncmpAt content (offset + 1) word else .ok Bool.false

/-- `can_read` and `strncmp`. -/
def readsWord (content : List UInt8) (offset : Nat) (word : CStr) : Except ParseStop Bool :=
  if offset + word.length ≤ content.length then strncmpAt content offset word else .ok Bool.false

/-- What `parse_number` copies, up to so many bytes. -/
def numberText (content : List UInt8) : Nat → Nat → CStr
  | 0, _ => []
  | rounds + 1, offset =>
      match content[offset]? with
      | none => []
      | some c => if isNumberChar c then c :: numberText content rounds (offset + 1) else []

/-- `parse_number`. -/
def parseNumberAt (strtod : Strtod) (content : List UInt8) (offset : Nat) :
    Except ParseStop (CJson × Nat) :=
  let read := strtod (numberText content 63 offset)
  if read.1 = 0 then .error .fail
  else .ok (.number (toValueint read.2), offset + read.1)

/-- The do-while loop of `parse_array` and `parse_object`, from in front of an element. -/
def parseElementsAt {α : Type} (content : List UInt8)
    (parseOne : Nat → Except ParseStop (α × Nat)) : Nat → Nat → Except ParseStop (List α × Nat)
  | 0, _ => .error .fault
  | rounds + 1, offset => do
      let r ← parseOne (skipWhitespaceAt content (offset + 1))
      let behind := skipWhitespaceAt content r.2
      if content[behind]? = some 44 then
        let more ← parseElementsAt content parseOne rounds behind
        .ok (r.1 :: more.1, more.2)
      else .ok ([r.1], behind)

/-- `parse_array` and `parse_object` from their opening bracket on. -/
def parseBracketAt {α : Type} (content : List UInt8) (close : UInt8)
    (parseOne : Nat → Except ParseStop (α × Nat)) (offset : Nat) :
    Except ParseStop (List α × Nat) :=
  let first := skipWhitespaceAt content (offset + 1)
  if content[first]? = some close then .ok ([], first + 1)
  else if content.length ≤ first then .error .fail
  else do
    let r ← parseElementsAt content parseOne (content.length - offset) (first - 1)
    if content[r.2]? = some close then .ok (r.1, r.2 + 1) else .error .fail

/-- One round of `parse_object`: the name, the colon, the value. -/
def parseMemberAt (content : List UInt8) (parseValue : Nat → Except ParseStop (CJson × Nat))
    (offset : Nat) : Except ParseStop ((CStr × CJson) × Nat) := do
  let name ← parseStringAt content offset
  let colon := skipWhitespaceAt content name.2
  if content[colon]? ≠ some 58 then .error .fail
  else
    let r ← parseValue (skipWhitespaceAt content (colon + 1))
    .ok ((name.1, r.1), r.2)

/-- `parse_value`, where it is for arrays and objects. -/
def parseNestedAt (content : List UInt8) (parseValue : Nat → Except ParseStop (CJson × Nat))
    (offset : Nat) : Except ParseStop (CJson × Nat) :=
  if content[offset]? = some 91 then do
    let r ← parseBracketAt content 93 parseValue offset
    .ok (.array r.1, r.2)
  else if content[offset]? = some 123 then do
    let r ← parseBracketAt content 125 (parseMemberAt content parseValue) offset
    .ok (.object r.1, r.2)
  else .error .fail

/-- `parse_value`; what is none of the plain values is `nested`. -/
def parsePlainAt (strtod : Strtod) (content : List UInt8)
    (nested : Nat → Except ParseStop (CJson × Nat)) (offset : Nat) :
    Except ParseStop (CJson × Nat) := do
  if ← readsWord content offset (cstr "null") then .ok (.null, offset + 4)
  else if ← readsWord content offset (cstr "false") then .ok (.false, offset + 5)
  else if ← readsWord content offset (cstr "true") then .ok (.true, offset + 4)
  else if content[offset]? = some 34 then
    let r ← parseStringAt content offset
    .ok (.string r.1, r.2)
  else if content[offset]?.any (fun c => c == 45 || isDigit c) then
    parseNumberAt strtod content offset
  else nested offset

/-- `parse_value`, with so many levels of nesting left. -/
def parseValueAt (strtod : Strtod) (content : List UInt8) :
    Nat → Nat → Except ParseStop (CJson × Nat)
  | 0 => parsePlainAt strtod content fun _ => .error .fail
  | levels + 1 =>
      parsePlainAt strtod content (parseNestedAt content (parseValueAt strtod content levels))

/-- `skip_utf8_bom`, at the front. -/
def skipUtf8BomAt (content : List UInt8) : Except ParseStop Nat := do
  if content.length ≤ 4 then .ok 0
  else if ← strncmpAt content 0 [0xef, 0xbb, 0xbf] then .ok 3 else .ok 0

/-- `cJSON_ParseWithLengthOpts`, without `require_null_terminated`. -/
def parseWithLengthOptsAt (strtod : Strtod) (content : List UInt8) : Except ParseStop CJson :=
  if content.length = 0 then .error .fail
  else do
    let bom ← skipUtf8BomAt content
    let r ← parseValueAt strtod content nestingLimit (skipWhitespaceAt content bom)
    .ok r.1

section

variable {α β : Type} {content l r : List UInt8} {i offset : Nat} {c : UInt8}

/-! ## The places are the texts -/

theorem drop_blanksAt (rounds offset : Nat) (h : content.length ≤ offset + rounds) :
    content.drop (blanksAt content rounds offset) =
      (content.drop offset).dropWhile (· ≤ 32) := by
  induction rounds generalizing offset with
  | zero =>
      have hnil : content.drop offset = [] := List.drop_eq_nil_of_le h
      rw [blanksAt, hnil]
      rfl
  | succ rounds ih =>
      cases hbuffer : content.drop offset with
      | nil =>
          rw [blanksAt, getElem?_of_drop_nil hbuffer]
          exact hbuffer
      | cons c tail =>
          rw [blanksAt, getElem?_of_drop hbuffer]
          by_cases hblank : c ≤ 32
          · have hrest := ih (offset + 1) (by omega)
            rw [drop_succ_of_drop hbuffer] at hrest
            simp [hblank, hrest]
          · simp [hblank, hbuffer]

theorem blanksAt_le (rounds : Nat) (h : offset ≤ content.length) :
    blanksAt content rounds offset ≤ content.length := by
  induction rounds generalizing offset with
  | zero => exact h
  | succ rounds ih =>
      rw [blanksAt]
      split
      · exact h
      · rename_i hget
        obtain ⟨hlt, -⟩ := List.getElem?_eq_some_iff.mp hget
        split
        · exact ih hlt
        · exact h

/-- Blanks are skipped in the buffer, and its end is not reached. -/
theorem drop_skipWhitespaceAt (h : offset < content.length) :
    content.drop (skipWhitespaceAt content offset) = skipWhitespace (content.drop offset) ∧
      skipWhitespaceAt content offset < content.length := by
  have hdrop := drop_blanksAt content.length offset (Nat.le_add_left _ _)
  have hle := blanksAt_le content.length (Nat.le_of_lt h)
  rw [skipWhitespaceAt, if_neg (Nat.not_le.mpr h)]
  by_cases hend : blanksAt content content.length offset = content.length
  · have hnil : (content.drop offset).dropWhile (· ≤ 32) = [] := by
      rw [← hdrop, hend, List.drop_length]
    have hlast : offset + (content.length - offset - 1) = content.length - 1 := by omega
    rw [if_pos hend, hend, skipWhitespace, if_pos hnil, List.drop_drop, List.length_drop, hlast]
    exact ⟨rfl, by omega⟩
  · have hcons : (content.drop offset).dropWhile (· ≤ 32) ≠ [] := by
      rw [← hdrop]
      intro hnil
      have := List.drop_eq_nil_iff.mp hnil
      omega
    rw [if_neg hend, skipWhitespace, if_neg hcons]
    exact ⟨hdrop, by omega⟩

theorem le_skipWhitespaceAt (h : offset < content.length) :
    offset ≤ skipWhitespaceAt content offset := by
  obtain ⟨hdrop, hlt⟩ := drop_skipWhitespaceAt h
  have hle := skipWhitespace_le (content.drop offset)
  rw [← hdrop, List.length_drop, List.length_drop] at hle
  omega

theorem strncmpAt_eq {word : CStr} (h : offset + word.length ≤ content.length) :
    strncmpAt content offset word =
      .ok (decide ((content.drop offset).take word.length = word)) := by
  induction word generalizing offset with
  | nil => rfl
  | cons c word ih =>
      rw [List.length_cons] at h
      cases hbuffer : content.drop offset with
      | nil =>
          have := List.drop_eq_nil_iff.mp hbuffer
          omega
      | cons d tail =>
          have htail := drop_succ_of_drop hbuffer
          rw [strncmpAt, readByte_of_drop hbuffer, Output.ok_bind]
          by_cases hd : d = c
          · rw [if_pos hd, ih (by omega), htail]
            simp [hd]
          · rw [if_neg hd]
            simp [hd]

/-- A word is looked for inside the buffer only. -/
theorem readsWord_eq (h : offset < content.length) (word : CStr) :
    readsWord content offset word =
      .ok (decide ((content.drop offset).take word.length = word)) := by
  rw [readsWord]
  split
  · rename_i hle
    exact strncmpAt_eq hle
  · rename_i hlong
    have hne : (content.drop offset).take word.length ≠ word := by
      intro heq
      have hlength := congrArg List.length heq
      rw [List.length_take, List.length_drop] at hlength
      omega
    rw [decide_eq_false hne]

theorem numberText_eq (rounds : Nat) : numberText content rounds offset =
    ((content.drop offset).take rounds).takeWhile isNumberChar := by
  induction rounds generalizing offset with
  | zero => simp [numberText]
  | succ rounds ih =>
      cases hbuffer : content.drop offset with
      | nil =>
          rw [numberText, getElem?_of_drop_nil hbuffer]
          rfl
      | cons c tail =>
          rw [numberText, getElem?_of_drop hbuffer]
          simp only [ih, drop_succ_of_drop hbuffer, List.take_succ_cons, List.takeWhile_cons]

/-! ## Readers of the buffer -/

/-- A reader in the buffer does what one of the text does: it fails with it, or stops with
it, and there not behind the end. -/
inductive ReadsAlike (content : List UInt8) :
    Except ParseStop (α × Nat) → Option (α × List UInt8) → Prop
  | fail : ReadsAlike content (.error .fail) none
  | ok (a : α) {next : Nat} : next < content.length →
      ReadsAlike content (.ok (a, next)) (some (a, content.drop next))

variable {x : Except ParseStop (α × Nat)} {y : Option (α × List UInt8)}

theorem ReadsAlike.bind (h : ReadsAlike content x y) {f : α × Nat → Except ParseStop (β × Nat)}
    {g : α × List UInt8 → Option (β × List UInt8)}
    (hfg : ∀ a next, y = some (a, content.drop next) → next < content.length →
      ReadsAlike content (f (a, next)) (g (a, content.drop next))) :
    ReadsAlike content (x >>= f) (y.bind g) := by
  cases h with
  | fail => exact .fail
  | ok a hnext => exact hfg a _ rfl hnext

theorem ReadsAlike.map (h : ReadsAlike content x y) (f : α → β) :
    ReadsAlike content (x >>= fun r => .ok (f r.1, r.2)) (y.map fun r => (f r.1, r.2)) := by
  cases h with
  | fail => exact .fail
  | ok a hnext => exact .ok (f a) hnext

/-- **No reader takes the NUL**: behind bytes that are none the buffer goes on. -/
theorem lt_of_drop (hnul : content.getLast? = some 0) (hi : i < content.length)
    (h : content.drop i = l ++ r) (hl : 0 ∉ l) : i + l.length < content.length := by
  by_contra hge
  have hlength := congrArg List.length h
  rw [List.length_drop, List.length_append] at hlength
  have hnil : r = [] := List.eq_nil_of_length_eq_zero (by omega)
  have hlast : (content.drop i).getLast? = some 0 := by
    rw [List.getLast?_drop, if_neg (Nat.not_le.mpr hi), hnul]
  rw [h, hnil, List.append_nil] at hlast
  exact hl (List.mem_of_getLast? hlast)

theorem lt_of_getElem? (hnul : content.getLast? = some 0) (h : content[i]? = some c)
    (hc : c ≠ 0) : i + 1 < content.length := by
  obtain ⟨hi, hget⟩ := List.getElem?_eq_some_iff.mp h
  have hdrop : content.drop i = [c] ++ content.drop (i + 1) := by
    rw [List.drop_eq_getElem_cons hi, hget]
    rfl
  exact lt_of_drop hnul hi hdrop (by simpa using hc.symm)

theorem word_alike {word : CStr} {n : Nat} (hnul : content.getLast? = some 0)
    (hi : i < content.length) (hn : word.length = n) (hzero : 0 ∉ word)
    (hword : (content.drop i).take n = word) (t : CJson) :
    ReadsAlike content (.ok (t, i + n)) (some (t, (content.drop i).drop n)) := by
  have hsplit : content.drop i = word ++ (content.drop i).drop n := by
    rw [← hword, List.take_append_drop]
  have hlt := lt_of_drop hnul hi hsplit hzero
  rw [List.drop_drop]
  exact .ok t (by omega)

theorem number_alike {strtod : Strtod} (hinside : ∀ text, (strtod text).1 ≤ text.length)
    (hnul : content.getLast? = some 0) (hi : i < content.length) :
    ReadsAlike content (parseNumberAt strtod content i) (parseNumber strtod (content.drop i)) := by
  unfold parseNumberAt parseNumber
  rw [numberText_eq]
  generalize htext : ((content.drop i).take 63).takeWhile isNumberChar = text
  obtain ⟨r, hr⟩ : text <+: content.drop i :=
    htext ▸ (List.takeWhile_prefix _).trans (List.take_prefix _ _)
  have hzero : 0 ∉ text := by
    intro hmem
    rw [← htext] at hmem
    have := List.mem_takeWhile_imp hmem
    revert this
    decide
  have hlt := lt_of_drop hnul hi hr.symm hzero
  have hle := hinside text
  simp only
  split
  · exact .fail
  · rw [List.drop_drop]
    exact .ok _ (by omega)

theorem string_alike (hnul : content.getLast? = some 0) (hi : i < content.length) :
    ReadsAlike content (parseStringAt content i) (parseString (content.drop i)) := by
  rcases parseStringAt_inside hi with ⟨hat, hread⟩ | ⟨s, inputEnd, -, hquote, hat, hread⟩
  · rw [hat, hread]
    exact .fail
  · rw [hat, hread]
    exact .ok s (lt_of_getElem? hnul hquote (by decide))

/-! ## Arrays and objects -/

section

variable {parseOne : Nat → Except ParseStop (α × Nat)} {read : Reader UInt8 α} {close : UInt8}

/-- A reader that gives back no more than it was given does not go back. -/
theorem le_of_read (hle : ∀ s a rest, read s = some (a, rest) → rest.length ≤ s.length)
    {next : Nat} {a : α} (hi : i < content.length)
    (h : read (content.drop i) = some (a, content.drop next)) (hnext : next < content.length) :
    i ≤ next := by
  have hlength := hle _ _ _ h
  rw [List.length_drop, List.length_drop] at hlength
  omega

/-- **The loop** goes from element to element as that of the text does, and has rounds
enough: each takes a comma. -/
theorem elements_alike (hnul : content.getLast? = some 0)
    (hread : ∀ i < content.length, ReadsAlike content (parseOne i) (read (content.drop i)))
    (hle : ∀ s a rest, read s = some (a, rest) → rest.length ≤ s.length)
    (rounds : Nat) (hrounds : content.length ≤ i + rounds) (hi : i + 1 < content.length) :
    ReadsAlike content (parseElementsAt content parseOne rounds i)
      (parseElements read rounds (content.drop (i + 1))) := by
  induction rounds generalizing i with
  | zero => omega
  | succ rounds ih =>
      obtain ⟨hskip, hlt⟩ := drop_skipWhitespaceAt hi
      have hfirst := le_skipWhitespaceAt hi
      rw [parseElementsAt, parseElements, Listing.each, ← hskip]
      refine (hread _ hlt).bind fun a next hsome hnext => ?_
      have hgone := le_of_read hle hlt hsome hnext
      have hlater := le_skipWhitespaceAt hnext
      obtain ⟨hbehind, hlt⟩ := drop_skipWhitespaceAt hnext
      simp only [← hbehind, List.head?_drop]
      split
      · rename_i hcomma
        rw [List.tail_drop]
        exact (ih (by omega) (lt_of_getElem? hnul hcomma (by decide))).map (a :: ·)
      · exact .ok [a] hlt

theorem bracket_alike (hnul : content.getLast? = some 0) (hclose : close ≠ 0)
    (hread : ∀ i < content.length, ReadsAlike content (parseOne i) (read (content.drop i)))
    (hle : ∀ s a rest, read s = some (a, rest) → rest.length ≤ s.length)
    (hi : i + 1 < content.length) :
    ReadsAlike content (parseBracketAt content close parseOne i)
      (Listing.bracketed skipWhitespace close
        (parseElements read (content.drop i).length) (content.drop i).tail) := by
  obtain ⟨hskip, hlt⟩ := drop_skipWhitespaceAt hi
  have hfirst := le_skipWhitespaceAt hi
  have hcons : content.drop (skipWhitespaceAt content (i + 1)) ≠ [] := by
    intro hnil
    have := List.drop_eq_nil_iff.mp hnil
    omega
  rw [parseBracketAt, Listing.bracketed, List.tail_drop, ← hskip, if_neg hcons, List.head?_drop]
  split
  · rename_i hempty
    rw [List.tail_drop]
    exact .ok [] (lt_of_getElem? hnul hempty hclose)
  · have hback : skipWhitespaceAt content (i + 1) - 1 + 1 = skipWhitespaceAt content (i + 1) := by
      omega
    have hloop := @elements_alike _ _ (skipWhitespaceAt content (i + 1) - 1) _ _ hnul hread hle
      (content.length - i) (by omega) (by omega)
    rw [hback] at hloop
    rw [if_neg (Nat.not_le.mpr hlt), List.length_drop]
    refine hloop.bind fun items next _ hnext => ?_
    simp only [List.head?_drop]
    split
    · rename_i hend
      rw [List.tail_drop]
      exact .ok items (lt_of_getElem? hnul hend hclose)
    · exact .fail

end

theorem member_alike {parseOne : Nat → Except ParseStop (CJson × Nat)} {read : Reader UInt8 CJson}
    (hnul : content.getLast? = some 0)
    (hread : ∀ i < content.length, ReadsAlike content (parseOne i) (read (content.drop i)))
    (hi : i < content.length) :
    ReadsAlike content (parseMemberAt content parseOne i) (parseMember read (content.drop i)) := by
  rw [parseMemberAt, parseMember]
  refine (string_alike hnul hi).bind fun name next _ hnext => ?_
  obtain ⟨hcolon, hlt⟩ := drop_skipWhitespaceAt hnext
  simp only [← hcolon, List.head?_drop]
  by_cases hmark : content[skipWhitespaceAt content next]? = some 58
  · obtain ⟨hvalue, hlt⟩ := drop_skipWhitespaceAt (lt_of_getElem? hnul hmark (by decide))
    rw [if_neg (not_not.mpr hmark), if_pos hmark, List.tail_drop, ← hvalue]
    exact (hread _ hlt).map fun t => (name, t)
  · rw [if_pos hmark, if_neg hmark]
    exact .fail

/-! ## Values -/

section

variable {strtod : Strtod}

/-- A value is read as in the text, where what is in brackets is. -/
theorem plain_alike (hinside : ∀ text, (strtod text).1 ≤ text.length)
    (hnul : content.getLast? = some 0) (hi : i < content.length)
    {nested : Nat → Except ParseStop (CJson × Nat)} {levels : Nat}
    (hnested : ReadsAlike content (nested i) (match levels with
      | 0 => none
      | levels + 1 =>
          if content[i]? = some 91 then parseArray (parseValue strtod levels) (content.drop i)
          else if content[i]? = some 123 then
            parseObject (parseValue strtod levels) (content.drop i)
          else none)) :
    ReadsAlike content (parsePlainAt strtod content nested i)
      (parseValue strtod levels (content.drop i)) := by
  have hnull : (cstr "null").length = 4 := by decide
  have hfalse : (cstr "false").length = 5 := by decide
  have htrue : (cstr "true").length = 4 := by decide
  unfold parsePlainAt parseValue
  simp only [readsWord_eq hi, Output.ok_bind, decide_eq_true_eq, hnull, hfalse, htrue,
    List.head?_drop]
  split
  · exact word_alike hnul hi hnull (by decide) ‹_› _
  split
  · exact word_alike hnul hi hfalse (by decide) ‹_› _
  split
  · exact word_alike hnul hi htrue (by decide) ‹_› _
  split
  · exact (string_alike hnul hi).map CJson.string
  split
  · exact number_alike hinside hnul hi
  · exact hnested

/-- **`parse_value`**, anywhere in a buffer that a NUL ends, is the reader of the text. -/
theorem value_alike (hinside : ∀ text, (strtod text).1 ≤ text.length)
    (hnul : content.getLast? = some 0) (levels : Nat) :
    ∀ i < content.length, ReadsAlike content (parseValueAt strtod content levels i)
      (parseValue strtod levels (content.drop i)) := by
  induction levels with
  | zero =>
      intro i hi
      exact plain_alike hinside hnul hi .fail
  | succ levels ih =>
      intro i hi
      refine plain_alike hinside hnul hi ?_
      simp only [parseNestedAt]
      split
      · rename_i hopen
        exact (bracket_alike hnul (show (93 : UInt8) ≠ 0 by decide) ih
          (fun _ _ _ h => parseValue_le h) (lt_of_getElem? hnul hopen (by decide))).map CJson.array
      split
      · rename_i hopen
        exact (bracket_alike hnul (show (125 : UInt8) ≠ 0 by decide) (fun i => member_alike hnul ih)
          (fun _ _ _ h => parseMember_le (fun _ _ _ h => parseValue_le h) h)
          (lt_of_getElem? hnul hopen (by decide))).map CJson.object
      · exact .fail

theorem drop_skipUtf8BomAt (h : 0 < content.length) :
    ∃ bom, skipUtf8BomAt content = .ok bom ∧ content.drop bom = skipUtf8Bom content ∧
      bom < content.length := by
  rw [skipUtf8BomAt, skipUtf8Bom]
  split
  · rename_i hshort
    rw [if_neg (fun hlong => Nat.not_lt.mpr hshort hlong.1)]
    exact ⟨0, rfl, rfl, h⟩
  · rename_i hlong
    have hle : 0 + ([0xef, 0xbb, 0xbf] : CStr).length ≤ content.length := by
      simp only [List.length_cons, List.length_nil]
      omega
    rw [strncmpAt_eq hle, Output.ok_bind]
    by_cases hbom : content.take 3 = [0xef, 0xbb, 0xbf]
    · rw [if_pos (by simpa using hbom), if_pos ⟨Nat.lt_of_not_le hlong, hbom⟩]
      exact ⟨3, rfl, rfl, by omega⟩
    · rw [if_neg (by simpa using hbom), if_neg (fun h => hbom h.2)]
      exact ⟨0, rfl, rfl, h⟩

theorem ReadsAlike.value (h : ReadsAlike content x y) :
    (x >>= fun r => .ok r.1) = orFail (y.map Prod.fst) := by
  cases h <;> rfl

/-- **`cJSON_Parse`** reads nothing outside the string it is given and its NUL, and writes
nothing outside the strings it allocates; it gives what the reader of the text gives. -/
theorem parse_in_memory (hinside : ∀ text, (strtod text).1 ≤ text.length) (value : CStr) :
    parseWithLengthOptsAt strtod (value ++ [0]) = orFail (parse strtod value) := by
  have hnul : (value ++ [0]).getLast? = some 0 := List.getLast?_concat
  have hlength : (value ++ [0]).length ≠ 0 := by simp
  have hcons : value ++ [0] ≠ [] := by simp
  obtain ⟨bom, hbom, hdrop, hlt⟩ := drop_skipUtf8BomAt (Nat.pos_of_ne_zero hlength)
  obtain ⟨hskip, hfirst⟩ := drop_skipWhitespaceAt hlt
  rw [parseWithLengthOptsAt, if_neg hlength, hbom, Output.ok_bind, parse, parseWithLengthOpts,
    if_neg hcons, ← hdrop, ← hskip]
  exact (value_alike hinside hnul nestingLimit _ hfirst).value

theorem decimalStrtod_inside (text : CStr) : (decimalStrtod text).1 ≤ text.length := by
  unfold decimalStrtod
  simp only
  generalize hsign : (if text.head? = some 45 then 1 else 0) = sign
  have hle : sign ≤ text.length := by
    cases text with
    | nil => exact Nat.le_of_eq hsign.symm
    | cons c text =>
        rw [← hsign, List.length_cons]
        split <;> omega
  have hdigits := (List.takeWhile_prefix isDigit (l := text.drop sign)).length_le
  rw [List.length_drop] at hdigits
  split
  · exact Nat.zero_le _
  · simp only
    omega

theorem parse_in_memory_stage :
    parseWithLengthOptsAt decimalStrtod (stageJson.printUnformatted ++ [0]) = .ok stageJson :=
  (parse_in_memory decimalStrtod_inside stageJson.printUnformatted).trans rfl

-- without the NUL the name is looked for behind the end
example : parseWithLengthOptsAt decimalStrtod (cstr "\x7b\"a\":1,") = .error .fault := by rfl

end

end

end CJson

end X50
