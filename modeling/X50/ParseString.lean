/-
# `X50.ParseString` — a string is read out of its buffer

`parse_string` goes over a string literal twice: once for its end, counting the
backslashes that escape something, and once to copy it into a block of as many
bytes as are then left.  The second walk does not always see the escapes of the
first, for a `\u` takes four bytes along whatever they are; so that the block is
large enough needs an argument (`skips_pair`).

The model has the whole buffer and a place in it.  A read outside the buffer and a
write outside the block is a `fault`, and so is a loop that its rounds do not end.
-/
import X50.CJsonRound
import X50.Lib.Output

namespace X50

open X50.Lib

namespace CJson

/-! ## The two walks -/

/-- Why no string is read. -/
inductive ParseStop where
  /-- `goto fail` -/
  | fail
  /-- An access outside the buffer or the block, or a loop without an end. -/
  | fault
deriving DecidableEq

/-- A byte of the buffer. -/
def readByte (content : List UInt8) (i : Nat) : Except ParseStop UInt8 :=
  match content[i]? with
  | none => .error .fault
  | some c => .ok c

/-- Bytes are put behind those of a block of `size` bytes. -/
def putBytes (size : Nat) (output bytes : List UInt8) : Except ParseStop (List UInt8) :=
  if output.length + bytes.length ≤ size then .ok (output ++ bytes) else .error .fault

/-- `parse_hex4`, for so many digits more, from `i` on. -/
def parseHex4At (content : List UInt8) : Nat → Nat → Nat → Except ParseStop Nat
  | 0, _, h => .ok h
  | digits + 1, i, h => do
      let c ← readByte content i
      match hexDigit c with
      | none => .ok 0
      | some digit =>
          parseHex4At content digits (i + 1)
            (if digits = 0 then h + digit else (h + digit) <<< 4)

/-- `utf16_literal_to_utf8` at `i`, where the literal ends at `inputEnd`: the bytes it writes,
and the length of the sequence. -/
def utf16LiteralAt (content : List UInt8) (i inputEnd : Nat) :
    Except ParseStop (List UInt8 × Nat) :=
  if inputEnd - i < 6 then .error .fail
  else do
    let firstCode ← parseHex4At content 4 (i + 2) 0
    if 0xdc00 ≤ firstCode ∧ firstCode ≤ 0xdfff then .error .fail
    else if 0xd800 ≤ firstCode ∧ firstCode ≤ 0xdbff then
      if inputEnd - (i + 6) < 6 then .error .fail
      else
        let c ← readByte content (i + 6)
        if c ≠ 92 then .error .fail
        else
          let d ← readByte content (i + 7)
          if d ≠ 117 then .error .fail
          else
            let secondCode ← parseHex4At content 4 (i + 8) 0
            if secondCode < 0xdc00 ∨ 0xdfff < secondCode then .error .fail
            else
              match utf8 (0x10000 + ((firstCode &&& 0x3ff) <<< 10 ||| secondCode &&& 0x3ff)) with
              | none => .error .fail
              | some bytes => .ok (bytes, 12)
    else
      match utf8 firstCode with
      | none => .error .fail
      | some bytes => .ok (bytes, 6)

/-- The first walk: where the literal ends, and how many bytes are skipped. -/
def scanLiteral (content : List UInt8) : Nat → Nat → Nat → Except ParseStop (Nat × Nat)
  | 0, inputEnd, skipped => .ok (inputEnd, skipped)
  | rounds + 1, inputEnd, skipped =>
      match content[inputEnd]? with
      | none => .ok (inputEnd, skipped)
      | some c =>
          if c = 34 then .ok (inputEnd, skipped)
          else if c = 92 then
            if content.length ≤ inputEnd + 1 then .error .fail
            else scanLiteral content rounds (inputEnd + 2) (skipped + 1)
          else scanLiteral content rounds (inputEnd + 1) skipped

/-- The second walk, into a block of `size` bytes. -/
def copyLiteral (content : List UInt8) (inputEnd size : Nat) :
    Nat → Nat → List UInt8 → Except ParseStop (List UInt8)
  | 0, i, output => if i < inputEnd then .error .fault else .ok output
  | rounds + 1, i, output =>
      if inputEnd ≤ i then .ok output
      else do
        let c ← readByte content i
        if c ≠ 92 then
          let output ← putBytes size output [c]
          copyLiteral content inputEnd size rounds (i + 1) output
        else
          let d ← readByte content (i + 1)
          match simpleEscape d with
          | some b =>
              let output ← putBytes size output [b]
              copyLiteral content inputEnd size rounds (i + 2) output
          | none =>
              if d = 117 then
                let r ← utf16LiteralAt content i inputEnd
                let output ← putBytes size output r.1
                copyLiteral content inputEnd size rounds (i + r.2) output
              else .error .fail

/-- `parse_string` at `offset`: the string its readers see, and the new offset. -/
def parseStringAt (content : List UInt8) (offset : Nat) : Except ParseStop (CStr × Nat) := do
  let c ← readByte content offset
  if c ≠ 34 then .error .fail
  else
    let scan ← scanLiteral content content.length (offset + 1) 0
    if content[scan.1]? ≠ some 34 then .error .fail
    else
      let size := scan.1 - offset - scan.2 + 1
      let output ← copyLiteral content scan.1 size (scan.1 - (offset + 1)) (offset + 1) []
      let output ← putBytes size output [0]
      .ok (cstrOf output, scan.1 + 1)

section

variable {content : List UInt8} {a b c d : UInt8} {i size : Nat} {l r output : List UInt8}

theorem readByte_of_drop (h : content.drop i = c :: r) : readByte content i = .ok c := by
  have hget : content[i]? = some c := by
    rw [← Nat.add_zero i, ← List.getElem?_drop, h]
    rfl
  rw [readByte, hget]

theorem drop_succ_of_drop (h : content.drop i = c :: r) : content.drop (i + 1) = r := by
  rw [← List.drop_drop, h]
  rfl

/-! ## Code points -/

theorem hexDigit_lt {n : Nat} (h : hexDigit c = some n) : n < 16 := by
  have hall : ∀ m < 256, ∀ n ∈ hexDigit (UInt8.ofNat m), n < 16 := by decide +kernel
  have hc := hall c.toNat c.toNat_lt n
  rw [UInt8.ofNat_toNat] at hc
  exact hc h

/-- The digits are read where they are. -/
theorem parseHex4At_eq (h : content.drop i = a :: b :: c :: d :: r) :
    parseHex4At content 4 i 0 = .ok (parseHex4 (a :: b :: c :: d :: l)) := by
  have hb := drop_succ_of_drop h
  have hc := drop_succ_of_drop hb
  have hd := drop_succ_of_drop hc
  simp only [parseHex4At, readByte_of_drop h, readByte_of_drop hb, readByte_of_drop hc,
    readByte_of_drop hd, Output.ok_bind, parseHex4]
  cases ha : hexDigit a <;> cases hb : hexDigit b <;> cases hc : hexDigit c <;>
    cases hd : hexDigit d <;> simp [ha, hb, hc, hd]

theorem parseHex4_lt : parseHex4 (a :: b :: c :: d :: r) < 0x10000 := by
  rw [parseHex4]
  cases ha : hexDigit a <;> cases hb : hexDigit b <;> cases hc : hexDigit c <;>
    cases hd : hexDigit d <;> simp [ha, hb, hc, hd]
  have := hexDigit_lt ha
  have := hexDigit_lt hb
  have := hexDigit_lt hc
  have := hexDigit_lt hd
  simp only [Nat.shiftLeft_eq]
  omega

theorem length_utf8Bytes (mark n codepoint : Nat) (output : List UInt8) :
    (utf8Bytes mark n codepoint output).length = n + 1 + output.length := by
  induction n generalizing codepoint output with
  | zero => simp [utf8Bytes, Nat.add_comm]
  | succ n ih =>
      rw [utf8Bytes, ih, List.length_cons]
      omega

/-- A code point takes four bytes, one of four digits three. -/
theorem length_utf8 {codepoint : Nat} {bytes : List UInt8} (h : utf8 codepoint = some bytes) :
    bytes.length ≤ 4 ∧ (codepoint < 0x10000 → bytes.length ≤ 3) := by
  rw [utf8] at h
  split at h
  · cases h
    simp
  · split at h
    · cases h
      simp [length_utf8Bytes]
    · split at h
      · cases h
        simp [length_utf8Bytes]
      · split at h
        · cases h
          simp only [length_utf8Bytes, List.length_nil]
          omega
        · cases h

theorem exists_six (h : 6 ≤ l.length) :
    ∃ c₁ c₂ a b c d l', l = c₁ :: c₂ :: a :: b :: c :: d :: l' := by
  match l, h with
  | c₁ :: c₂ :: a :: b :: c :: d :: l', _ => exact ⟨c₁, c₂, a, b, c, d, l', rfl⟩

/-- The result of the reader, as the walk returns it. -/
def orFail {α : Type} : Option α → Except ParseStop α
  | none => .error .fail
  | some x => .ok x

/-- **A `\u` sequence** is read from the literal only. -/
theorem utf16LiteralAt_eq (h : content.drop i = l ++ r) :
    utf16LiteralAt content i (i + l.length) = orFail (utf16LiteralToUtf8 l) := by
  have hsub : i + l.length - i = l.length := by omega
  rw [utf16LiteralAt, utf16LiteralToUtf8, hsub]
  by_cases hshort : l.length < 6
  · rw [if_pos hshort, if_pos hshort]
    rfl
  rw [if_neg hshort, if_neg hshort]
  obtain ⟨c₁, c₂, a, b, c, d, l', rfl⟩ := exists_six (Nat.le_of_not_lt hshort)
  have h₁ := drop_succ_of_drop h
  have h₂ : content.drop (i + 2) = a :: b :: c :: d :: (l' ++ r) := drop_succ_of_drop h₁
  have hfirst : parseHex4At content 4 (i + 2) 0 = .ok (parseHex4 (a :: b :: c :: d :: l')) :=
    parseHex4At_eq h₂
  have hdrop : (c₁ :: c₂ :: a :: b :: c :: d :: l').drop 2 = a :: b :: c :: d :: l' := rfl
  have hdrop6 : (c₁ :: c₂ :: a :: b :: c :: d :: l').drop 6 = l' := rfl
  have hrest : i + (c₁ :: c₂ :: a :: b :: c :: d :: l').length - (i + 6) = l'.length := by
    simp only [List.length_cons]
    omega
  simp only [hdrop, hdrop6, hfirst, Output.ok_bind, hrest]
  generalize parseHex4 (a :: b :: c :: d :: l') = firstCode
  by_cases hlow : 0xdc00 ≤ firstCode ∧ firstCode ≤ 0xdfff
  · rw [if_pos hlow, if_pos hlow]
    rfl
  rw [if_neg hlow, if_neg hlow]
  by_cases hhigh : 0xd800 ≤ firstCode ∧ firstCode ≤ 0xdbff
  · rw [if_pos hhigh, if_pos hhigh]
    by_cases hend : l'.length < 6
    · rw [if_pos hend, if_pos (.inl hend)]
      rfl
    rw [if_neg hend]
    obtain ⟨d₁, d₂, a', b', c', d', l'', rfl⟩ := exists_six (Nat.le_of_not_lt hend)
    have h₆ : content.drop (i + 6) = d₁ :: d₂ :: a' :: b' :: c' :: d' :: (l'' ++ r) :=
      drop_succ_of_drop (drop_succ_of_drop (drop_succ_of_drop (drop_succ_of_drop h₂)))
    have h₇ := drop_succ_of_drop h₆
    have hsecond : parseHex4At content 4 (i + 8) 0 =
        .ok (parseHex4 (a' :: b' :: c' :: d' :: l'')) := parseHex4At_eq (drop_succ_of_drop h₇)
    have hdrop2 : (d₁ :: d₂ :: a' :: b' :: c' :: d' :: l'').drop 2 =
        a' :: b' :: c' :: d' :: l'' := rfl
    simp only [readByte_of_drop h₆, readByte_of_drop h₇, hsecond, Output.ok_bind, hdrop2]
    generalize parseHex4 (a' :: b' :: c' :: d' :: l'') = secondCode
    have htake : (d₁ :: d₂ :: a' :: b' :: c' :: d' :: l'').take 2 = [d₁, d₂] := rfl
    rw [htake]
    by_cases h92 : d₁ = 92
    · by_cases h117 : d₂ = 117
      · have hmark : ¬ ((d₁ :: d₂ :: a' :: b' :: c' :: d' :: l'').length < 6 ∨
            [d₁, d₂] ≠ [92, 117]) := by
          rw [h92, h117]
          rintro (hlt | hne)
          · exact hend hlt
          · exact hne rfl
        rw [if_neg (not_not.mpr h92), if_neg (not_not.mpr h117), if_neg hmark]
        by_cases hcode : secondCode < 0xdc00 ∨ 0xdfff < secondCode
        · rw [if_pos hcode, if_pos hcode]
          rfl
        · rw [if_neg hcode, if_neg hcode]
          cases utf8 (0x10000 + ((firstCode &&& 0x3ff) <<< 10 ||| secondCode &&& 0x3ff)) <;> rfl
      · rw [if_neg (not_not.mpr h92), if_pos h117, if_pos (.inr (by simp [h117]))]
        rfl
    · rw [if_pos h92, if_pos (.inr (by simp [h92]))]
      rfl
  · rw [if_neg hhigh, if_neg hhigh]
    cases utf8 firstCode <;> rfl

/-- What a `\u` sequence takes and what it gives. -/
theorem utf16LiteralToUtf8_sizes {x : List UInt8 × Nat} (h : utf16LiteralToUtf8 l = some x) :
    (x.2 = 6 ∧ x.1.length ≤ 3 ∨ x.2 = 12 ∧ x.1.length ≤ 4) ∧ x.2 ≤ l.length := by
  rw [utf16LiteralToUtf8] at h
  by_cases hshort : l.length < 6
  · rw [if_pos hshort] at h
    cases h
  rw [if_neg hshort] at h
  obtain ⟨c₁, c₂, a, b, c, d, l', rfl⟩ := exists_six (Nat.le_of_not_lt hshort)
  have hlt : parseHex4 ((c₁ :: c₂ :: a :: b :: c :: d :: l').drop 2) < 0x10000 := parseHex4_lt
  have hdrop6 : (c₁ :: c₂ :: a :: b :: c :: d :: l').drop 6 = l' := rfl
  have hlength : (c₁ :: c₂ :: a :: b :: c :: d :: l').length = l'.length + 6 := rfl
  simp only [hdrop6] at h
  split at h
  · cases h
  · split at h
    · split at h
      · cases h
      · rename_i hsecond
        split at h
        · cases h
        · obtain ⟨bytes, hbytes, rfl⟩ := Option.map_eq_some_iff.mp h
          have hfour := (length_utf8 hbytes).1
          have hlong : ¬ l'.length < 6 := fun hlt => hsecond (.inl hlt)
          exact ⟨.inr ⟨rfl, hfour⟩, by omega⟩
    · obtain ⟨bytes, hbytes, rfl⟩ := Option.map_eq_some_iff.mp h
      exact ⟨.inl ⟨rfl, (length_utf8 hbytes).2 hlt⟩, by omega⟩

/-! ## The size of the block -/

/-- The backslashes that the first walk skips, from a place where it looks at each byte. -/
def skipped : List UInt8 → Nat
  | [] => 0
  | [_] => 0
  | c :: d :: l => if c = 92 then skipped l + 1 else skipped (d :: l)

/-- The same for a walk that may stand on a byte the first one has passed. -/
def skips (l : List UInt8) : Nat := max (skipped l) (skipped l.tail)

theorem skipped_cons_le (c : UInt8) (l : List UInt8) : skipped (c :: l) ≤ skipped l.tail + 1 ∨
    skipped (c :: l) ≤ skipped l := by
  cases l with
  | nil => exact .inr (Nat.le_refl _)
  | cons d l =>
      rw [skipped]
      split
      · exact .inl (Nat.le_refl _)
      · exact .inr (Nat.le_refl _)

theorem skipped_plain (hc : c ≠ 92) : skipped (c :: l) = skipped l := by
  cases l with
  | nil => rfl
  | cons d l => rw [skipped, if_neg hc]

/-- A byte that is no backslash is skipped by neither. -/
theorem skips_plain (hc : c ≠ 92) : skips (c :: l) ≤ skips l := by
  rw [skips, skipped_plain hc, List.tail_cons, skips]
  omega

/-- **Of two bytes one is skipped at most**, however the walks stand to each other. -/
theorem skips_pair (c d : UInt8) (l : List UInt8) : skips (c :: d :: l) ≤ skips l + 1 := by
  have hd := skipped_cons_le d l
  rw [skips, List.tail_cons, skips, skipped]
  split
  · omega
  · omega

theorem skips_drop (n : Nat) (h : 2 * n ≤ l.length) : skips l ≤ skips (l.drop (2 * n)) + n := by
  induction n generalizing l with
  | zero => exact Nat.le_refl _
  | succ n ih =>
      match l, h with
      | c :: d :: l, h =>
          have hpair := skips_pair c d l
          have hrest := ih (l := l) (by simp only [List.length_cons] at h; omega)
          have hdrop : (c :: d :: l).drop (2 * (n + 1)) = l.drop (2 * n) := rfl
          rw [hdrop]
          omega

theorem skips_le (l : List UInt8) : skips l ≤ l.length := by
  match l with
  | [] => exact Nat.le_refl _
  | [c] => exact Nat.zero_le _
  | c :: d :: l =>
      have hpair := skips_pair c d l
      have hrest := skips_le l
      simp only [List.length_cons]
      omega

/-! ## The second walk -/

theorem copyLiteral_behind {inputEnd : Nat} (h : inputEnd ≤ i) (rounds : Nat) :
    copyLiteral content inputEnd size rounds i output = .ok output := by
  cases rounds with
  | zero => rw [copyLiteral, if_neg (Nat.not_lt.mpr h)]
  | succ rounds => rw [copyLiteral, if_pos h]

/-- The walk from `i` on, through `l` and for so many rounds, does what it should. -/
def WalkCopies (content : List UInt8) (size rounds i : Nat) (l output : List UInt8) : Prop :=
  copyLiteral content (i + l.length) size rounds i output =
      orFail ((unescape rounds l).map (output ++ ·)) ∧
    ∀ text, unescape rounds l = some text → output.length + text.length + 1 ≤ size

theorem copies_nil (rounds : Nat) (hroom : output.length + 0 + 1 ≤ size + 0) :
    WalkCopies content size rounds i [] output := by
  have hnil : unescape rounds [] = some [] := by cases rounds <;> rfl
  refine ⟨?_, ?_⟩
  · rw [copyLiteral_behind (show i + ([] : List UInt8).length ≤ i from Nat.le_refl _), hnil]
    simp [orFail]
  · rw [hnil]
    rintro text ⟨⟩
    exact hroom

/-- A piece of the literal is passed, and the bytes it stands for are put. -/
theorem copies_piece {rounds inputEnd : Nat} {bytes : List UInt8}
    (hcopies : WalkCopies content size rounds i l (output ++ bytes))
    (hroom : output.length + bytes.length ≤ size) (hend : inputEnd = i + l.length) :
    (putBytes size output bytes >>= copyLiteral content inputEnd size rounds i) =
        orFail (((unescape rounds l).map (bytes ++ ·)).map (output ++ ·)) ∧
      ∀ text, (unescape rounds l).map (bytes ++ ·) = some text →
        output.length + text.length + 1 ≤ size := by
  obtain ⟨hwalk, hfits⟩ := hcopies
  refine ⟨?_, ?_⟩
  · rw [putBytes, if_pos hroom, Output.ok_bind, hend, hwalk]
    simp [Option.map_map, Function.comp_def]
  · intro text htext
    obtain ⟨text', htext', rfl⟩ := Option.map_eq_some_iff.mp htext
    have := hfits text' htext'
    rw [List.length_append] at this ⊢
    omega

theorem length_concat (b : UInt8) : (output ++ [b]).length = output.length + 1 :=
  List.length_append

/-- The byte behind a backslash is the closing quote: it is copied, and the walk is behind
the end. -/
theorem copies_closing (rounds : Nat) (h : content.drop i = 92 :: 34 :: r)
    (hroom : output.length + 2 ≤ size) : WalkCopies content size (rounds + 1) i [92] output := by
  have hquote : readByte content (i + 1) = .ok 34 := readByte_of_drop (drop_succ_of_drop h)
  have hescape : simpleEscape 34 = some 34 := rfl
  have hput : putBytes size output [34] = .ok (output ++ [34]) :=
    if_pos (by rw [List.length_singleton]; omega)
  have hnil : unescape rounds [] = some [] := by cases rounds <;> rfl
  have hnext : ¬ i + ([92] : List UInt8).length ≤ i := by simp
  have hbehind : i + ([92] : List UInt8).length ≤ i + 2 := by simp
  have hslash : ¬ (92 : UInt8) ≠ 92 := not_not.mpr rfl
  rw [WalkCopies, copyLiteral, if_neg hnext, readByte_of_drop h, Output.ok_bind, unescape,
    if_neg hslash, if_neg hslash, hquote, Output.ok_bind, hescape, List.headD_nil,
    List.tail_nil, hescape, hnil]
  simp only [hput, Output.ok_bind, copyLiteral_behind hbehind]
  refine ⟨rfl, ?_⟩
  rintro text ⟨⟩
  exact hroom

/-- An escape in the literal, where the walk does what it should behind it. -/
theorem copies_escape {rounds : Nat} {d : UInt8} (h : content.drop i = 92 :: d :: (l ++ 34 :: r))
    (hroom : output.length + (92 :: d :: l).length + 1 ≤ size + skips (92 :: d :: l))
    (hrounds : l.length < rounds)
    (hrest : ∀ {i output l}, content.drop i = l ++ 34 :: r → l.length ≤ rounds →
      output.length + l.length + 1 ≤ size + skips l → WalkCopies content size rounds i l output) :
    WalkCopies content size (rounds + 1) i (92 :: d :: l) output := by
  have hnext : ¬ i + (92 :: d :: l).length ≤ i := by simp
  have hlength : (92 :: d :: l).length = l.length + 2 := rfl
  have hpair := skips_pair 92 d l
  have hle := skips_le l
  have hd : readByte content (i + 1) = .ok d := readByte_of_drop (drop_succ_of_drop h)
  have hslash : ¬ (92 : UInt8) ≠ 92 := not_not.mpr rfl
  rw [WalkCopies, copyLiteral, if_neg hnext, readByte_of_drop h, Output.ok_bind, unescape,
    if_neg hslash, if_neg hslash, hd, Output.ok_bind, List.headD_cons, List.tail_cons]
  cases hescape : simpleEscape d with
  | some b =>
      exact copies_piece
        (hrest (drop_succ_of_drop (drop_succ_of_drop h)) (by omega)
          (by rw [length_concat]; omega))
        (by rw [List.length_singleton]; omega) (by omega)
  | none =>
      by_cases hu : d = 117
      · simp only [if_pos hu]
        have hliteral : content.drop i = (92 :: d :: l) ++ 34 :: r := h
        rw [utf16LiteralAt_eq hliteral]
        cases hread : utf16LiteralToUtf8 (92 :: d :: l) with
        | none => exact ⟨rfl, fun text htext => by cases htext⟩
        | some x =>
            obtain ⟨hsizes, htakes⟩ := utf16LiteralToUtf8_sizes hread
            have hskips : skips (92 :: d :: l) ≤ skips ((92 :: d :: l).drop x.2) + x.2 / 2 := by
              have hdrop := skips_drop (l := 92 :: d :: l) (x.2 / 2) (by omega)
              rwa [show 2 * (x.2 / 2) = x.2 by omega] at hdrop
            have hlater : ((92 :: d :: l).drop x.2).length =
                (92 :: d :: l).length - x.2 := List.length_drop
            have hle' := skips_le ((92 :: d :: l).drop x.2)
            have hdrop : content.drop (i + x.2) = (92 :: d :: l).drop x.2 ++ 34 :: r := by
              rw [← List.drop_drop, hliteral, List.drop_append_of_le_length htakes]
            have hroom' : (output ++ x.1).length + ((92 :: d :: l).drop x.2).length + 1 ≤
                size + skips ((92 :: d :: l).drop x.2) := by
              rw [List.length_append]
              omega
            exact copies_piece (hrest hdrop (by omega) hroom') (by omega) (by omega)
      · simp only [if_neg hu]
        exact ⟨rfl, fun text htext => by cases htext⟩

/-- **The walk stays in the literal and in the block**, and copies what the reader reads.  The
room that is left is for the bytes to come, less the backslashes skipped among them. -/
theorem copies_literal (rounds : Nat) (h : content.drop i = l ++ 34 :: r)
    (hrounds : l.length ≤ rounds) (hroom : output.length + l.length + 1 ≤ size + skips l) :
    WalkCopies content size rounds i l output := by
  induction rounds generalizing i output l with
  | zero =>
      cases l with
      | nil => exact copies_nil 0 hroom
      | cons c l => cases hrounds
  | succ rounds ih =>
      cases l with
      | nil => exact copies_nil _ hroom
      | cons c l =>
          by_cases hslash : c = 92
          · subst hslash
            cases l with
            | nil => exact copies_closing rounds h hroom
            | cons d l => exact copies_escape h hroom (Nat.le_of_succ_le_succ hrounds) ih
          · have hnext : ¬ i + (c :: l).length ≤ i := by simp
            have hlength : (c :: l).length = l.length + 1 := rfl
            have hle := skips_le l
            have hskips := skips_plain (l := l) hslash
            rw [WalkCopies, copyLiteral, if_neg hnext, readByte_of_drop h, Output.ok_bind,
              unescape, if_pos hslash, if_pos hslash]
            exact copies_piece
              (ih (drop_succ_of_drop h) (by omega) (by rw [length_concat]; omega))
              (by rw [List.length_singleton]; omega) (by omega)

/-! ## The first walk -/

theorem getElem?_of_drop (h : content.drop i = c :: r) : content[i]? = some c := by
  rw [← Nat.add_zero i, ← List.getElem?_drop, h]
  rfl

theorem getElem?_of_drop_nil (h : content.drop i = []) : content[i]? = none :=
  List.getElem?_eq_none (List.drop_eq_nil_iff.mp h)

theorem length_of_drop (h : content.drop i = c :: r) : content.length = i + 1 + r.length := by
  have hlength := congrArg List.length h
  rw [List.length_drop, List.length_cons] at hlength
  omega

/-- **The walk to the closing quote** finds the literal that the reader finds; without one it
fails, or comes to the end of the buffer. -/
theorem scanLiteral_cases (rounds skip : Nat) (hrounds : content.length ≤ i + rounds) :
    (∃ lit rest, stringLiteral (content.drop i) = some (lit, rest) ∧
        content.drop i = lit ++ 34 :: rest ∧
        scanLiteral content rounds i skip = .ok (i + lit.length, skip + skipped lit)) ∨
      (stringLiteral (content.drop i) = none ∧
        (scanLiteral content rounds i skip = .error .fail ∨
          ∃ inputEnd skip', scanLiteral content rounds i skip = .ok (inputEnd, skip') ∧
            content.length ≤ inputEnd)) := by
  induction rounds generalizing i skip with
  | zero =>
      have hnil : content.drop i = [] := List.drop_eq_nil_of_le hrounds
      rw [hnil, scanLiteral]
      exact .inr ⟨rfl, .inr ⟨i, skip, rfl, hrounds⟩⟩
  | succ rounds ih =>
      cases hbuffer : content.drop i with
      | nil =>
          rw [scanLiteral, getElem?_of_drop_nil hbuffer]
          exact .inr ⟨rfl, .inr ⟨i, skip, rfl, List.drop_eq_nil_iff.mp hbuffer⟩⟩
      | cons c tail =>
          have hlength := length_of_drop hbuffer
          have htail := drop_succ_of_drop hbuffer
          rw [scanLiteral, getElem?_of_drop hbuffer]
          simp only
          by_cases hquote : c = 34
          · subst hquote
            rw [if_pos rfl]
            refine .inl ⟨[], tail, ?_, rfl, rfl⟩
            cases tail <;> rfl
          rw [if_neg hquote]
          by_cases hslash : c = 92
          · subst hslash
            rw [if_pos rfl]
            cases tail with
            | nil =>
                rw [if_pos (by rw [hlength]; simp)]
                exact .inr ⟨rfl, .inl rfl⟩
            | cons d tail =>
                have hnext : ¬ content.length ≤ i + 1 := by
                  rw [hlength, List.length_cons]
                  omega
                have hafter : content.drop (i + 2) = tail := drop_succ_of_drop htail
                rw [if_neg hnext, stringLiteral_escape]
                have hcases := ih (i := i + 2) (skip + 1) (by omega)
                rw [hafter] at hcases
                rcases hcases with ⟨lit, rest, hread, happend, hscan⟩ | ⟨hread, hscan⟩
                · refine .inl ⟨92 :: d :: lit, rest, by rw [hread]; rfl, by rw [happend]; rfl, ?_⟩
                  have hcount : skipped (92 :: d :: lit) = skipped lit + 1 := if_pos rfl
                  rw [hscan, hcount, List.length_cons, List.length_cons]
                  congr 2 <;> omega
                · exact .inr ⟨by rw [hread]; rfl, hscan⟩
          · rw [if_neg hslash, stringLiteral_plain hquote hslash]
            have hcases := ih (i := i + 1) skip (by omega)
            rw [htail] at hcases
            rcases hcases with ⟨lit, rest, hread, happend, hscan⟩ | ⟨hread, hscan⟩
            · refine .inl ⟨c :: lit, rest, by rw [hread]; rfl, by rw [happend]; rfl, ?_⟩
              rw [hscan, skipped_plain hslash, List.length_cons]
              congr 2
              omega
            · exact .inr ⟨by rw [hread]; rfl, hscan⟩

/-! ## Both walks -/

theorem cstrOf_concat_zero (bytes : List UInt8) : cstrOf (bytes ++ [0]) = cstrOf bytes := by
  simp only [cstrOf, List.takeWhile_append]
  split
  · rename_i hall
    rw [(List.takeWhile_prefix _).eq_of_length hall]
    simp
  · rfl

/-- A literal that the first walk has found is read by the second, into a block of that size. -/
theorem parseStringAt_literal {offset : Nat} (h : content.drop offset = 34 :: (l ++ 34 :: r))
    (hscan : scanLiteral content content.length (offset + 1) 0 =
      .ok (offset + 1 + l.length, 0 + skipped l)) :
    parseStringAt content offset = orFail ((unescape l.length l).map fun text =>
      (cstrOf text, offset + 1 + l.length + 1)) := by
  have hliteral : content.drop (offset + 1) = l ++ 34 :: r := drop_succ_of_drop h
  have hclose : content.drop (offset + 1 + l.length) = 34 :: r := by
    rw [← List.drop_drop, hliteral, List.drop_left]
  have hskip : skipped l ≤ skips l := Nat.le_max_left _ _
  have hle := skips_le l
  have hsize : offset + 1 + l.length - offset - (0 + skipped l) + 1 =
      l.length + 2 - skipped l := by omega
  have hwalk : offset + 1 + l.length - (offset + 1) = l.length := by omega
  have hroom : ([] : List UInt8).length + l.length + 1 ≤
      l.length + 2 - skipped l + skips l := by
    rw [List.length_nil]
    omega
  obtain ⟨hcopy, hfits⟩ := copies_literal l.length hliteral (Nat.le_refl _) hroom
  have hquoted : ¬ content[offset + 1 + l.length]? ≠ some 34 :=
    not_not.mpr (getElem?_of_drop hclose)
  rw [parseStringAt, readByte_of_drop h, Output.ok_bind, if_neg (not_not.mpr rfl), hscan,
    Output.ok_bind, if_neg hquoted]
  simp only [hsize, hwalk, hcopy]
  cases htext : unescape l.length l with
  | none => rfl
  | some text =>
      have hput : putBytes (l.length + 2 - skipped l) text [0] = .ok (text ++ [0]) := by
        have := hfits text htext
        rw [List.length_nil] at this
        exact if_pos (by rw [List.length_singleton]; omega)
      simp only [Option.map_some, List.nil_append, orFail, Output.ok_bind, hput,
        cstrOf_concat_zero]

/-- In the buffer the string is read as in the text, up to a closing quote in the buffer. -/
theorem parseStringAt_inside {offset : Nat} (h : offset < content.length) :
    (parseStringAt content offset = .error .fail ∧ parseString (content.drop offset) = none) ∨
      ∃ s inputEnd, offset < inputEnd ∧ content[inputEnd]? = some 34 ∧
        parseStringAt content offset = .ok (s, inputEnd + 1) ∧
        parseString (content.drop offset) = some (s, content.drop (inputEnd + 1)) := by
  cases hbuffer : content.drop offset with
  | nil => exact absurd h (Nat.not_lt.mpr (List.drop_eq_nil_iff.mp hbuffer))
  | cons c tail =>
      have htail : content.drop (offset + 1) = tail := drop_succ_of_drop hbuffer
      by_cases hquote : c ≠ 34
      · rw [parseStringAt, readByte_of_drop hbuffer, Output.ok_bind, if_pos hquote]
        exact .inl ⟨rfl, by simp [parseString, hquote]⟩
      obtain rfl := not_not.mp hquote
      have hparse : parseString (34 :: tail) = (stringLiteral tail).bind fun r =>
          (unescape r.1.length r.1).map fun output => (cstrOf output, r.2) := rfl
      have hrounds : content.length ≤ offset + 1 + content.length := by omega
      rw [hparse]
      rcases scanLiteral_cases content.length 0 hrounds with
        ⟨lit, rest, hread, happend, hscan⟩ | ⟨hread, hscan⟩
      · rw [htail] at hread happend
        obtain rfl := happend
        have hclose : content.drop (offset + 1 + lit.length) = 34 :: rest := by
          rw [← List.drop_drop, htail, List.drop_left]
        rw [parseStringAt_literal hbuffer hscan, hread, Option.bind_some]
        cases htext : unescape lit.length lit with
        | none => exact .inl ⟨rfl, rfl⟩
        | some text =>
            refine .inr ⟨cstrOf text, offset + 1 + lit.length, by omega,
              getElem?_of_drop hclose, rfl, ?_⟩
            rw [drop_succ_of_drop hclose]
            rfl
      · rw [htail] at hread
        rw [parseStringAt, readByte_of_drop hbuffer, Output.ok_bind,
          if_neg (not_not.mpr rfl), hread]
        refine .inl ⟨?_, rfl⟩
        rcases hscan with hfail | ⟨inputEnd, skip, hend, hle⟩
        · rw [hfail]
          rfl
        · rw [hend, Output.ok_bind, if_pos (by rw [List.getElem?_eq_none hle]; simp)]

/-- **`parse_string`**, at any place of any buffer: behind the end it reads outside, and
nowhere else.  In the buffer it neither reads nor writes outside, and it fails, or reads a
string and leaves the offset, just where the reader of the text does. -/
theorem parse_string_in_memory (content : List UInt8) (offset : Nat) :
    (content.length ≤ offset ∧ parseStringAt content offset = .error .fault) ∨
      (offset < content.length ∧ parseStringAt content offset = .error .fail ∧
        parseString (content.drop offset) = none) ∨
      ∃ s next, offset < next ∧ next ≤ content.length ∧
        parseStringAt content offset = .ok (s, next) ∧
        parseString (content.drop offset) = some (s, content.drop next) := by
  rcases Nat.lt_or_ge offset content.length with hlt | hle
  · rcases parseStringAt_inside hlt with ⟨hat, hread⟩ | ⟨s, inputEnd, hend, hquote, hat, hread⟩
    · exact .inr (.inl ⟨hlt, hat, hread⟩)
    · obtain ⟨hinside, -⟩ := List.getElem?_eq_some_iff.mp hquote
      exact .inr (.inr ⟨s, inputEnd + 1, by omega, hinside, hat, hread⟩)
  · have hget : content[offset]? = none := List.getElem?_eq_none hle
    refine .inl ⟨hle, ?_⟩
    rw [parseStringAt, readByte, hget]
    rfl

end

end CJson

end X50
