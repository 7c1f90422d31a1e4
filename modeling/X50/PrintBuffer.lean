/-
# `X50.PrintBuffer` — how a report is printed into memory

`cJSON_PrintUnformatted` prints into a block of 256 bytes that it makes larger
on the way, and cuts to size at the end.  Where it has got to it finds out by
`strlen`: what prints a value leaves `offset` in front of it or behind it, and
the caller looks for the NUL.

The model keeps the block and the offset.  An access outside the block is a
`fault`; what `malloc` and `realloc` grant, and which bytes are found there, is
up to `Hooks`.  That nothing faults rests on each request to `ensure`: all are for
as many bytes as are then written, their NUL included where there is one.
-/
import X50.CJsonRound
import X50.Lib.Output

namespace X50

open X50.Lib

namespace CJson

/-! ## The buffer -/

/-- `INT_MAX` -/
def intMax : Nat := 2147483647

/-- A `size_t` of the device. -/
def sizeT (n : Nat) : Nat := n % 4294967296

/-- Why nothing is printed. -/
inductive PrintStop where
  /-- `false` or `NULL` is returned. -/
  | null
  /-- An access outside the block. -/
  | fault
deriving DecidableEq

/-- `internal_hooks`: what is found in a block of so many bytes, if there is one.  A block
gets larger with each request, so no two of a printing are for the same sizes. -/
structure Hooks where
  allocate : Nat → Option (Nat → UInt8)
  reallocate : Nat → Nat → Option (Nat → UInt8)

/-- `printbuffer`; `length` is the size of the block. -/
structure PrintBuffer where
  buffer : List UInt8
  offset : Nat

namespace PrintBuffer

def length (p : PrintBuffer) : Nat := p.buffer.length

/-- Bytes stored `i` bytes behind the offset. -/
def store (i : Nat) (bytes : List UInt8) (p : PrintBuffer) : Except PrintStop PrintBuffer :=
  match storeAt p.buffer (p.offset + i) bytes with
  | none => .error .fault
  | some buffer => .ok { p with buffer := buffer }

/-- `output_buffer->offset += n` -/
def advance (n : Nat) (p : PrintBuffer) : Except PrintStop PrintBuffer :=
  .ok { p with offset := p.offset + n }

/-- `p->hooks.reallocate(p->buffer, newsize)` -/
def grow (hooks : Hooks) (newsize : Nat) (p : PrintBuffer) : Except PrintStop PrintBuffer :=
  match hooks.reallocate p.length newsize with
  | none => .error .null
  | some found => .ok { p with buffer := resized found newsize p.buffer }

end PrintBuffer

variable (hooks : Hooks)

/-- `ensure`; the pointer it returns is that of the offset. -/
def ensure (needed : Nat) (p : PrintBuffer) : Except PrintStop PrintBuffer :=
  if 0 < p.length ∧ p.length ≤ p.offset then .error .null
  else if intMax < needed then .error .null
  else
    let needed := needed + p.offset + 1
    if needed ≤ p.length then .ok p
    else if intMax / 2 < needed then
      if needed ≤ intMax then p.grow hooks intMax else .error .null
    else p.grow hooks (needed * 2)

/-- `update_offset`: `strlen` from the offset on. -/
def updateOffset (p : PrintBuffer) : Except PrintStop PrintBuffer :=
  match (p.buffer.drop p.offset).findIdx? (· == 0) with
  | none => .error .fault
  | some n => p.advance n

/-! ## Values -/

/-- A literal, and its NUL. -/
def printLiteral (needed : Nat) (text : CStr) (p : PrintBuffer) : Except PrintStop PrintBuffer := do
  let p ← ensure hooks needed p
  p.store 0 (text ++ [0])

/-- `print_number`: `number_buffer` has 26 bytes. -/
def printNumber (valueint : Int) (p : PrintBuffer) : Except PrintStop PrintBuffer := do
  let numberBuffer := decimal valueint
  if 25 < numberBuffer.length then .error .null
  else
    let p ← ensure hooks (numberBuffer.length + 1) p
    let p ← p.store 0 numberBuffer
    let p ← p.store numberBuffer.length [0]
    p.advance numberBuffer.length

/-- How many bytes more are written for one of a string. -/
def escapeCharacters (c : UInt8) : Nat :=
  match c.toNat with
  | 34 | 92 | 8 | 12 | 10 | 13 | 9 => 1
  | n => if n < 32 then 5 else 0

/-- The letter behind a backslash. -/
def escapeLetter (c : UInt8) : Option UInt8 :=
  match c.toNat with
  | 92 => some 92
  | 34 => some 34
  | 8 => some 98
  | 12 => some 102
  | 10 => some 110
  | 13 => some 114
  | 9 => some 116
  | _ => none

/-- A digit of `%04x`. -/
def hexLetter (n : Nat) : UInt8 := if n < 10 then UInt8.ofNat (48 + n) else UInt8.ofNat (87 + n)

/-- `sprintf(output_pointer, "u%04x", c)`, its NUL included. -/
def unicodeEscape (c : UInt8) : List UInt8 :=
  [117, 48, 48, hexLetter (c.toNat / 16), hexLetter (c.toNat % 16), 0]

/-- The loop of `print_string_ptr`, `i` bytes behind the offset. -/
def copyEscaped : CStr → Nat → PrintBuffer → Except PrintStop PrintBuffer
  | [], _, p => .ok p
  | c :: input, i, p =>
      if 31 < c ∧ c ≠ 34 ∧ c ≠ 92 then do
        let p ← p.store i [c]
        copyEscaped input (i + 1) p
      else do
        let p ← p.store i [92]
        match escapeLetter c with
        | some letter =>
            let p ← p.store (i + 1) [letter]
            copyEscaped input (i + 2) p
        | none =>
            let p ← p.store (i + 1) (unicodeEscape c)
            copyEscaped input (i + 6) p

/-- The string itself: as it is if nothing is to be escaped. -/
def copyString (input : CStr) (escapes outputLength : Nat) (p : PrintBuffer) :
    Except PrintStop PrintBuffer :=
  if escapes = 0 then p.store 1 (input.take outputLength) else copyEscaped input 1 p

/-- `print_string_ptr` -/
def printStringPtr (input : CStr) (p : PrintBuffer) : Except PrintStop PrintBuffer := do
  let escapes := sizeT (input.map escapeCharacters).sum
  let outputLength := sizeT (input.length + escapes)
  let p ← ensure hooks (sizeT (outputLength + 3)) p
  let p ← p.store 0 [34]
  let p ← copyString input escapes outputLength p
  let p ← p.store (outputLength + 1) [34]
  p.store (outputLength + 2) [0]

/-- The comma of an array, if another element follows. -/
def printComma (last : Bool) (p : PrintBuffer) : Except PrintStop PrintBuffer :=
  if last then .ok p
  else do
    let p ← ensure hooks 2 p
    let p ← p.store 0 [44, 0]
    p.advance 1

/-- The comma of an object, if another member follows; the NUL is written anyway. -/
def printPairEnd (last : Bool) (p : PrintBuffer) : Except PrintStop PrintBuffer := do
  let length := if last then 0 else 1
  let p ← ensure hooks (length + 1) p
  let p ← p.store 0 (if last then [0] else [44, 0])
  p.advance length

mutual
/-- `print_value`, with `print_array` and `print_object`. -/
def printValue : CJson → PrintBuffer → Except PrintStop PrintBuffer
  | .null, p => printLiteral hooks 5 (cstr "null") p
  | .false, p => printLiteral hooks 6 (cstr "false") p
  | .true, p => printLiteral hooks 5 (cstr "true") p
  | .number n, p => printNumber hooks n p
  | .string s, p => printStringPtr hooks s p
  | .array items, p => do
      let p ← ensure hooks 1 p
      let p ← p.store 0 [91]
      let p ← p.advance 1
      let p ← printElements items p
      let p ← ensure hooks 2 p
      p.store 0 [93, 0]
  | .object members, p => do
      let p ← ensure hooks 2 p
      let p ← p.store 0 [123]
      let p ← p.advance 1
      let p ← printPairs members p
      let p ← ensure hooks 2 p
      p.store 0 [125, 0]
/-- The loop of `print_array`. -/
def printElements : List CJson → PrintBuffer → Except PrintStop PrintBuffer
  | [], p => .ok p
  | item :: next, p => do
      let p ← printValue item p
      let p ← updateOffset p
      let p ← printComma hooks next.isEmpty p
      printElements next p
/-- The loop of `print_object`. -/
def printPairs : List (CStr × CJson) → PrintBuffer → Except PrintStop PrintBuffer
  | [], p => .ok p
  | (name, item) :: next, p => do
      let p ← printStringPtr hooks name p
      let p ← updateOffset p
      let p ← ensure hooks 1 p
      let p ← p.store 0 [58]
      let p ← p.advance 1
      let p ← printValue item p
      let p ← updateOffset p
      let p ← printPairEnd hooks next.isEmpty p
      printPairs next p
end

/-- What `print` does with its block: the value, its end, and the block cut to size. -/
def printInto (item : CJson) (p : PrintBuffer) : Except PrintStop (List UInt8) := do
  let p ← printValue hooks item p
  let p ← updateOffset p
  let p ← p.grow hooks (p.offset + 1)
  pure p.buffer

/-- `print`, unformatted: the block that is returned. -/
def print (item : CJson) : Except PrintStop (List UInt8) :=
  match hooks.allocate 256 with
  | none => .error .null
  | some found => printInto hooks item ⟨resized found 256 [], 0⟩

/-! ## Stores -/

/-- `text` is stored from the offset on. -/
structure Stored (text : List UInt8) (p p' : PrintBuffer) : Prop where
  offset : p'.offset = p.offset
  length : p'.length = p.length
  bytes : p'.buffer.take (p.offset + text.length) = p.buffer.take p.offset ++ text

theorem Stored.refl (p : PrintBuffer) : Stored [] p p := ⟨rfl, rfl, by simp⟩

variable {hooks} {p p' : PrintBuffer} {a b text : List UInt8} {i needed : Nat}

/-- A store right behind it is inside the block if there is room. -/
theorem Stored.store (h : Stored a p p') (hi : i = a.length)
    (hroom : p.offset + (a.length + b.length) ≤ p.length) :
    ∃ p'', p'.store i b = .ok p'' ∧ Stored (a ++ b) p p'' := by
  subst hi
  have hlen : p.offset + a.length + b.length ≤ p'.buffer.length := by
    have : p'.buffer.length = p.length := h.length
    omega
  obtain ⟨buffer, hwrite, hlength, hbytes⟩ := storeAt_spec hlen
  refine ⟨{ p' with buffer := buffer }, ?_, h.offset, hlength.trans h.length, ?_⟩
  · rw [PrintBuffer.store, h.offset, hwrite]
  · rw [List.length_append, ← Nat.add_assoc, hbytes, h.bytes, List.append_assoc]

theorem stored_of_room (hroom : p.offset + a.length ≤ p.length) :
    ∃ p', p.store 0 a = .ok p' ∧ Stored a p p' := by
  refine (Stored.refl p).store (b := a) rfl ?_
  simpa using hroom

theorem take_behind (hp : p.offset ≤ p.length) :
    (p.buffer.take p.offset ++ a ++ b).take (p.offset + a.length) =
      p.buffer.take p.offset ++ a := by
  have hfront : (p.buffer.take p.offset).length = p.offset := List.length_take_of_le hp
  exact List.take_left' (by rw [List.length_append, hfront])

/-- The front of it is stored. -/
theorem Stored.left (h : Stored (a ++ b) p p') (hp : p.offset ≤ p.length) : Stored a p p' := by
  refine ⟨h.offset, h.length, ?_⟩
  rw [take_of_take h.bytes (by simp), ← List.append_assoc]
  exact take_behind hp

/-! ## Strings -/

/-- What the loop writes for a byte is what a reader expects. -/
theorem escape_eq (c : UInt8) :
    escape c =
      if 31 < c ∧ c ≠ 34 ∧ c ≠ 92 then [c]
      else 92 :: match escapeLetter c with
        | some letter => [letter]
        | none => (unicodeEscape c).dropLast := by
  have hall : ∀ n < 256, escape (UInt8.ofNat n) =
      if 31 < UInt8.ofNat n ∧ UInt8.ofNat n ≠ 34 ∧ UInt8.ofNat n ≠ 92 then [UInt8.ofNat n]
      else 92 :: match escapeLetter (UInt8.ofNat n) with
        | some letter => [letter]
        | none => (unicodeEscape (UInt8.ofNat n)).dropLast := by
    decide +kernel
  have hc := hall c.toNat c.toNat_lt
  rwa [UInt8.ofNat_toNat] at hc

theorem length_escape (c : UInt8) : (escape c).length = 1 + escapeCharacters c := by
  have hall : ∀ n < 256, (escape (UInt8.ofNat n)).length =
      1 + escapeCharacters (UInt8.ofNat n) := by
    decide +kernel
  have hc := hall c.toNat c.toNat_lt
  rwa [UInt8.ofNat_toNat] at hc

/-- The two passes over a string agree on how long it gets. -/
theorem length_flatMap_escape (s : CStr) :
    (s.flatMap escape).length = s.length + (s.map escapeCharacters).sum := by
  induction s with
  | nil => rfl
  | cons c s ih =>
      rw [List.flatMap_cons, List.length_append, ih, length_escape, List.length_cons,
        List.map_cons, List.sum_cons]
      omega

/-- Without escapes it is copied as it is. -/
theorem flatMap_escape_eq_self {s : CStr} (h : (s.map escapeCharacters).sum = 0) :
    s.flatMap escape = s := by
  induction s with
  | nil => rfl
  | cons c s ih =>
      rw [List.map_cons, List.sum_cons] at h
      have hone : (escape c).length = 1 := by
        rw [length_escape]
        omega
      rw [List.flatMap_cons, ih (by omega)]
      rcases escape_cases c with ⟨hc, -⟩ | ⟨d, hc, -⟩ | ⟨d, e, hc, -⟩
      · rw [hc]
        rfl
      · rw [hc] at hone
        cases hone
      · rw [hc] at hone
        cases hone

/-- **The loop of `print_string_ptr`** stays inside the block if what is left of the string
fits in, and a NUL. -/
theorem copyEscaped_stored {input : CStr} (h : Stored a p p')
    (hroom : p.offset + (a.length + (input.flatMap escape).length) + 1 ≤ p.length)
    (hi : i = a.length) :
    ∃ p'', copyEscaped input i p' = .ok p'' ∧ Stored (a ++ input.flatMap escape) p p'' := by
  induction input generalizing a i p' with
  | nil => exact ⟨p', rfl, by simpa using h⟩
  | cons c input ih =>
      have hc := escape_eq c
      have htail : (a ++ escape c).length = a.length + (escape c).length := List.length_append
      rw [List.flatMap_cons, List.length_append] at hroom
      rw [List.flatMap_cons, ← List.append_assoc, copyEscaped]
      by_cases hplain : 31 < c ∧ c ≠ 34 ∧ c ≠ 92
      · rw [if_pos hplain] at hc ⊢
        have hone : (escape c).length = 1 := by rw [hc]; rfl
        obtain ⟨q, hq, hstored⟩ := h.store (b := escape c) hi (by omega)
        rw [← hc, hq]
        exact ih hstored (by omega) (by omega)
      · rw [if_neg hplain] at hc ⊢
        have hslash : (a ++ [92]).length = a.length + 1 := List.length_append
        have hsome : 0 < (escape c).length := escape_pos c
        obtain ⟨q, hq, hstored⟩ := h.store (b := [92]) hi (by
          simp only [List.length_cons, List.length_nil]
          omega)
        cases hletter : escapeLetter c with
        | some letter =>
            rw [hletter] at hc
            have htwo : (escape c).length = 2 := by rw [hc]; rfl
            obtain ⟨q', hq', hstored'⟩ := hstored.store (i := i + 1) (b := [letter]) (by omega) (by
              simp only [List.length_cons, List.length_nil]
              omega)
            have hboth : a ++ [92] ++ [letter] = a ++ escape c := by rw [hc]; simp
            rw [hboth] at hstored'
            rw [hq]
            show ∃ p'', (q.store (i + 1) [letter] >>= _) = .ok p'' ∧ _
            rw [hq']
            exact ih hstored' (by omega) (by omega)
        | none =>
            -- `sprintf` ends its text with a NUL, which the next byte overwrites
            rw [hletter] at hc
            have hsix : (escape c).length = 6 := by rw [hc]; rfl
            obtain ⟨q', hq', hstored'⟩ :=
              hstored.store (i := i + 1) (b := unicodeEscape c) (by omega) (by
                rw [hslash]
                show p.offset + (a.length + 1 + 6) ≤ p.length
                omega)
            have hboth : a ++ [92] ++ unicodeEscape c = a ++ escape c ++ [0] := by
              rw [hc]
              simp [unicodeEscape]
            rw [hboth] at hstored'
            rw [hq]
            show ∃ p'', (q.store (i + 1) (unicodeEscape c) >>= _) = .ok p'' ∧ _
            rw [hq']
            exact ih (hstored'.left (by omega)) (by omega) (by omega)

theorem copyString_stored {s : CStr} (h : Stored [34] p p')
    (hroom : p.offset + (1 + (s.flatMap escape).length) + 1 ≤ p.length)
    (hlength : (s.flatMap escape).length = s.length + (s.map escapeCharacters).sum) :
    ∃ p'', copyString s (s.map escapeCharacters).sum (s.flatMap escape).length p' = .ok p'' ∧
      Stored ([34] ++ s.flatMap escape) p p'' := by
  have hquote : [(34 : UInt8)].length = 1 := rfl
  by_cases hplain : (s.map escapeCharacters).sum = 0
  · have hself := flatMap_escape_eq_self hplain
    have htake : s.take (s.flatMap escape).length = s := List.take_of_length_le (by omega)
    rw [copyString, if_pos hplain, htake, hself]
    exact h.store rfl (by omega)
  · rw [copyString, if_neg hplain]
    exact copyEscaped_stored h (by omega) rfl

/-! ## What a step of printing does -/

/-- Blocks of up to `n` bytes are to be had. -/
def Hooks.Grants (hooks : Hooks) (n : Nat) : Prop :=
  (∀ size ≤ n, (hooks.allocate size).isSome) ∧
    ∀ old new, new ≤ n → (hooks.reallocate old new).isSome

theorem Hooks.Grants.mono {m n : Nat} (h : hooks.Grants n) (hmn : m ≤ n) : hooks.Grants m :=
  ⟨fun size hsize => h.1 size (by omega), fun old new hnew => h.2 old new (by omega)⟩

/-- The text up to the offset.  Printing stops only if it asked in vain for twice the text,
or if the text is longer than an `int` says. -/
def output (hooks : Hooks) : Output PrintBuffer PrintStop UInt8 where
  Good p := p.offset < p.length ∧ p.length ≤ intMax
  written p := p.buffer.take p.offset
  Refuses n e := e = .null ∧ (hooks.Grants (2 * (n + 2)) → intMax < n + 2)
  mono := by
    rintro m n e ⟨he, h⟩ hmn
    refine ⟨he, fun hgrants => ?_⟩
    have := h (hgrants.mono (by omega))
    omega

theorem length_written (hp : (output hooks).Good p) :
    ((output hooks).written p).length = p.offset :=
  List.length_take_of_le (Nat.le_of_lt hp.1)

/-- What `ensure` promises. -/
structure Reserved (hooks : Hooks) (needed : Nat) (p p' : PrintBuffer) : Prop where
  good : (output hooks).Good p'
  offset : p'.offset = p.offset
  bytes : p'.buffer.take p.offset = p.buffer.take p.offset
  room : p.offset + needed + 1 ≤ p'.length

/-- `ensure` refuses what no `int` counts, has the room, or asks for at most twice of it. -/
theorem ensure_cases (needed : Nat) (hp : (output hooks).Good p) :
    (intMax < p.offset + needed + 1 ∧ ensure hooks needed p = .error .null) ∨
      (p.offset + needed + 1 ≤ p.length ∧ ensure hooks needed p = .ok p) ∨
      ∃ newsize, p.offset + needed + 1 ≤ newsize ∧ newsize ≤ 2 * (p.offset + needed + 1) ∧
        newsize ≤ intMax ∧ ensure hooks needed p = p.grow hooks newsize := by
  obtain ⟨hoffset, hlength⟩ := hp
  have hvalid : ¬ (0 < p.length ∧ p.length ≤ p.offset) := by omega
  have hsum : needed + p.offset + 1 = p.offset + needed + 1 := by omega
  rw [ensure, if_neg hvalid, hsum]
  by_cases hneeded : intMax < needed
  · exact .inl ⟨by omega, if_pos hneeded⟩
  rw [if_neg hneeded]
  by_cases hroom : p.offset + needed + 1 ≤ p.length
  · exact .inr (.inl ⟨hroom, if_pos hroom⟩)
  rw [if_neg hroom]
  by_cases hhalf : intMax / 2 < p.offset + needed + 1
  · rw [if_pos hhalf]
    by_cases hfits : p.offset + needed + 1 ≤ intMax
    · exact .inr (.inr ⟨intMax, hfits, by omega, Nat.le_refl _, if_pos hfits⟩)
    · exact .inl ⟨by omega, if_neg hfits⟩
  · rw [if_neg hhalf]
    exact .inr (.inr ⟨(p.offset + needed + 1) * 2, by omega, by omega, by omega, rfl⟩)

/-- A larger block starts as the old one does. -/
theorem reserved_grow {newsize : Nat} (hp : (output hooks).Good p)
    (hroom : p.offset + needed + 1 ≤ newsize) (hsize : newsize ≤ intMax)
    (h : p.grow hooks newsize = .ok p') : Reserved hooks needed p p' := by
  rw [PrintBuffer.grow] at h
  cases hfound : hooks.reallocate p.length newsize with
  | none =>
      rw [hfound] at h
      cases h
  | some found =>
      rw [hfound] at h
      cases h
      have hlength : (⟨resized found newsize p.buffer, p.offset⟩ : PrintBuffer).length = newsize :=
        length_resized ..
      refine ⟨⟨?_, ?_⟩, rfl, take_resized (by omega) (Nat.le_of_lt hp.1), ?_⟩
      · rw [hlength]
        show p.offset < newsize
        omega
      · rwa [hlength]
      · rwa [hlength]

theorem error_grow {newsize : Nat} {e : PrintStop} (h : p.grow hooks newsize = .error e) :
    e = .null ∧ ¬ hooks.Grants newsize := by
  rw [PrintBuffer.grow] at h
  cases hfound : hooks.reallocate p.length newsize with
  | none =>
      rw [hfound] at h
      cases h
      refine ⟨rfl, fun hgrants => ?_⟩
      have := hgrants.2 p.length newsize (Nat.le_refl _)
      rw [hfound] at this
      cases this
  | some found =>
      rw [hfound] at h
      cases h

/-- **`ensure`** makes room for so many bytes and one more. -/
theorem ensure_writes (htext : needed ≤ text.length + 1) :
    (output hooks).Writes text (Reserved hooks needed) (ensure hooks needed) where
  ok := by
    intro p p' hp h
    rcases ensure_cases needed hp with ⟨-, hnull⟩ | ⟨hroom, hok⟩ |
      ⟨newsize, hroom, -, hsize, hgrow⟩
    · rw [hnull] at h
      cases h
    · rw [hok] at h
      cases h
      exact ⟨hp, rfl, rfl, hroom⟩
    · exact reserved_grow hp hroom hsize (hgrow ▸ h)
  error := by
    intro p e hp h
    have hlength := length_written hp
    rcases ensure_cases needed hp with ⟨hlong, hnull⟩ | ⟨-, hok⟩ |
      ⟨newsize, -, htwice, -, hgrow⟩
    · rw [hnull] at h
      cases h
      exact ⟨rfl, fun _ => by omega⟩
    · rw [hok] at h
      cases h
    · obtain ⟨he, hgrants⟩ := error_grow (hgrow ▸ h)
      exact ⟨he, fun hall => absurd (hall.mono (by omega)) hgrants⟩

/-- A step that makes room and then stores. -/
theorem ensure_bind {P : PrintBuffer → PrintBuffer → Prop}
    {f : PrintBuffer → Except PrintStop PrintBuffer} (htext : needed ≤ text.length + 1)
    (hf : ∀ p p', (output hooks).Good p → Reserved hooks needed p p' →
      ∃ p'', f p' = .ok p'' ∧ P p p'') :
    (output hooks).Writes text P (fun p => ensure hooks needed p >>= f) :=
  (ensure_writes htext).andThen hf

/-- Stored where there was room made for it. -/
theorem Reserved.stored {q : PrintBuffer} (h : Reserved hooks needed p p') (hq : Stored a p' q) :
    q.offset = p.offset ∧ p.offset + needed + 1 ≤ q.length ∧ q.length ≤ intMax ∧
      q.buffer.take (p.offset + a.length) = p.buffer.take p.offset ++ a := by
  refine ⟨hq.offset.trans h.offset, ?_, ?_, ?_⟩
  · rw [hq.length]
    exact h.room
  · rw [hq.length]
    exact h.good.2
  · have hbytes := hq.bytes
    rwa [h.offset, h.bytes] at hbytes

/-- A mark is put behind the text. -/
theorem emits_mark (text a : List UInt8) (hneeded : needed ≤ text.length + 1)
    (ha : a.length ≤ needed) (htext : text <+: a) :
    (output hooks).Emits text (fun p => do
      let p ← ensure hooks needed p
      let p ← p.store 0 a
      p.advance text.length) := by
  refine ensure_bind hneeded fun p p' hp h => ?_
  have hle := htext.length_le
  have hroom : p'.offset + a.length ≤ p'.length := by
    have := h.room
    have := h.offset
    omega
  obtain ⟨q, hq, hstored⟩ := stored_of_room hroom
  obtain ⟨hoffset, hlength, hmax, hbytes⟩ := h.stored hstored
  refine ⟨⟨q.buffer, q.offset + text.length⟩, by rw [hq]; rfl, ⟨?_, hmax⟩, ?_⟩
  · show q.offset + text.length < q.length
    omega
  · show q.buffer.take (q.offset + text.length) = p.buffer.take p.offset ++ text
    obtain ⟨rest, rfl⟩ := htext
    rw [hoffset, take_of_take hbytes (by simp), ← List.append_assoc]
    exact take_behind (Nat.le_of_lt hp.1)

/-! ## Texts with their NUL -/

/-- `text` lies behind what was written, with its NUL, and the offset is not behind it. -/
structure Pending (hooks : Hooks) (text : List UInt8) (p p' : PrintBuffer) : Prop where
  good : (output hooks).Good p'
  start : p.offset ≤ p'.offset
  stop : p'.offset ≤ p.offset + text.length
  room : p.offset + text.length + 2 ≤ p'.length
  bytes : p'.buffer.take (p.offset + text.length + 1) = p.buffer.take p.offset ++ text ++ [0]

/-- The step prints `text`. -/
def Renders (hooks : Hooks) (text : List UInt8) (f : PrintBuffer → Except PrintStop PrintBuffer) :
    Prop :=
  (output hooks).Writes text (Pending hooks text) f

/-- Stored with its NUL. -/
theorem Reserved.pending {q : PrintBuffer} (h : Reserved hooks (text.length + 1) p p')
    (hq : Stored (text ++ [0]) p' q) : Pending hooks text p q := by
  obtain ⟨hoffset, hlength, hmax, hbytes⟩ := h.stored hq
  refine ⟨⟨?_, hmax⟩, by omega, by omega, by omega, ?_⟩
  · omega
  · rw [List.append_assoc, ← hbytes, List.length_append]
    rfl

theorem renders_text (hneeded : needed = text.length + 1) :
    Renders hooks text (fun p => do
      let p ← ensure hooks needed p
      p.store 0 (text ++ [0])) := by
  subst hneeded
  refine ensure_bind (Nat.le_refl _) fun p p' _ h => ?_
  have hroom : p'.offset + (text ++ [0]).length ≤ p'.length := by
    have := h.room
    have := h.offset
    rw [List.length_append, List.length_singleton]
    omega
  obtain ⟨q, hq, hstored⟩ := stored_of_room hroom
  exact ⟨q, hq, h.pending hstored⟩

/-- **`update_offset`** finds the end of what was printed. -/
theorem Pending.updateOffset (h : Pending hooks text p p') (hp : (output hooks).Good p)
    (hzero : (0 : UInt8) ∉ text) :
    ∃ q, CJson.updateOffset p' = .ok q ∧ q.offset = p.offset + text.length ∧
      q.buffer = p'.buffer := by
  have hstart := h.start
  have hstop := h.stop
  have hfront : (p.buffer.take p.offset).length = p.offset :=
    List.length_take_of_le (Nat.le_of_lt hp.1)
  -- from the offset on: the rest of the text, and the NUL
  have hrest : p'.buffer.drop p'.offset =
      text.drop (p'.offset - p.offset) ++ 0 :: p'.buffer.drop (p.offset + text.length + 1) := by
    have hoffset : p'.offset = (p.buffer.take p.offset).length + (p'.offset - p.offset) := by
      omega
    have hsplit := List.take_append_drop (p.offset + text.length + 1) p'.buffer
    rw [h.bytes, List.append_assoc, List.append_assoc] at hsplit
    have hdrop := congrArg (List.drop p'.offset) hsplit
    rw [hoffset, List.drop_length_add_append, ← hoffset,
      List.drop_append_of_le_length (by omega)] at hdrop
    exact hdrop.symm
  have hnone : (text.drop (p'.offset - p.offset)).findIdx? (· == 0) = none := by
    rw [List.findIdx?_eq_none_iff]
    intro c hc
    have hne : c ≠ 0 := fun h0 => hzero (h0 ▸ List.mem_of_mem_drop hc)
    simpa using hne
  refine ⟨⟨p'.buffer, p'.offset + (text.length - (p'.offset - p.offset))⟩, ?_, ?_, rfl⟩
  · rw [CJson.updateOffset, hrest, List.findIdx?_append, hnone]
    simp [List.findIdx?_cons, PrintBuffer.advance]
  · show p'.offset + (text.length - (p'.offset - p.offset)) = _
    omega

/-- Behind a text the next one is written. -/
theorem Renders.emits {f : PrintBuffer → Except PrintStop PrintBuffer} (h : Renders hooks text f)
    (hzero : (0 : UInt8) ∉ text) :
    (output hooks).Emits text (fun p => f p >>= updateOffset) := by
  refine h.andThen fun p p' hp hpending => ?_
  obtain ⟨q, hq, hoffset, hbuffer⟩ := hpending.updateOffset hp hzero
  have hlength : q.length = p'.length := congrArg List.length hbuffer
  have hroom := hpending.room
  refine ⟨q, hq, ⟨by omega, hlength ▸ hpending.good.2⟩, ?_⟩
  show q.buffer.take q.offset = p.buffer.take p.offset ++ text
  rw [hbuffer, hoffset, take_of_take hpending.bytes (by omega)]
  exact take_behind (Nat.le_of_lt hp.1)

/-- The last text of several. -/
theorem Renders.after {f g : PrintBuffer → Except PrintStop PrintBuffer}
    (hg : Renders hooks b g) (hf : (output hooks).Emits a f) :
    Renders hooks (a ++ b) (fun p => f p >>= g) := by
  refine hf.bind hg ?_
  intro p p' p'' hp hp' hwritten h
  have hoffset : p'.offset = p.offset + a.length := by
    rw [← length_written hp, ← length_written hp', hwritten, List.length_append]
  have hlength : (a ++ b).length = a.length + b.length := List.length_append
  have hsum : p.offset + (a ++ b).length = p'.offset + b.length := by omega
  obtain ⟨hgood, hstart, hstop, hroom, hbytes⟩ := h
  refine ⟨hgood, by omega, by omega, by omega, ?_⟩
  have hfront : p'.buffer.take p'.offset = p.buffer.take p.offset ++ a := hwritten
  rw [hsum, hbytes, hfront, List.append_assoc, List.append_assoc, List.append_assoc,
    List.append_assoc]

/-! ## Values -/

theorem renders_number {n : Int} (hn : FitsInt n) :
    Renders hooks (decimal n) (printNumber hooks n) := by
  have hlen : ¬ 25 < (decimal n).length := by
    have := length_decimal hn
    omega
  have hrun : printNumber hooks n = fun p =>
      ensure hooks ((decimal n).length + 1) p >>= fun p =>
        p.store 0 (decimal n) >>= fun p =>
          p.store (decimal n).length [0] >>= fun p => p.advance (decimal n).length := by
    funext p
    rw [printNumber, if_neg hlen]
  rw [hrun]
  refine ensure_bind (Nat.le_refl _) fun p p' _ h => ?_
  have hroom := h.room
  have hoffset := h.offset
  obtain ⟨q, hq, hstored⟩ := stored_of_room (p := p') (a := decimal n) (by omega)
  obtain ⟨q', hq', hstored'⟩ := hstored.store (b := [0]) rfl (by
    rw [List.length_singleton]
    omega)
  have hpending := h.pending hstored'
  have hstart := hstored'.offset
  refine ⟨⟨q'.buffer, q'.offset + (decimal n).length⟩, ?_, ⟨?_, hpending.good.2⟩, ?_, ?_,
    hpending.room, hpending.bytes⟩
  · rw [hq]
    show (q.store (decimal n).length [0] >>= _) = _
    rw [hq']
    rfl
  · have := hpending.room
    show q'.offset + (decimal n).length < q'.length
    omega
  · show p.offset ≤ q'.offset + (decimal n).length
    omega
  · show q'.offset + (decimal n).length ≤ p.offset + (decimal n).length
    omega

theorem sizeT_of_lt {n : Nat} (h : n < 4294967296) : sizeT n = n := Nat.mod_eq_of_lt h

theorem length_printString (s : CStr) :
    (printString s).length = (s.flatMap escape).length + 2 := by
  rw [printString_eq, List.length_cons, List.length_append, List.length_singleton]

/-- **A string** is printed as long as a `size_t` counts its text. -/
theorem renders_string {s : CStr} (hsize : (printString s).length + 1 < 4294967296) :
    Renders hooks (printString s) (printStringPtr hooks s) := by
  have hlength := length_flatMap_escape s
  have hprint := length_printString s
  have hescapes : sizeT (s.map escapeCharacters).sum = (s.map escapeCharacters).sum :=
    sizeT_of_lt (by omega)
  have houtput : sizeT (s.length + (s.map escapeCharacters).sum) = (s.flatMap escape).length := by
    rw [← hlength]
    exact sizeT_of_lt (by omega)
  have hneeded : sizeT ((s.flatMap escape).length + 3) = (printString s).length + 1 := by
    rw [hprint]
    exact sizeT_of_lt (by omega)
  have hbody : printStringPtr hooks s = fun p =>
      ensure hooks ((printString s).length + 1) p >>= fun p =>
        p.store 0 [34] >>= fun p =>
          copyString s (s.map escapeCharacters).sum (s.flatMap escape).length p >>= fun p =>
            p.store ((s.flatMap escape).length + 1) [34] >>= fun p =>
              p.store ((s.flatMap escape).length + 2) [0] := by
    funext p
    simp only [printStringPtr, hescapes, houtput, hneeded]
  rw [hbody]
  refine ensure_bind (Nat.le_refl _) fun p p' _ h => ?_
  have hroom := h.room
  have hoffset := h.offset
  have hquote : [(34 : UInt8)].length = 1 := rfl
  obtain ⟨q₁, hq₁, hstored₁⟩ := stored_of_room (p := p') (a := [34]) (by omega)
  obtain ⟨q₂, hq₂, hstored₂⟩ := copyString_stored hstored₁ (by omega) hlength
  have hopen : ([34] ++ s.flatMap escape).length = (s.flatMap escape).length + 1 := by
    rw [List.length_append]
    omega
  obtain ⟨q₃, hq₃, hstored₃⟩ := hstored₂.store (b := [34]) hopen.symm (by omega)
  have htext : [34] ++ s.flatMap escape ++ [34] = printString s := by
    rw [printString_eq]
    rfl
  rw [htext] at hstored₃
  obtain ⟨q₄, hq₄, hstored₄⟩ := hstored₃.store (b := [0]) hprint.symm (by
    rw [List.length_singleton]
    omega)
  refine ⟨q₄, ?_, h.pending hstored₄⟩
  simp only [hq₁, hq₂, hq₃, hq₄, Output.ok_bind]

/-- A text and what separates it from the next. -/
def comma (last : Bool) : List UInt8 := if last then [] else [44]

theorem printItems_cons (item : CJson) (next : List CJson) :
    printItems (item :: next) =
      item.printUnformatted ++ comma next.isEmpty ++ printItems next := by
  have hcomma : cstr "," = [44] := by decide
  cases next with
  | nil => simp [printItems, comma]
  | cons b next => simp [printItems, comma, hcomma]

theorem printMembers_cons (name : CStr) (item : CJson) (next : List (CStr × CJson)) :
    printMembers ((name, item) :: next) =
      printString name ++ [58] ++ item.printUnformatted ++ comma next.isEmpty ++
        printMembers next := by
  have hcomma : cstr "," = [44] := by decide
  have hcolon : cstr ":" = [58] := by decide
  cases next with
  | nil => simp [printMembers, comma, hcolon]
  | cons b next => simp [printMembers, comma, hcomma, hcolon]

theorem printComma_emits (last : Bool) :
    (output hooks).Emits (comma last) (printComma hooks last) := by
  cases last with
  | false => exact emits_mark [44] [44, 0] (by simp) (by simp) ⟨[0], rfl⟩
  | true => exact .nil

theorem printPairEnd_emits (last : Bool) :
    (output hooks).Emits (comma last) (printPairEnd hooks last) := by
  cases last with
  | false => exact emits_mark [44] [44, 0] (by simp) (by simp) ⟨[0], rfl⟩
  | true => exact emits_mark [] [0] (by simp) (by simp) ⟨[0], rfl⟩

/-- **The loop of `print_array`**, if each element is printed. -/
theorem printElements_emits {items : List CJson}
    (h : ∀ item ∈ items, (output hooks).Emits item.printUnformatted
      (fun p => printValue hooks item p >>= updateOffset)) :
    (output hooks).Emits (printItems items) (printElements hooks items) := by
  induction items with
  | nil =>
      have hrun : printElements hooks [] = .ok := by
        funext p
        rw [printElements]
      rw [hrun]
      exact .nil
  | cons item next ih =>
      have hitem := h item List.mem_cons_self
      have hnext := ih fun i hi => h i (List.mem_cons_of_mem _ hi)
      have hrun : printElements hooks (item :: next) = fun p =>
          ((printValue hooks item p >>= updateOffset) >>= printComma hooks next.isEmpty) >>=
            printElements hooks next := by
        funext p
        rw [printElements]
        simp only [bind_assoc]
      rw [hrun, printItems_cons]
      exact (hitem.comp (printComma_emits _)).comp hnext

/-- **The loop of `print_object`**, if each name and each value is printed. -/
theorem printPairs_emits {members : List (CStr × CJson)}
    (hnames : ∀ m ∈ members, (output hooks).Emits (printString m.1)
      (fun p => printStringPtr hooks m.1 p >>= updateOffset))
    (h : ∀ m ∈ members, (output hooks).Emits m.2.printUnformatted
      (fun p => printValue hooks m.2 p >>= updateOffset)) :
    (output hooks).Emits (printMembers members) (printPairs hooks members) := by
  induction members with
  | nil =>
      have hrun : printPairs hooks [] = .ok := by
        funext p
        rw [printPairs]
      rw [hrun]
      exact .nil
  | cons m next ih =>
      obtain ⟨name, item⟩ := m
      have hname := hnames (name, item) List.mem_cons_self
      have hitem := h (name, item) List.mem_cons_self
      have hnext := ih (fun i hi => hnames i (List.mem_cons_of_mem _ hi))
        fun i hi => h i (List.mem_cons_of_mem _ hi)
      have hcolon : (output hooks).Emits [58] (fun p => do
          let p ← ensure hooks 1 p
          let p ← p.store 0 [58]
          p.advance 1) :=
        emits_mark [58] [58] (by simp) (by simp) ⟨[], rfl⟩
      have hrun : printPairs hooks ((name, item) :: next) = fun p =>
          ((((printStringPtr hooks name p >>= updateOffset) >>= fun p => do
            let p ← ensure hooks 1 p
            let p ← p.store 0 [58]
            p.advance 1) >>= fun p => printValue hooks item p >>= updateOffset) >>=
              printPairEnd hooks next.isEmpty) >>= printPairs hooks next := by
        funext p
        rw [printPairs]
        simp only [bind_assoc]
      rw [hrun, printMembers_cons]
      exact (((hname.comp hcolon).comp hitem).comp (printPairEnd_emits _)).comp hnext

theorem length_le_printItems {items : List CJson} {item : CJson} (h : item ∈ items) :
    item.printUnformatted.length ≤ (printItems items).length := by
  induction items with
  | nil => cases h
  | cons first next ih =>
      rw [printItems_cons, List.length_append, List.length_append]
      rcases List.mem_cons.mp h with rfl | h
      · omega
      · have := ih h
        omega

theorem length_le_printMembers {members : List (CStr × CJson)} {m : CStr × CJson}
    (h : m ∈ members) :
    (printString m.1).length + m.2.printUnformatted.length ≤ (printMembers members).length := by
  induction members with
  | nil => cases h
  | cons first next ih =>
      rw [printMembers_cons, List.length_append, List.length_append, List.length_append,
        List.length_append]
      rcases List.mem_cons.mp h with rfl | h
      · show (printString m.1).length + m.2.printUnformatted.length ≤ _
        omega
      · have := ih h
        omega

/-- What stands between brackets. -/
theorem renders_bracketed {first last : UInt8} {f : PrintBuffer → Except PrintStop PrintBuffer}
    (hneeded : 1 ≤ needed ∧ needed ≤ 2) (hf : (output hooks).Emits text f) :
    Renders hooks ([first] ++ text ++ [last]) (fun p => do
      let p ← ensure hooks needed p
      let p ← p.store 0 [first]
      let p ← p.advance 1
      let p ← f p
      let p ← ensure hooks 2 p
      p.store 0 [last, 0]) := by
  have hopen : (output hooks).Emits [first] (fun p => do
      let p ← ensure hooks needed p
      let p ← p.store 0 [first]
      p.advance 1) :=
    emits_mark [first] [first] hneeded.2 hneeded.1 ⟨[], rfl⟩
  have hclose : Renders hooks [last] (fun p => do
      let p ← ensure hooks 2 p
      p.store 0 [last, 0]) := renders_text rfl
  simpa only [bind_assoc] using hclose.after (hopen.comp hf)

/-- **`print_value`** prints every value the structure can hold. -/
theorem printValue_renders (hooks : Hooks) {levels : Nat} {t : CJson} (h : Sound levels t)
    (hsize : t.printUnformatted.length + 1 < 4294967296) :
    Renders hooks t.printUnformatted (printValue hooks t) := by
  induction h with
  | null levels => exact renders_text rfl
  | false levels => exact renders_text rfl
  | true levels => exact renders_text rfl
  | number levels hn => exact renders_number hn
  | string levels _ => exact renders_string hsize
  | @array levels items hsound ih =>
      have hopen : cstr "[" = [91] := by decide
      have hclose : cstr "]" = [93] := by decide
      rw [printUnformatted, hopen, hclose] at hsize ⊢
      rw [List.length_append, List.length_append] at hsize
      have hrun : printValue hooks (.array items) = _ := funext fun p => by rw [printValue]
      rw [hrun]
      refine renders_bracketed ⟨Nat.le_refl _, by decide⟩ (printElements_emits fun item hitem => ?_)
      have := length_le_printItems hitem
      exact (ih item hitem (by omega)).emits (zero_not_mem_print (hsound item hitem))
  | @object levels members hnames hsound ih =>
      have hopen : cstr "\x7b" = [123] := by decide
      have hclose : cstr "\x7d" = [125] := by decide
      rw [printUnformatted, hopen, hclose] at hsize ⊢
      rw [List.length_append, List.length_append] at hsize
      have hrun : printValue hooks (.object members) = _ := funext fun p => by rw [printValue]
      rw [hrun]
      refine renders_bracketed ⟨by decide, Nat.le_refl _⟩
        (printPairs_emits (fun m hm => ?_) fun m hm => ?_)
      · have := length_le_printMembers hm
        exact (renders_string (by omega)).emits (zero_not_mem_printString m.1)
      · have := length_le_printMembers hm
        exact (ih m hm (by omega)).emits (zero_not_mem_print (hsound m hm))

/-! ## The text that is returned -/

/-- Cutting the block to size. -/
theorem grow_cases (hooks : Hooks) (newsize : Nat) (hsize : newsize ≤ p.length) :
    (¬ hooks.Grants newsize ∧ p.grow hooks newsize = .error .null) ∨
      ∃ q, p.grow hooks newsize = .ok q ∧ q.buffer = p.buffer.take newsize := by
  cases hgrow : p.grow hooks newsize with
  | error e =>
      obtain ⟨rfl, hrefused⟩ := error_grow hgrow
      exact .inl ⟨hrefused, rfl⟩
  | ok q =>
      refine .inr ⟨q, rfl, ?_⟩
      rw [PrintBuffer.grow] at hgrow
      cases hfound : hooks.reallocate p.length newsize with
      | none =>
          rw [hfound] at hgrow
          cases hgrow
      | some found =>
          rw [hfound] at hgrow
          cases hgrow
          exact resized_eq_take hsize

/-- From an empty block: a larger one is refused, or the text is too long for an `int`, or it
is there. -/
theorem printInto_cases {levels : Nat} {t : CJson} (h : Sound levels t)
    (hsize : t.printUnformatted.length + 1 < 4294967296) (hp : (output hooks).Good p)
    (hstart : p.offset = 0) :
    (¬ hooks.Grants (2 * (t.printUnformatted.length + 2)) ∧
        printInto hooks t p = .error .null) ∨
      (intMax < t.printUnformatted.length + 2 ∧ printInto hooks t p = .error .null) ∨
      (t.printUnformatted.length + 2 ≤ intMax ∧
        printInto hooks t p = .ok (t.printUnformatted ++ [0])) := by
  have hrenders := printValue_renders hooks h hsize
  rw [printInto]
  cases hvalue : printValue hooks t p with
  | error e =>
      obtain ⟨rfl, hrefused⟩ := hrenders.error hp hvalue
      rw [length_written hp, hstart, Nat.zero_add] at hrefused
      by_cases hlong : intMax < t.printUnformatted.length + 2
      · exact .inr (.inl ⟨hlong, rfl⟩)
      · exact .inl ⟨fun hgrants => hlong (hrefused hgrants), rfl⟩
  | ok p' =>
      have hpending := hrenders.ok hp hvalue
      obtain ⟨q, hq, hoffset, hbuffer⟩ := hpending.updateOffset hp (zero_not_mem_print h)
      have hroom := hpending.room
      have hmax := hpending.good.2
      have hbytes := hpending.bytes
      rw [hstart, Nat.zero_add, List.take_zero, List.nil_append] at hbytes
      have hlength : q.length = p'.length := congrArg List.length hbuffer
      have hfits : t.printUnformatted.length + 2 ≤ intMax := by omega
      show (_ ∧ (updateOffset p' >>= _) = _) ∨ (_ ∧ (updateOffset p' >>= _) = _) ∨
        (_ ∧ (updateOffset p' >>= _) = _)
      simp only [hq, Output.ok_bind]
      rcases grow_cases hooks (p := q) (q.offset + 1) (by omega) with
        ⟨hrefused, hnull⟩ | ⟨r, hr, hcut⟩
      · exact .inl ⟨fun hgrants => hrefused (hgrants.mono (by omega)), by rw [hnull]; rfl⟩
      · refine .inr (.inr ⟨hfits, ?_⟩)
        rw [hr]
        show Except.ok r.buffer = _
        rw [hcut, hbuffer, hoffset, hstart, Nat.zero_add, hbytes]

theorem good_start (hooks : Hooks) (found : Nat → UInt8) :
    (output hooks).Good ⟨resized found 256 [], 0⟩ := by
  have hlength : (⟨resized found 256 [], 0⟩ : PrintBuffer).length = 256 := length_resized ..
  refine ⟨?_, ?_⟩
  · rw [hlength]
    exact Nat.zero_lt_succ 255
  · rw [hlength]
    decide

/-- **Printing into memory.**  Whatever blocks there are to be had, and whatever was in them,
no access is outside the block; a block that is returned holds the text and its NUL, no more
and no less; and one is returned, where blocks of twice the text and four bytes (or of 256)
are to be had, if and only if an `int` counts the text and two bytes. -/
theorem print_in_memory {levels : Nat} {t : CJson} (h : Sound levels t)
    (hsize : t.printUnformatted.length + 1 < 4294967296) :
    print hooks t ≠ .error .fault ∧
      (∀ block, print hooks t = .ok block → block = t.printUnformatted ++ [0]) ∧
      (hooks.Grants (max 256 (2 * (t.printUnformatted.length + 2))) →
        ((∃ block, print hooks t = .ok block) ↔ t.printUnformatted.length + 2 ≤ intMax)) := by
  cases hfound : hooks.allocate 256 with
  | none =>
      have hnull : print hooks t = .error .null := by rw [print, hfound]
      rw [hnull]
      refine ⟨by simp, by simp, fun hgrants => ?_⟩
      have hsome := hgrants.1 256 (by omega)
      rw [hfound] at hsome
      cases hsome
  | some found =>
      have hinto : print hooks t = printInto hooks t ⟨resized found 256 [], 0⟩ := by
        rw [print, hfound]
      rw [hinto]
      rcases printInto_cases h hsize (good_start hooks found) rfl with
        ⟨hrefused, hnull⟩ | ⟨hlong, hnull⟩ | ⟨hfits, hblock⟩
      · rw [hnull]
        exact ⟨by simp, by simp, fun hgrants => absurd (hgrants.mono (by omega)) hrefused⟩
      · rw [hnull]
        exact ⟨by simp, by simp, fun _ => ⟨by simp, fun hfits => by omega⟩⟩
      · rw [hblock]
        refine ⟨by simp, ?_, fun _ => ⟨fun _ => hfits, fun _ => ⟨_, rfl⟩⟩⟩
        intro block heq
        cases heq
        rfl

/-- Blocks up to a kilobyte, with something in them. -/
def kilobyteHooks : Hooks where
  allocate size := if size ≤ 1024 then some fun i => UInt8.ofNat (7 * i + 1) else none
  reallocate _ size := if size ≤ 1024 then some fun i => UInt8.ofNat (7 * i + 1) else none

theorem kilobyteHooks_grants : kilobyteHooks.Grants 1024 :=
  ⟨fun size hsize => by simp [kilobyteHooks, hsize],
    fun old new hnew => by simp [kilobyteHooks, hnew]⟩

theorem sound_stageJson : Sound 3 stageJson := by
  refine .object (by decide) ?_
  intro m hm
  simp only [List.mem_cons, List.not_mem_nil, or_false] at hm
  rcases hm with rfl | rfl | rfl | rfl | rfl
  · exact .number _ (by decide)
  · exact .number _ (by decide)
  · exact .false _
  · exact .string _ (by decide)
  · refine .array ?_
    intro item hitem
    simp only [List.mem_cons, List.not_mem_nil, or_false] at hitem
    rcases hitem with rfl | rfl
    · exact .null _
    · exact .object (by simp) (by simp)

/-- Six stages are more than the first block holds. -/
theorem print_in_memory_stages :
    print kilobyteHooks (.array (List.replicate 6 stageJson)) =
      .ok ((CJson.array (List.replicate 6 stageJson)).printUnformatted ++ [0]) := by
  have hsound : Sound 4 (.array (List.replicate 6 stageJson)) := by
    refine .array fun item hitem => ?_
    obtain rfl := (List.mem_replicate.mp hitem).2
    exact sound_stageJson
  have hlength : (CJson.array (List.replicate 6 stageJson)).printUnformatted.length = 445 := by
    decide +kernel
  obtain ⟨-, htext, hreturns⟩ :=
    @print_in_memory kilobyteHooks _ _ hsound (by rw [hlength]; decide)
  obtain ⟨block, hblock⟩ := (hreturns (kilobyteHooks_grants.mono (by rw [hlength]; decide))).mpr (by
    rw [hlength]
    decide)
  rw [hblock, htext block hblock]

end CJson

end X50
