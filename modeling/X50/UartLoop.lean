/-
# `X50.UartLoop` — the loop of `uart_parse_msg`, with its indices

`uart_parse_msg` keeps two integers, where it stands in the buffer and how many
bytes are left, and moves both by `end`, which the parser sets, or not: on
`NO_HEADER` the value of an earlier turn is used again, or, in the first turn, one
that was never set.  `X50.EcbUart` has the loop on lists, where none of this can be
seen; `uartTurns` is the loop with its variables, and `uartParseLoop_turns` says
that the two do the same.

What the loop needs of a parser is `Recognises`:

    inside   it looks at nothing but the bytes it is given
    ends     LEN_SMALL leaves `end` within them, NO_HEADER unset, and every other
             status at one of the next positions

Both parsers of the program have it.  The turn that finds no header is the last one
and drops the rest, so what it subtracts does not matter.
-/
import X50.EcbScan
import X50.Gesture
import X50.Memory

namespace X50

open X50.Lib

/-! ## Where `ecb_uart_parse_msg` looks -/

/-- The header loop, for `n` turns from `i` on. -/
def ecbHeader : Nat → Nat → Probe UInt8 (Option Nat)
  | 0, _ => .done none
  | n + 1, i =>
      .look i fun a =>
        if a = 0xe6 then
          .look (i + 1) fun b => if b = 0xe6 then .done (some i) else ecbHeader n (i + 1)
        else ecbHeader n (i + 1)

/-- `ecb_uart_parse_msg`, from `index = i` on, up to the dispatch. -/
def ecbFrameRead (inLen index : Nat) : Probe UInt8 ReadEnd :=
  if inLen - index < ecbMsgMinLen then .done ⟨.lenSmall, some index⟩
  else
    (Probe.lookAll (index + 2) 3).bind fun _ =>
    .look (index + 5) fun hi =>
    .look (index + 6) fun lo =>
      if 512 < be16 hi lo then .done ⟨.lenErr, some (index + 1)⟩
      else
        let msgIndex := 7 + be16 hi lo
        if inLen < index + msgIndex + 2 + 2 then
          .look (inLen - 1) fun last =>
            if last = 0x6e then
              .look (inLen - 2) fun beforeLast =>
                if beforeLast = 0x6e then .done ⟨.lenErr, some (index + 1)⟩
                else .done ⟨.lenSmall, some index⟩
            else .done ⟨.lenSmall, some index⟩
        else
          .look (index + msgIndex + 2) fun t =>
            if t ≠ 0x6e then .done ⟨.tailerErr, some (index + msgIndex + 2 + 2)⟩
            else
              .look (index + msgIndex + 2 + 1) fun u =>
                if u ≠ 0x6e then .done ⟨.tailerErr, some (index + msgIndex + 2 + 2)⟩
                else
                  -- `CRC16_MAXIM` and `check_sum`
                  (Probe.lookAll (index + 2) (msgIndex - 2 + 2)).bind fun _ =>
                    .done ⟨.valid, some (index + msgIndex + 2 + 2)⟩

def ecbRead (inLen : Nat) : Probe UInt8 ReadEnd :=
  if inLen < 2 then .done ⟨.lenSmall, some 0⟩
  else
    (ecbHeader (inLen - 1) 0).bind fun header =>
      match header with
      | none => .done ⟨.noHeader, none⟩
      | some index => ecbFrameRead inLen index

/-! ## What the loop needs of a parser -/

/-- `*end` after a call that was given `n` bytes; what LEN_SMALL leaves is `left`. -/
def ReadEnd.Ends (left : Nat → Prop) (n : Nat) (r : ReadEnd) : Prop :=
  match r.status, r.stop with
  | .noHeader, none => True
  | .noHeader, some _ => False
  | .lenSmall, some stop => stop ≤ n ∧ left (n - stop)
  | _, some stop => 1 ≤ stop ∧ stop ≤ n
  | _, none => False

/-- `read` is where the parser `func` looks, and what it finds there. -/
structure Recognises {ε : Type} (func : List UInt8 → Int → ReadResult ε)
    (read : Nat → Probe UInt8 ReadEnd) (left : Nat → Prop) : Prop where
  status : ∀ input end₀,
    (func input end₀).status = ((read input.length).run (byteAt input)).status
  consumed : ∀ input end₀ stop, ((read input.length).run (byteAt input)).stop = some stop →
    (func input end₀).consumed = stop
  inside : ∀ n m, ∀ i ∈ (read n).looks m, i < n
  ends : ∀ n m, ((read n).run m).Ends left n

section

variable {m : Nat → UInt8} {n i j k : Nat}

theorem ecbHeader_looks (h : j ∈ (ecbHeader n i).looks m) : j < i + n + 1 := by
  induction n generalizing i with
  | zero => cases h
  | succ n ih =>
      simp only [ecbHeader, Probe.looks_look] at h
      rcases List.mem_cons.mp h with rfl | h
      · omega
      · split at h
        · simp only [Probe.looks_look] at h
          rcases List.mem_cons.mp h with rfl | h
          · omega
          · split at h
            · cases h
            · have hlt := ih h
              omega
        · have hlt := ih h
          omega

theorem ecbHeader_some (h : (ecbHeader n i).run m = some k) : k < i + n := by
  induction n generalizing i with
  | zero => cases h
  | succ n ih =>
      simp only [ecbHeader, Probe.run_look] at h
      have hrest : (ecbHeader n (i + 1)).run m = some k → k < i + (n + 1) := fun h => by
        have hlt := ih h
        omega
      split at h
      · simp only [Probe.run_look] at h
        split at h
        · obtain rfl := Option.some.inj h
          omega
        · exact hrest h
      · exact hrest h

/-- The header loop finds what `findHeader` finds. -/
theorem ecbHeader_run {l : List UInt8} (hm : ∀ k, k < l.length → m (i + k) = byteAt l k) :
    (ecbHeader (l.length - 1) i).run m = (findHeader l).map (i + ·) := by
  induction l using findHeader.induct generalizing i with
  | case1 a b rest hab =>
      have h0 : m i = a := hm 0 (by simp)
      have h1 : m (i + 1) = b := hm 1 (by simp)
      simp [ecbHeader, findHeader, h0, h1, hab]
  | case2 a b rest hab ih =>
      have h0 : m i = a := hm 0 (by simp)
      have h1 : m (i + 1) = b := hm 1 (by simp)
      have hrest := ih (i := i + 1) fun k hk => by
        have hk' := hm (k + 1) (by simpa using hk)
        rw [Nat.add_assoc, Nat.add_comm 1 k]
        exact hk'
      have hmap : (Option.map (fun x => x + 1) (findHeader (b :: rest))).map (i + ·) =
          (findHeader (b :: rest)).map (i + 1 + ·) := by
        rw [Option.map_map]
        refine congrArg (fun f => Option.map f _) (funext fun k => ?_)
        show i + (k + 1) = i + 1 + k
        omega
      rw [findHeader, if_neg hab, hmap, ← hrest]
      simp only [List.length_cons, Nat.add_sub_cancel, ecbHeader, Probe.run_look, h0]
      by_cases ha : a = 0xe6
      · have hb : b ≠ 0xe6 := fun hb => hab ⟨ha, hb⟩
        simp only [ha, if_true, Probe.run_look, h1, hb, if_false]
      · simp only [ha, if_false]
  | case3 l hl =>
      cases l with
      | nil => rfl
      | cons a l =>
          cases l with
          | nil => rfl
          | cons b rest => exact absurd rfl (hl a b rest)

theorem ecbFrameRead_looks (hk : k + 1 < n) (h : j ∈ (ecbFrameRead n k).looks m) : j < n := by
  unfold ecbFrameRead at h
  split at h
  · cases h
  · rename_i hlen
    simp only [Probe.looks_bind, Probe.looks_lookAll, List.mem_append, List.mem_map,
      List.mem_range, Probe.looks_look, List.mem_cons] at h
    simp only [ecbMsgMinLen] at hlen
    rcases h with ⟨d, hd, rfl⟩ | rfl | rfl | h
    · omega
    · omega
    · omega
    · split at h
      · cases h
      · split at h
        · simp only [Probe.looks_look, List.mem_cons] at h
          rcases h with rfl | h
          · omega
          · split at h
            · simp only [Probe.looks_look, List.mem_cons] at h
              rcases h with rfl | h
              · omega
              · split at h <;> cases h
            · cases h
        · rename_i hroom
          simp only [Probe.looks_look, List.mem_cons] at h
          rcases h with rfl | h
          · omega
          · split at h
            · cases h
            · simp only [Probe.looks_look, List.mem_cons] at h
              rcases h with rfl | h
              · omega
              · split at h
                · cases h
                · simp only [Probe.looks_bind, Probe.looks_lookAll, Probe.looks_done,
                    List.append_nil, List.mem_map, List.mem_range] at h
                  obtain ⟨d, hd, rfl⟩ := h
                  omega

theorem ecbFrameRead_ends (hk : k + 1 < n) :
    ((ecbFrameRead n k).run m).Ends (fun _ => True) n := by
  unfold ecbFrameRead
  split
  · exact ⟨by omega, trivial⟩
  · simp only [Probe.run_bind, Probe.run_look]
    split
    · exact ⟨by omega, by omega⟩
    · split
      · simp only [Probe.run_look]
        split
        · simp only [Probe.run_look]
          split
          · exact ⟨by omega, by omega⟩
          · exact ⟨by omega, trivial⟩
        · exact ⟨by omega, trivial⟩
      · simp only [Probe.run_look]
        split
        · exact ⟨by omega, by omega⟩
        · simp only [Probe.run_look]
          split
          · exact ⟨by omega, by omega⟩
          · simp only [Probe.run_bind, Probe.run_done]
            exact ⟨by omega, by omega⟩

/-- What is found is what the parser on lists says. -/
theorem ecbFrameRead_run (input : List UInt8) (index : Nat) :
    ((ecbFrameRead input.length index).run (byteAt input)).status =
        (ecbParseFrame input index).status ∧
      ((ecbFrameRead input.length index).run (byteAt input)).stop =
        some (ecbParseFrame input index).consumed.toNat ∧
      0 ≤ (ecbParseFrame input index).consumed := by
  unfold ecbFrameRead ecbParseFrame
  by_cases hlen : input.length - index < ecbMsgMinLen
  · simp only [if_pos hlen, Probe.run_done, Int.toNat_natCast]
    exact ⟨trivial, trivial, Int.natCast_nonneg _⟩
  · simp only [if_neg hlen, Probe.run_bind, Probe.run_look]
    split
    · exact ⟨rfl, rfl, Int.natCast_nonneg (index + 1)⟩
    · split
      · simp only [Probe.run_look]
        by_cases hlast : byteAt input (input.length - 1) = 0x6e
        · by_cases hbefore : byteAt input (input.length - 2) = 0x6e
          · simp only [hlast, hbefore, if_true, and_self, Probe.run_look, Probe.run_done]
            exact ⟨trivial, rfl, by omega⟩
          · simp only [hlast, hbefore, if_true, if_false, and_false, Probe.run_look,
              Probe.run_done]
            exact ⟨trivial, rfl, by omega⟩
        · simp only [hlast, if_false, false_and, Probe.run_done]
          exact ⟨trivial, rfl, by omega⟩
      · simp only [Probe.run_look]
        by_cases ht : byteAt input (index + (7 + be16 (byteAt input (index + 5))
            (byteAt input (index + 6))) + 2) = 0x6e
        · by_cases hu : byteAt input (index + (7 + be16 (byteAt input (index + 5))
              (byteAt input (index + 6))) + 2 + 1) = 0x6e
          · simp only [ht, hu, ne_eq, not_true_eq_false, or_self, if_false, Probe.run_look,
              Probe.run_bind, Probe.run_done]
            exact ⟨trivial, rfl, by omega⟩
          · simp only [ht, hu, ne_eq, not_true_eq_false, not_false_eq_true, or_true, if_true,
              if_false, Probe.run_look, Probe.run_done]
            exact ⟨trivial, rfl, by omega⟩
        · simp only [ht, ne_eq, not_false_eq_true, true_or, if_true, Probe.run_done]
          exact ⟨trivial, rfl, by omega⟩

theorem ecbRead_run (input : List UInt8) (end₀ : Int) :
    (ecbUartParseMsg input end₀).status = ((ecbRead input.length).run (byteAt input)).status ∧
      ∀ stop, ((ecbRead input.length).run (byteAt input)).stop = some stop →
        (ecbUartParseMsg input end₀).consumed = stop := by
  unfold ecbUartParseMsg ecbRead
  by_cases hlen : input.length < 2
  · simp only [if_pos hlen]
    refine ⟨rfl, fun stop h => ?_⟩
    obtain rfl := Option.some.inj h
    rfl
  · have hheader : (ecbHeader (input.length - 1) 0).run (byteAt input) = findHeader input := by
      rw [@ecbHeader_run (byteAt input) 0 input fun k _ => congrArg (byteAt input) (Nat.zero_add k)]
      simp
    simp only [if_neg hlen, Probe.run_bind, hheader]
    cases findHeader input with
    | none => exact ⟨rfl, fun stop h => by cases h⟩
    | some index =>
        obtain ⟨hstatus, hstop, hpos⟩ := ecbFrameRead_run input index
        refine ⟨hstatus.symm, fun stop h => ?_⟩
        obtain rfl := Option.some.inj (hstop.symm.trans h)
        exact (Int.toNat_of_nonneg hpos).symm

theorem ecb_recognises : Recognises ecbUartParseMsg ecbRead fun _ => True where
  status input end₀ := (ecbRead_run input end₀).1
  consumed input end₀ stop h := (ecbRead_run input end₀).2 stop h
  inside n m i hi := by
    unfold ecbRead at hi
    split at hi
    · cases hi
    · simp only [Probe.looks_bind, List.mem_append] at hi
      rcases hi with hi | hi
      · have hlt := ecbHeader_looks hi
        omega
      · split at hi
        · cases hi
        · rename_i index hindex
          have hlt := ecbHeader_some hindex
          exact ecbFrameRead_looks (by omega) hi
  ends n m := by
    unfold ecbRead
    split
    · exact ⟨Nat.zero_le n, trivial⟩
    · simp only [Probe.run_bind]
      split
      · trivial
      · rename_i index hindex
        have hlt := ecbHeader_some hindex
        exact ecbFrameRead_ends (by omega)

/-! ## Where `gesture_uart_parse_msg` looks -/

theorem gestureHeader_looks (h : j ∈ (gestureHeader n i).looks m) : j < i + n := by
  induction n generalizing i with
  | zero => cases h
  | succ n ih =>
      simp only [gestureHeader, Probe.looks_look] at h
      rcases List.mem_cons.mp h with rfl | h
      · omega
      · split at h
        · cases h
        · have hlt := ih h
          omega

theorem gestureHeader_some (h : (gestureHeader n i).run m = some k) : k < i + n := by
  induction n generalizing i with
  | zero => cases h
  | succ n ih =>
      simp only [gestureHeader, Probe.run_look] at h
      split at h
      · obtain rfl := Option.some.inj h
        omega
      · have hlt := ih h
        omega

theorem gestureFrameRead_looks (h : j ∈ (gestureFrameRead n k).looks m) : j < n := by
  unfold gestureFrameRead at h
  split at h
  · cases h
  · simp only [Probe.looks_look, Probe.looks_bind, Probe.looks_lookAll, List.mem_cons,
      List.mem_append, List.mem_map, List.mem_range] at h
    rcases h with rfl | rfl | rfl | ⟨d, hd, rfl⟩ | h
    · omega
    · omega
    · omega
    · omega
    · split at h
      · cases h
      · split at h
        · simp only [Probe.looks_look, Probe.looks_done, List.mem_cons, List.not_mem_nil,
            or_false] at h
          rcases h with rfl | rfl
          · omega
          · omega
        · cases h

theorem gestureFrameRead_ends (hk : k < n) :
    ((gestureFrameRead n k).run m).1.Ends (· < 10) n := by
  unfold gestureFrameRead
  split
  · exact ⟨by omega, by omega⟩
  · simp only [Probe.run_look, Probe.run_bind]
    split
    · exact ⟨by omega, by omega⟩
    · split
      · exact ⟨by omega, by omega⟩
      · exact ⟨by omega, by omega⟩

/-- The recognising part of `gesture_uart_parse_msg`. -/
def gestureEnd (inLen : Nat) : Probe UInt8 ReadEnd :=
  (gestureRead inLen).bind fun out => .done out.1

theorem gesture_recognises : Recognises gestureUartParseMsg gestureEnd (· < 10) where
  status input end₀ := by simp [gestureUartParseMsg, gestureEnd]
  consumed input end₀ stop h := by
    simp only [gestureEnd, Probe.run_bind, Probe.run_done] at h
    simp only [gestureUartParseMsg, h]
  inside n m i hi := by
    simp only [gestureEnd, Probe.looks_bind, Probe.looks_done, List.append_nil] at hi
    unfold gestureRead at hi
    split at hi
    · cases hi
    · simp only [Probe.looks_bind, List.mem_append] at hi
      rcases hi with hi | hi
      · have hlt := gestureHeader_looks hi
        omega
      · split at hi
        · cases hi
        · exact gestureFrameRead_looks hi
  ends n m := by
    simp only [gestureEnd, Probe.run_bind, Probe.run_done]
    unfold gestureRead
    split
    · exact ⟨Nat.zero_le n, by omega⟩
    · simp only [Probe.run_bind]
      split
      · trivial
      · rename_i index hindex
        have hlt := gestureHeader_some hindex
        exact gestureFrameRead_ends (by omega)

end

/-! ## The loop -/

/-- One turn of the loop: its variables before the call, and the call's outcome. -/
structure UartTurn where
  index : Int
  msgLen : Int
  status : ReadStatus
  stop : Int

/-- What the loop has done when it breaks, with its variables then. -/
structure UartRun (ε : Type) where
  turns : List UartTurn
  events : List ε
  index : Int
  msgLen : Int

/-- The loop of `uart_parse_msg`, at most `fuel` turns of it; `end₀` is what `end`
holds. -/
def uartTurns {ε : Type} (func : List UInt8 → Int → ReadResult ε) (buf : Nat → UInt8) :
    Nat → Int → Int → Int → Option (UartRun ε)
  | 0, _, _, _ => none
  | fuel + 1, index, msgLen, end₀ =>
      let r := func (memBytes buf index.toNat msgLen.toNat) end₀
      let turn : UartTurn := ⟨index, msgLen, r.status, r.consumed⟩
      let msgLen := msgLen - r.consumed
      let index := index + r.consumed
      match r.status with
      | .lenSmall => some ⟨[turn], r.events, index, msgLen⟩
      | .noHeader => some ⟨[turn], r.events, index, 0⟩
      | _ =>
          if msgLen ≤ 0 then some ⟨[turn], r.events, index, msgLen⟩
          else
            (uartTurns func buf fuel index msgLen r.consumed).map fun run =>
              { run with turns := turn :: run.turns, events := r.events ++ run.events }

/-- What a call of `uart_parse_msg` leaves. -/
structure UartParsed (ε : Type) where
  turns : List UartTurn
  events : List ε
  buf : Nat → UInt8
  inLen : Int

/-- `memmove(in, &in[index], len)` -/
def memmoveFront (buf : Nat → UInt8) (index len : Nat) : Nat → UInt8 := fun k =>
  if k < len then buf (index + k) else buf k

/-- `uart_parse_msg(in, in_len, func)`; `end₀` is what its uninitialised `end` holds. -/
def uartParse {ε : Type} (func : List UInt8 → Int → ReadResult ε) (buf : Nat → UInt8)
    (inLen : Nat) (end₀ : Int) : Option (UartParsed ε) :=
  (uartTurns func buf (inLen + 1) 0 inLen end₀).map fun run =>
    if run.msgLen ≤ 0 then ⟨run.turns, run.events, buf, 0⟩
    else ⟨run.turns, run.events, memmoveFront buf run.index.toNat run.msgLen.toNat, run.msgLen⟩

section

variable {ε : Type} {func : List UInt8 → Int → ReadResult ε} {read : Nat → Probe UInt8 ReadEnd}
  {left : Nat → Prop} {buf : Nat → UInt8}

/-- One call, by its three ways out. -/
theorem Recognises.call (hrec : Recognises func read left) (input : List UInt8) (end₀ : Int) :
    (func input end₀).status = .noHeader ∨
    ((func input end₀).status = .lenSmall ∧ ∃ stop : Nat, (func input end₀).consumed = stop ∧
      stop ≤ input.length ∧ left (input.length - stop)) ∨
    ((func input end₀).status ≠ .noHeader ∧ (func input end₀).status ≠ .lenSmall ∧
      ∃ stop : Nat, (func input end₀).consumed = stop ∧ 1 ≤ stop ∧ stop ≤ input.length) := by
  have hends := hrec.ends input.length (byteAt input)
  have hconsumed := hrec.consumed input end₀
  rw [hrec.status input end₀]
  generalize (read input.length).run (byteAt input) = r at hends hconsumed
  obtain ⟨status, stop⟩ := r
  cases stop with
  | none =>
      cases status with
      | noHeader => exact Or.inl rfl
      | valid => exact hends.elim
      | lenSmall => exact hends.elim
      | lenErr => exact hends.elim
      | checkErr => exact hends.elim
      | tailerErr => exact hends.elim
  | some stop =>
      have hstop := hconsumed stop rfl
      have hgoes : ∀ status, status ≠ .noHeader → status ≠ .lenSmall →
          (⟨status, some stop⟩ : ReadEnd).Ends left input.length →
          1 ≤ stop ∧ stop ≤ input.length := by
        intro status hno hsmall h
        cases status with
        | noHeader => exact absurd rfl hno
        | lenSmall => exact absurd rfl hsmall
        | valid => exact h
        | lenErr => exact h
        | checkErr => exact h
        | tailerErr => exact h
      by_cases hno : status = .noHeader
      · exact Or.inl hno
      · by_cases hsmall : status = .lenSmall
        · subst hsmall
          exact Or.inr (Or.inl ⟨rfl, stop, hstop, hends⟩)
        · exact Or.inr (Or.inr ⟨hno, hsmall, stop, hstop, hgoes status hno hsmall hends⟩)

/-- The turn after which the loop goes on, of the loop with its variables. -/
theorem uartTurns_goes {fuel index n : Nat} {end₀ : Int}
    (hno : (func (memBytes buf index n) end₀).status ≠ .noHeader)
    (hsmall : (func (memBytes buf index n) end₀).status ≠ .lenSmall) :
    uartTurns func buf (fuel + 1) index n end₀ =
      let r := func (memBytes buf index n) end₀
      let turn : UartTurn := ⟨index, n, r.status, r.consumed⟩
      if n - r.consumed ≤ 0 then some ⟨[turn], r.events, index + r.consumed, n - r.consumed⟩
      else
        (uartTurns func buf fuel (index + r.consumed) (n - r.consumed) r.consumed).map
          fun run => { run with turns := turn :: run.turns, events := r.events ++ run.events } := by
  simp only [uartTurns, Int.toNat_natCast]

/-- The same turn of the loop on lists. -/
theorem uartParseLoop_goes {fuel : Nat} {input : List UInt8} {end₀ : Int}
    (hno : (func input end₀).status ≠ .noHeader) (hsmall : (func input end₀).status ≠ .lenSmall) :
    uartParseLoop func (fuel + 1) input end₀ =
      let r := func input end₀
      let rest := input.drop r.consumed.toNat
      if rest.length = 0 then some (r.events, [])
      else (uartParseLoop func fuel rest r.consumed).map fun out => (r.events ++ out.1, out.2) := by
  rw [uartParseLoop]
  split
  · exact absurd ‹_› hsmall
  · exact absurd ‹_› hno
  · rfl

/-- The turns are calls of the parser, each on the bytes behind those that the one
before it took, up to one that finds no header, or too few bytes, or takes all;
`events` is what they have done, and `rest` bytes are left. -/
inductive UartCalls (func : List UInt8 → Int → ReadResult ε) (buf : Nat → UInt8) :
    Nat → Nat → Int → List UartTurn → List ε → Nat → Prop
  | noHeader {index n : Nat} {end₀ : Int} {r : ReadResult ε} :
      func (memBytes buf index n) end₀ = r → r.status = .noHeader →
      UartCalls func buf index n end₀ [⟨index, n, r.status, r.consumed⟩] r.events 0
  | lenSmall {index n stop : Nat} {end₀ : Int} {r : ReadResult ε} :
      func (memBytes buf index n) end₀ = r → r.status = .lenSmall → r.consumed = stop →
      UartCalls func buf index n end₀ [⟨index, n, r.status, stop⟩] r.events (n - stop)
  | all {index n : Nat} {end₀ : Int} {r : ReadResult ε} :
      func (memBytes buf index n) end₀ = r → r.status ≠ .noHeader → r.status ≠ .lenSmall →
      r.consumed = n → UartCalls func buf index n end₀ [⟨index, n, r.status, n⟩] r.events 0
  | next {index n stop rest : Nat} {end₀ : Int} {r : ReadResult ε} {turns : List UartTurn}
      {events : List ε} :
      func (memBytes buf index n) end₀ = r → r.status ≠ .noHeader → r.status ≠ .lenSmall →
      r.consumed = stop → stop < n →
      UartCalls func buf (index + stop) (n - stop) stop turns events rest →
      UartCalls func buf index n end₀ (⟨index, n, r.status, stop⟩ :: turns) (r.events ++ events)
        rest

theorem uartTurns_calls (hrec : Recognises func read left) {fuel index n : Nat} {end₀ : Int}
    {run : UartRun ε} (h : uartTurns func buf fuel index n end₀ = some run) :
    UartCalls func buf index n end₀ run.turns run.events run.msgLen.toNat := by
  induction fuel generalizing index n end₀ run with
  | zero => cases h
  | succ fuel ih =>
      rcases hrec.call (memBytes buf index n) end₀ with hno | ⟨hsmall, stop, hstop, hle, -⟩ |
        ⟨hno, hsmall, stop, hstop, -, hle⟩
      · simp only [uartTurns, Int.toNat_natCast, hno, Option.some.injEq] at h
        subst h
        have hcall := @UartCalls.noHeader ε func buf index n end₀ _ rfl hno
        rw [hno] at hcall
        exact hcall
      · rw [length_memBytes] at hle
        simp only [uartTurns, Int.toNat_natCast, hsmall, hstop, Option.some.injEq] at h
        subst h
        have hcall := @UartCalls.lenSmall ε func buf index n stop end₀ _ rfl hsmall hstop
        rw [hsmall] at hcall
        have hrest : ((n : Int) - stop).toNat = n - stop := by omega
        exact hrest ▸ hcall
      · rw [length_memBytes] at hle
        simp only [uartTurns_goes hno hsmall, hstop] at h
        split at h
        · obtain rfl := Option.some.inj h
          obtain rfl : stop = n := by omega
          have hrest : ((stop : Int) - stop).toNat = 0 := by omega
          have hcall := @UartCalls.all ε func buf index stop end₀ _ rfl hno hsmall hstop
          exact hrest ▸ hcall
        · next hmore =>
          obtain ⟨rest, hrun, rfl⟩ := Option.map_eq_some_iff.mp h
          have hindex : (index : Int) + stop = (index + stop : Nat) := by omega
          have hlen : (n : Int) - stop = (n - stop : Nat) := by omega
          rw [hindex, hlen] at hrun
          exact .next rfl hno hsmall hstop (by omega) (ih hrun)

/-- What holds of the loop when it was started with `n` bytes at `index`. -/
structure UartRun.Good (left : Nat → Prop) (index n : Nat) (run : UartRun ε) : Prop where
  some_turn : run.turns ≠ []
  /-- a turn has the rest of the bytes before it -/
  turns : ∀ t ∈ run.turns, ∃ i k : Nat, t.index = i ∧ t.msgLen = k ∧ i + k = index + n
  /-- a turn that is not the last one takes some of them -/
  progress : ∀ t ∈ run.turns.dropLast, 1 ≤ t.stop ∧ t.stop ≤ t.msgLen
  /-- and so does the code behind the loop -/
  rest : run.msgLen ≤ 0 ∨
    ∃ i k : Nat, run.index = i ∧ run.msgLen = k ∧ i + k = index + n ∧ left k

/-- **The loop terminates.**  Every turn but the last takes a byte. -/
theorem uartTurns_good (hrec : Recognises func read left) {fuel index n : Nat} (end₀ : Int)
    (hfuel : n < fuel) :
    ∃ run, uartTurns func buf fuel index n end₀ = some run ∧ run.Good left index n := by
  induction fuel generalizing index n end₀ with
  | zero => omega
  | succ fuel ih =>
      have hturn : ∃ i k : Nat, (index : Int) = i ∧ (n : Int) = k ∧ i + k = index + n :=
        ⟨index, n, rfl, rfl, rfl⟩
      rcases hrec.call (memBytes buf index n) end₀ with hno | ⟨hsmall, stop, hstop, hle, hleft⟩ |
        ⟨hno, hsmall, stop, hstop, hpos, hle⟩
      · simp only [uartTurns, Int.toNat_natCast, hno]
        refine ⟨_, rfl, List.cons_ne_nil _ _, fun t ht => ?_, fun t ht => absurd ht List.not_mem_nil,
          Or.inl (Int.le_refl 0)⟩
        obtain rfl := List.mem_singleton.mp ht
        exact hturn
      · simp only [uartTurns, Int.toNat_natCast, hsmall]
        rw [length_memBytes] at hle hleft
        refine ⟨_, rfl, List.cons_ne_nil _ _, fun t ht => ?_, fun t ht => absurd ht List.not_mem_nil,
          Or.inr ⟨index + stop, n - stop, ?_, ?_, by omega, hleft⟩⟩
        · obtain rfl := List.mem_singleton.mp ht
          exact hturn
        · simp only [hstop, Int.natCast_add]
        · simp only [hstop]
          omega
      · rw [length_memBytes] at hle
        simp only [uartTurns_goes hno hsmall, hstop]
        split
        · refine ⟨_, rfl, List.cons_ne_nil _ _, fun t ht => ?_,
            fun t ht => absurd ht List.not_mem_nil, Or.inl ‹_›⟩
          obtain rfl := List.mem_singleton.mp ht
          exact hturn
        · -- the loop goes on with `n - stop` bytes at `index + stop`
          have hindex : (index : Int) + stop = (index + stop : Nat) := by omega
          have hlen : (n : Int) - stop = (n - stop : Nat) := by omega
          rw [hindex, hlen]
          obtain ⟨run, hrun, hgood⟩ := @ih (index + stop) (n - stop) stop (by omega)
          have hsum : index + stop + (n - stop) = index + n := by omega
          rw [hrun]
          refine ⟨_, rfl, List.cons_ne_nil _ _, fun t ht => ?_, fun t ht => ?_, ?_⟩
          · rcases List.mem_cons.mp ht with rfl | ht
            · exact hturn
            · exact hsum ▸ hgood.turns t ht
          · rw [List.dropLast_cons_of_ne_nil hgood.some_turn] at ht
            rcases List.mem_cons.mp ht with rfl | ht
            · have hprogress : (1 : Int) ≤ stop ∧ (stop : Int) ≤ n := by omega
              exact hprogress
            · exact hgood.progress t ht
          · exact hsum ▸ hgood.rest

/-- The loop on lists is the loop with its variables. -/
theorem uartParseLoop_turns (hrec : Recognises func read left) {fuel index n : Nat} (end₀ : Int)
    (hfuel : n < fuel) :
    uartParseLoop func fuel (memBytes buf index n) end₀ =
      (uartTurns func buf fuel index n end₀).map fun run =>
        (run.events, memBytes buf run.index.toNat run.msgLen.toNat) := by
  induction fuel generalizing index n end₀ with
  | zero => omega
  | succ fuel ih =>
      rcases hrec.call (memBytes buf index n) end₀ with hno | ⟨hsmall, stop, hstop, hle, -⟩ |
        ⟨hno, hsmall, stop, hstop, hpos, hle⟩
      · simp only [uartParseLoop, uartTurns, Int.toNat_natCast, hno]
        rfl
      · rw [length_memBytes] at hle
        simp only [uartParseLoop, uartTurns, Int.toNat_natCast, hsmall, hstop, drop_memBytes]
        have hindex : ((index : Int) + stop).toNat = index + stop := by omega
        have hlen : ((n : Int) - stop).toNat = n - stop := by omega
        simp only [Option.map_some, hindex, hlen]
      · rw [length_memBytes] at hle
        simp only [uartParseLoop_goes hno hsmall, uartTurns_goes hno hsmall, Int.toNat_natCast,
          hstop, drop_memBytes, length_memBytes]
        have hindex : (index : Int) + stop = (index + stop : Nat) := by omega
        have hlen : (n : Int) - stop = (n - stop : Nat) := by omega
        rw [hindex, hlen]
        by_cases hend : n - stop = 0
        · have hdone : ((n - stop : Nat) : Int) ≤ 0 := by omega
          rw [if_pos hend, if_pos hdone, hend]
          rfl
        · have hgoes : ¬ ((n - stop : Nat) : Int) ≤ 0 := by omega
          rw [if_neg hend, if_neg hgoes, @ih (index + stop) (n - stop) stop (by omega),
            Option.map_map, Option.map_map]
          rfl

/-! ## The call -/

/-- What is said of a call that was given `n` bytes. -/
structure UartKept (read : Nat → Probe UInt8 ReadEnd) (buf : Nat → UInt8) (n : Nat)
    (out : UartParsed ε) : Prop where
  /-- the parser looks at these bytes only -/
  inside : ∀ t ∈ out.turns, ∀ i ∈ (read t.msgLen.toNat).looks (memFrom buf t.index.toNat),
    0 ≤ t.index + i ∧ t.index + i < n
  /-- a turn that is not the last one takes at least one byte, and no more than there are -/
  progress : ∀ t ∈ out.turns.dropLast, 1 ≤ t.stop ∧ t.stop ≤ t.msgLen
  inLen : 0 ≤ out.inLen ∧ out.inLen ≤ n
  /-- what stays are the last bytes, moved to the front -/
  suffix : ∀ k : Nat, (k : Int) < out.inLen → out.buf k = buf (n - out.inLen.toNat + k)

theorem uartParse_kept (hrec : Recognises func read left) (buf : Nat → UInt8) (n : Nat)
    (end₀ : Int) :
    ∃ out, uartParse func buf n end₀ = some out ∧ UartKept read buf n out ∧
      UartCalls func buf 0 n end₀ out.turns out.events out.inLen.toNat ∧
      (out.inLen = 0 ∨ left out.inLen.toNat) := by
  obtain ⟨run, hrun, hgood⟩ :=
    @uartTurns_good _ _ _ _ buf hrec (n + 1) 0 n end₀ (Nat.lt_succ_self n)
  have hcalls : UartCalls func buf 0 n end₀ run.turns run.events run.msgLen.toNat :=
    uartTurns_calls hrec hrun
  have hinside : ∀ t ∈ run.turns,
      ∀ i ∈ (read t.msgLen.toNat).looks (memFrom buf t.index.toNat),
      0 ≤ t.index + i ∧ t.index + i < n := by
    intro t ht i hi
    obtain ⟨index, k, hindex, hk, hsum⟩ := hgood.turns t ht
    have hlt := hrec.inside _ _ i hi
    rw [hk, Int.toNat_natCast] at hlt
    omega
  have hparse : uartParse func buf n end₀ = some (if run.msgLen ≤ 0
      then ⟨run.turns, run.events, buf, 0⟩
      else ⟨run.turns, run.events, memmoveFront buf run.index.toNat run.msgLen.toNat,
        run.msgLen⟩) := congrArg (Option.map _) hrun
  refine ⟨_, hparse, ?_⟩
  by_cases hend : run.msgLen ≤ 0
  · rw [if_pos hend]
    refine ⟨⟨hinside, hgood.progress, ⟨Int.le_refl 0, Int.natCast_nonneg n⟩, fun k hk => ?_⟩,
      ?_, Or.inl rfl⟩
    · have hk : (k : Int) < 0 := hk
      omega
    · have hzero : run.msgLen.toNat = 0 := by omega
      rw [hzero] at hcalls
      exact hcalls
  · rw [if_neg hend]
    obtain ⟨index, k, hindex, hk, hsum, hleft⟩ := hgood.rest.resolve_left hend
    refine ⟨⟨hinside, hgood.progress, ?_, fun d hd => ?_⟩, hcalls, Or.inr ?_⟩
    · show 0 ≤ run.msgLen ∧ run.msgLen ≤ n
      omega
    · have hd : (d : Int) < run.msgLen := hd
      show memmoveFront buf run.index.toNat run.msgLen.toNat d = buf (n - run.msgLen.toNat + d)
      rw [memmoveFront, if_pos (by omega)]
      refine congrArg buf ?_
      omega
    · show left run.msgLen.toNat
      rw [hk, Int.toNat_natCast]
      exact hleft

end

/-- **`uart_parse_msg` terminates and keeps a suffix**, for any contents and length of
the buffer and any first value of `end`, with both parsers; the parser of the gesture
board leaves less than one frame. -/
theorem uart_parse_keeps_suffix (buf : Nat → UInt8) (n : Nat) (end₀ : Int) :
    (∃ out, uartParse ecbUartParseMsg buf n end₀ = some out ∧ UartKept ecbRead buf n out ∧
      UartCalls ecbUartParseMsg buf 0 n end₀ out.turns out.events out.inLen.toNat) ∧
    ∃ out, uartParse gestureUartParseMsg buf n end₀ = some out ∧
      UartKept gestureEnd buf n out ∧
      UartCalls gestureUartParseMsg buf 0 n end₀ out.turns out.events out.inLen.toNat ∧
      out.inLen < 10 := by
  obtain ⟨ecb, hecb, hecbKept, hecbCalls, -⟩ := uartParse_kept ecb_recognises buf n end₀
  obtain ⟨gesture, hgesture, hkept, hcalls, hleft⟩ := uartParse_kept gesture_recognises buf n end₀
  refine ⟨⟨ecb, hecb, hecbKept, hecbCalls⟩, gesture, hgesture, hkept, hcalls, ?_⟩
  rcases hleft with hzero | hlt
  · omega
  · omega

end X50
