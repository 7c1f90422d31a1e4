/-
# `X50.GestureStream` — the gesture board, byte by byte

`gesture_recv_cb` appends what `read` delivers to a buffer of 256 bytes and lets
`uart_parse_msg` take the frames out with `gesture_uart_parse_msg`.

All that parser needs of a frame is in the ten bytes from the first `0xaa` on.  So it
never guesses: a verdict stands whatever bytes follow (`gesture_causal`), where that
of the other link depends on how the reads cut the stream (`X50.EcbLink`).

`gesture_stream`: over any bytes and any cut of them into reads, the board is
understood as if all its bytes had come at once, at most nine bytes are kept, and
there is always room for 247 more.
-/
import X50.Gesture
import X50.EcbScan
import X50.UartLoop
import X50.Lib.Causal

namespace X50

open X50.Lib

/-! ## The parser, as a scanner -/

/-- What `gesture_uart_parse_msg` makes of the ten bytes `w`: nothing if the check
sum is wrong. -/
def gestureFrames (w : Nat → UInt8) : Option (List GestureFrame) :=
  if msgVerify ((List.range 8).map w) ≠ UInt16.ofNat (be16 (w 8) (w 9)) then none
  else if 0 < w 2 then some [⟨w 4, w 5⟩]
  else some []

theorem gestureFrames_congr {w w' : Nat → UInt8} (h : ∀ k, k < 10 → w k = w' k) :
    gestureFrames w = gestureFrames w' := by
  have hmap : (List.range 8).map w = (List.range 8).map w' := by
    refine List.map_congr_left ?_
    intro k hk
    have hlt := List.mem_range.mp hk
    exact h k (by omega)
  simp only [gestureFrames, hmap, h 8 (by omega), h 9 (by omega), h 2 (by omega),
    h 4 (by omega), h 5 (by omega)]

/-- The first `0xaa`. -/
def gestureIndex (l : List UInt8) : Option Nat := l.findIdx? (· == 0xaa)

/-- The verdict about a frame whose header is at `index`. -/
def gestureVerdict (l : List UInt8) (index : Nat) : Verdict (List GestureFrame) :=
  if l.length < index + 10 then .wait index
  else (gestureFrames fun k => byteAt l (index + k)).elim (.reject (index + 10))
    (.accept (index + 10))

/-- `gesture_uart_parse_msg`, as a scanner. -/
def gestureScan (l : List UInt8) : Verdict (List GestureFrame) :=
  if l = [] then .wait 0 else (gestureIndex l).elim .flush (gestureVerdict l)

theorem gestureIndex_lt {l : List UInt8} {index : Nat} (h : gestureIndex l = some index) :
    index < l.length :=
  (List.findIdx?_eq_some_iff_findIdx_eq.mp h).1

theorem gestureScan_index {l : List UInt8} {index : Nat} (h : gestureIndex l = some index) :
    gestureScan l = gestureVerdict l index := by
  have hne : l ≠ [] := List.length_pos_iff.mp (Nat.zero_lt_of_lt (gestureIndex_lt h))
  rw [gestureScan, if_neg hne, h, Option.elim_some]

theorem gestureScan_none {l : List UInt8} (hne : l ≠ []) (h : gestureIndex l = none) :
    gestureScan l = .flush := by
  rw [gestureScan, if_neg hne, h, Option.elim_none]

/-- Everything the parser can say. -/
theorem gestureScan_cases (l : List UInt8) :
    (l = [] ∧ gestureScan l = .wait 0) ∨ (gestureIndex l = none ∧ gestureScan l = .flush) ∨
    ∃ index, gestureIndex l = some index ∧
      (l.length < index + 10 ∧ gestureScan l = .wait index ∨
      index + 10 ≤ l.length ∧
        ((gestureFrames fun k => byteAt l (index + k)) = none ∧
            gestureScan l = .reject (index + 10) ∨
          ∃ m, (gestureFrames fun k => byteAt l (index + k)) = some m ∧
            gestureScan l = .accept (index + 10) m)) := by
  by_cases hnil : l = []
  · exact Or.inl ⟨hnil, by rw [gestureScan, if_pos hnil]⟩
  · right
    cases hindex : gestureIndex l with
    | none => exact Or.inl ⟨rfl, gestureScan_none hnil hindex⟩
    | some index =>
        refine Or.inr ⟨index, rfl, ?_⟩
        rw [gestureScan_index hindex, gestureVerdict]
        by_cases hlen : l.length < index + 10
        · exact Or.inl ⟨hlen, by rw [if_pos hlen]⟩
        · refine Or.inr ⟨Nat.not_lt.mp hlen, ?_⟩
          rw [if_neg hlen]
          cases hframes : gestureFrames fun k => byteAt l (index + k) with
          | none => exact Or.inl ⟨rfl, rfl⟩
          | some m => exact Or.inr ⟨m, rfl, rfl⟩

def gestureScanner : Scanner UInt8 (List GestureFrame) where
  scan := gestureScan
  reject_pos h := by
    rcases gestureScan_cases _ with ⟨-, hs⟩ | ⟨-, hs⟩ | ⟨index, -, ⟨-, hs⟩ | ⟨hle, ⟨-, hs⟩ | ⟨m, -, hs⟩⟩⟩
    · cases hs.symm.trans h
    · cases hs.symm.trans h
    · cases hs.symm.trans h
    · injection hs.symm.trans h with hn
      omega
    · cases hs.symm.trans h
  accept_pos h := by
    rcases gestureScan_cases _ with ⟨-, hs⟩ | ⟨-, hs⟩ | ⟨index, -, ⟨-, hs⟩ | ⟨hle, ⟨-, hs⟩ | ⟨m, -, hs⟩⟩⟩
    · cases hs.symm.trans h
    · cases hs.symm.trans h
    · cases hs.symm.trans h
    · cases hs.symm.trans h
    · injection hs.symm.trans h with hn
      omega

/-! ## It does not guess -/

theorem gestureIndex_append {l : List UInt8} {index : Nat} (h : gestureIndex l = some index)
    (r : List UInt8) : gestureIndex (l ++ r) = some index := by
  rw [gestureIndex, List.findIdx?_append]
  rw [gestureIndex] at h
  rw [h]
  rfl

/-- A frame whose bytes are there is judged by them. -/
theorem gestureScan_append {l : List UInt8} {index : Nat} (h : gestureIndex l = some index)
    (hlen : index + 10 ≤ l.length) (r : List UInt8) : gestureScan (l ++ r) = gestureScan l := by
  have hlen' : index + 10 ≤ (l ++ r).length := by
    rw [List.length_append]
    omega
  have hframes : (gestureFrames fun k => byteAt (l ++ r) (index + k)) =
      gestureFrames fun k => byteAt l (index + k) := by
    refine gestureFrames_congr ?_
    intro k hk
    exact byteAt_append_left (by omega) r
  rw [gestureScan_index (gestureIndex_append h r), gestureScan_index h, gestureVerdict,
    gestureVerdict, if_neg (Nat.not_lt.mpr hlen'), if_neg (Nat.not_lt.mpr hlen), hframes]

/-- Bytes without a header are of no use. -/
theorem gestureDrain_noise {noise : List UInt8} (h : gestureIndex noise = none)
    (l : List UInt8) : gestureScanner.drain (noise ++ l) = gestureScanner.drain l := by
  have hindex : gestureIndex (noise ++ l) = (gestureIndex l).map (· + noise.length) := by
    rw [gestureIndex, List.findIdx?_append]
    rw [gestureIndex] at h
    rw [h]
    rfl
  cases hl : gestureIndex l with
  | none =>
      rw [hl] at hindex
      by_cases hnil : noise ++ l = []
      · obtain ⟨rfl, rfl⟩ := List.append_eq_nil_iff.mp hnil
        rfl
      · rw [Scanner.drain_flush (S := gestureScanner) (gestureScan_none hnil hindex)]
        by_cases hl' : l = []
        · rw [hl', Scanner.drain_nil]
        · rw [Scanner.drain_flush (S := gestureScanner) (gestureScan_none hl' hl)]
  | some index =>
      have hindex : gestureIndex (noise ++ l) = some (index + noise.length) := by
        rw [hindex, hl]
        rfl
      have hshift : ∀ k, (noise ++ l).drop (index + noise.length + k) = l.drop (index + k) := by
        intro k
        rw [show index + noise.length + k = noise.length + (index + k) by omega,
          List.drop_length_add_append]
      have hscan := gestureScan_index hindex
      have hscan' := gestureScan_index hl
      have hframes : (gestureFrames fun k => byteAt (noise ++ l) (index + noise.length + k)) =
          gestureFrames fun k => byteAt l (index + k) := by
        refine gestureFrames_congr ?_
        intro k _
        rw [show index + noise.length + k = noise.length + (index + k) by omega,
          byteAt_append_right]
      rw [gestureVerdict, hframes] at hscan
      rw [gestureVerdict] at hscan'
      by_cases hlen : l.length < index + 10
      · rw [if_pos (by rw [List.length_append]; omega)] at hscan
        rw [if_pos hlen] at hscan'
        rw [Scanner.drain_wait (S := gestureScanner) hscan,
          Scanner.drain_wait (S := gestureScanner) hscan']
        exact congrArg _ (hshift 0)
      · rw [if_neg (by rw [List.length_append]; omega)] at hscan
        rw [if_neg hlen] at hscan'
        cases hm : gestureFrames fun k => byteAt l (index + k) with
        | none =>
            rw [hm, Option.elim_none] at hscan hscan'
            rw [Scanner.drain_reject (S := gestureScanner) hscan,
              Scanner.drain_reject (S := gestureScanner) hscan', hshift]
        | some m =>
            rw [hm, Option.elim_some] at hscan hscan'
            rw [Scanner.drain_accept (S := gestureScanner) hscan,
              Scanner.drain_accept (S := gestureScanner) hscan', hshift]

/-- Before the first header there is none. -/
theorem gestureIndex_take {l : List UInt8} {index : Nat} (h : gestureIndex l = some index) :
    gestureIndex (l.take index) = none := by
  obtain ⟨hlt, -, hbefore⟩ := List.findIdx?_eq_some_iff_getElem.mp h
  refine List.findIdx?_eq_none_iff.mpr ?_
  intro b hb
  obtain ⟨k, hk, rfl⟩ := List.getElem_of_mem hb
  rw [List.length_take] at hk
  rw [List.getElem_take]
  exact Bool.eq_false_iff.mpr (hbefore k (by omega))

/-- **The parser of the gesture board never guesses.** -/
theorem gesture_causal : gestureScanner.Causal where
  accept {l n m} h r := by
    rcases gestureScan_cases l with ⟨-, hs⟩ | ⟨-, hs⟩ | ⟨index, hi, ⟨-, hs⟩ | ⟨hle, -⟩⟩
    · cases hs.symm.trans h
    · cases hs.symm.trans h
    · cases hs.symm.trans h
    · exact (gestureScan_append hi hle r).trans h
  reject {l n} h r := by
    rcases gestureScan_cases l with ⟨-, hs⟩ | ⟨-, hs⟩ | ⟨index, hi, ⟨-, hs⟩ | ⟨hle, -⟩⟩
    · cases hs.symm.trans h
    · cases hs.symm.trans h
    · cases hs.symm.trans h
    · exact (gestureScan_append hi hle r).trans h
  wait {l k} h r := by
    rcases gestureScan_cases l with ⟨rfl, hs⟩ | ⟨-, hs⟩ | ⟨index, hi, ⟨-, hs⟩ | ⟨-, ⟨-, hs⟩ | ⟨m, -, hs⟩⟩⟩
    · rw [List.drop_nil]
    · cases hs.symm.trans h
    · injection hs.symm.trans h with hk
      subst hk
      have hsplit : l ++ r = l.take index ++ (l.drop index ++ r) := by
        rw [← List.append_assoc, List.take_append_drop]
      rw [hsplit]
      exact gestureDrain_noise (gestureIndex_take hi) _
    · cases hs.symm.trans h
    · cases hs.symm.trans h
  flush {l} h r := by
    rcases gestureScan_cases l with ⟨-, hs⟩ | ⟨hi, -⟩ | ⟨index, -, ⟨-, hs⟩ | ⟨-, ⟨-, hs⟩ | ⟨m, -, hs⟩⟩⟩
    · cases hs.symm.trans h
    · exact gestureDrain_noise hi r
    · cases hs.symm.trans h
    · cases hs.symm.trans h
    · cases hs.symm.trans h

/-- What a drain leaves is less than a frame. -/
theorem gestureDrain_length (l : List UInt8) : (gestureScanner.drain l).2.length < 10 := by
  induction l using Scanner.drain_induction (S := gestureScanner) with
  | hwait l k h =>
      rw [Scanner.drain_wait h, List.length_drop]
      rcases gestureScan_cases l with ⟨rfl, -⟩ | ⟨-, hs⟩ | ⟨index, -, ⟨hlen, hs⟩ | ⟨-, ⟨-, hs⟩ | ⟨m, -, hs⟩⟩⟩
      · simp
      · cases hs.symm.trans h
      · injection hs.symm.trans h with hk
        omega
      · cases hs.symm.trans h
      · cases hs.symm.trans h
  | hflush l h =>
      rw [Scanner.drain_flush h]
      simp
  | hreject l n h ih => rwa [Scanner.drain_reject h]
  | haccept l n m h ih => rwa [Scanner.drain_accept h]

/-! ## The loop -/

theorem gestureHeader_run {l : List UInt8} {m : Nat → UInt8} {i : Nat}
    (hm : ∀ k, k < l.length → m (i + k) = byteAt l k) :
    (gestureHeader l.length i).run m = (gestureIndex l).map (i + ·) := by
  induction l generalizing i with
  | nil => rfl
  | cons b l ih =>
      have hb : m i = b := hm 0 (Nat.succ_pos _)
      have hrest : ∀ k, k < l.length → m (i + 1 + k) = byteAt l k := by
        intro k hk
        rw [Nat.add_assoc, Nat.add_comm 1 k]
        exact hm (k + 1) (Nat.succ_lt_succ hk)
      rw [List.length_cons, gestureHeader, Probe.run_look, hb, gestureIndex, List.findIdx?_cons]
      by_cases heq : b = 0xaa
      · rw [if_pos heq, if_pos (beq_iff_eq.mpr heq)]
        rfl
      · rw [if_neg heq, if_neg (fun h => heq (beq_iff_eq.mp h)), ih hrest, gestureIndex,
          Option.map_map]
        congr 1
        funext k
        show i + 1 + k = i + (k + 1)
        omega

section

variable {l : List UInt8} {index : Nat}

theorem gestureParse_none (end₀ : Int) (hne : l ≠ []) (h : gestureIndex l = none) :
    gestureUartParseMsg l end₀ = ⟨.noHeader, end₀, []⟩ := by
  have hlen : ¬ l.length < 1 := by
    have := List.length_pos_iff.mpr hne
    omega
  have hheader : (gestureHeader l.length 0).run (byteAt l) = none := by
    rw [gestureHeader_run (l := l) (fun k _ => by rw [Nat.zero_add]), h]
    rfl
  rw [gestureUartParseMsg, gestureRead, if_neg hlen, Probe.run_bind, hheader]
  rfl

theorem gestureFrameRead_run {n : Nat} (m : Nat → UInt8) (hlt : index < n) :
    (gestureFrameRead n index).run m =
      if n < index + 10 then (⟨.lenSmall, some index⟩, [])
      else (gestureFrames fun k => m (index + k)).elim (⟨.checkErr, some (index + 10)⟩, [])
        fun frames => (⟨.valid, some (index + 10)⟩, frames) := by
  rw [gestureFrameRead]
  by_cases hlen : n < index + 10
  · rw [if_pos hlen, if_pos (by omega)]
    rfl
  · rw [if_neg hlen, if_neg (by omega)]
    simp only [Probe.run_look, Probe.run_bind, Probe.run_lookAll, gestureFrames]
    split
    · rfl
    · split
      · rfl
      · rfl

theorem gestureParse_index (end₀ : Int) (h : gestureIndex l = some index) :
    gestureUartParseMsg l end₀ =
      if l.length < index + 10 then ⟨.lenSmall, index, []⟩
      else (gestureFrames fun k => byteAt l (index + k)).elim ⟨.checkErr, (index + 10 : Nat), []⟩
        fun frames => ⟨.valid, (index + 10 : Nat), frames⟩ := by
  have hlt := gestureIndex_lt h
  have hheader : (gestureHeader l.length 0).run (byteAt l) = some index := by
    rw [gestureHeader_run (l := l) (fun k _ => by rw [Nat.zero_add]), h, Option.map_some,
      Nat.zero_add]
  have hrun : (gestureRead l.length).run (byteAt l) =
      (gestureFrameRead l.length index).run (byteAt l) := by
    rw [gestureRead, if_neg (by omega), Probe.run_bind, hheader]
  rw [gestureUartParseMsg, hrun, gestureFrameRead_run _ hlt]
  by_cases hlen : l.length < index + 10
  · rw [if_pos hlen, if_pos hlen]
  · rw [if_neg hlen, if_neg hlen]
    cases gestureFrames fun k => byteAt l (index + k) with
    | none => rfl
    | some frames => rfl

end

/-- A turn that goes on: the rest is drained, or there is none. -/
theorem gestureLoop_go {fuel n : Nat} {l : List UInt8} (end₀ : Int) (evs : List GestureFrame)
    (hn : 0 < n ∧ n ≤ l.length) (hl : l.length < fuel + 1)
    (ih : ∀ {l : List UInt8} (end₀ : Int), l.length < fuel →
      uartParseLoop gestureUartParseMsg fuel l end₀ =
        some ((gestureScanner.drain l).1.flatten, (gestureScanner.drain l).2)) :
    (if (l.drop n).length = 0 then some (evs, [])
      else (uartParseLoop gestureUartParseMsg fuel (l.drop n) end₀).map
        fun out => (evs ++ out.1, out.2)) =
      some (evs ++ (gestureScanner.drain (l.drop n)).1.flatten,
        (gestureScanner.drain (l.drop n)).2) := by
  by_cases hnil : (l.drop n).length = 0
  · rw [if_pos hnil, List.eq_nil_of_length_eq_zero hnil, Scanner.drain_nil, List.flatten_nil,
      List.append_nil]
  · have hlt : (l.drop n).length < fuel := by
      rw [List.length_drop]
      omega
    rw [if_neg hnil, ih end₀ hlt, Option.map_some]

theorem uartParseLoop_gesture {fuel : Nat} {l : List UInt8} (end₀ : Int) (h : l.length < fuel) :
    uartParseLoop gestureUartParseMsg fuel l end₀ =
      some ((gestureScanner.drain l).1.flatten, (gestureScanner.drain l).2) := by
  induction fuel generalizing l end₀ with
  | zero => exact absurd h (Nat.not_lt_zero _)
  | succ fuel ih =>
      rcases gestureScan_cases l with ⟨rfl, hs⟩ | ⟨hi, hs⟩ | ⟨index, hi, ⟨hlen, hs⟩ | ⟨hle, hcase⟩⟩
      · rw [Scanner.drain_nil]
        rfl
      · by_cases hnil : l = []
        · subst hnil
          rw [Scanner.drain_nil]
          rfl
        · rw [Scanner.drain_flush (S := gestureScanner) hs, uartParseLoop,
            gestureParse_none end₀ hnil hi]
          rfl
      · rw [Scanner.drain_wait (S := gestureScanner) hs, uartParseLoop,
          gestureParse_index end₀ hi, if_pos hlen]
        rfl
      · have hn : 0 < index + 10 ∧ index + 10 ≤ l.length := ⟨by omega, hle⟩
        have hparse := gestureParse_index end₀ hi
        rw [if_neg (Nat.not_lt.mpr hle)] at hparse
        rcases hcase with ⟨hframes, hs⟩ | ⟨m, hframes, hs⟩
        · rw [hframes, Option.elim_none] at hparse
          rw [Scanner.drain_reject (S := gestureScanner) hs, uartParseLoop, hparse]
          exact gestureLoop_go _ [] hn h ih
        · rw [hframes, Option.elim_some] at hparse
          rw [Scanner.drain_accept (S := gestureScanner) hs, uartParseLoop, hparse]
          exact gestureLoop_go _ m hn h ih

theorem uartParseMsg_gesture (l : List UInt8) (end₀ : Int) :
    uartParseMsg gestureUartParseMsg l end₀ =
      some ((gestureScanner.drain l).1.flatten, (gestureScanner.drain l).2) :=
  uartParseLoop_gesture end₀ (Nat.lt_succ_self _)

/-! ## Reads -/

/-- `sizeof(uart_read_buf)` -/
def gestureReadBufSize : Nat := 256

/-- The frames acted upon one after the other, each with what `get_HoodSpeed`
returns for it. -/
def gestureActs : GestureState → List (GestureFrame × UInt8) → GestureState × List GestureAction
  | s, [] => (s, [])
  | s, (f, speed) :: rest =>
      let act := gestureAct f speed s
      let acts := gestureActs act.1 rest
      (acts.1, act.2 ++ acts.2)

/-- The receiver: the first `uart_read_buf_index` bytes of `uart_read_buf`, the static
variables, the frames so far and all that was done. -/
structure GestureLink where
  uartReadBuf : List UInt8
  state : GestureState
  frames : List (GestureFrame × UInt8)
  actions : List GestureAction

def GestureLink.init : GestureLink := ⟨[], .init, [], []⟩

/-- `gesture_recv_cb`, when `read` delivers `chunk` and the hood runs at `speed`; `read`
delivers no more than fits. -/
def gestureRecvCb (chunk : List UInt8) (speed : UInt8) (s : GestureLink) : Option GestureLink :=
  if chunk.length ≤ gestureReadBufSize - s.uartReadBuf.length then
    if chunk.length = 0 then some s
    else (uartParseMsg gestureUartParseMsg (s.uartReadBuf ++ chunk) 0).map fun out =>
      let new := out.1.map fun f => (f, speed)
      let acts := gestureActs s.state new
      { uartReadBuf := out.2
        state := acts.1
        frames := s.frames ++ new
        actions := s.actions ++ acts.2 }
  else none

def gestureMachine : Machine GestureLink (List UInt8 × UInt8) where
  step s read := gestureRecvCb read.1 read.2 s

theorem gestureActs_append (s : GestureState) (fs gs : List (GestureFrame × UInt8)) :
    gestureActs s (fs ++ gs) =
      ((gestureActs (gestureActs s fs).1 gs).1,
        (gestureActs s fs).2 ++ (gestureActs (gestureActs s fs).1 gs).2) := by
  induction fs generalizing s with
  | nil => rfl
  | cons p fs ih =>
      obtain ⟨f, speed⟩ := p
      simp only [List.cons_append, gestureActs, ih, List.append_assoc]

/-- What is left has been looked through, and the board has been answered frame by
frame. -/
structure GestureLink.Good (s : GestureLink) : Prop where
  drained : gestureScanner.drain s.uartReadBuf = ([], s.uartReadBuf)
  acted : gestureActs .init s.frames = (s.state, s.actions)

theorem GestureLink.good_init : GestureLink.init.Good := ⟨Scanner.drain_nil, rfl⟩

/-- A read. -/
theorem gestureRecvCb_some {chunk : List UInt8} {speed : UInt8} {s s' : GestureLink}
    (hs : s.Good) (h : gestureRecvCb chunk speed s = some s') :
    s'.Good ∧ s'.uartReadBuf = (gestureScanner.drain (s.uartReadBuf ++ chunk)).2 ∧
      s'.frames.map (·.1) = s.frames.map (·.1) ++
        (gestureScanner.drain (s.uartReadBuf ++ chunk)).1.flatten := by
  rw [gestureRecvCb] at h
  split at h
  · split at h
    · rename_i hnil
      obtain rfl := Option.some.inj h
      rw [List.eq_nil_of_length_eq_zero hnil, List.append_nil, hs.drained]
      exact ⟨hs, rfl, (List.append_nil _).symm⟩
    · rw [uartParseMsg_gesture, Option.map_some] at h
      obtain rfl := Option.some.inj h
      refine ⟨⟨gesture_causal.drain_drain _, ?_⟩, rfl, ?_⟩
      · show gestureActs .init (s.frames ++ _) = _
        rw [gestureActs_append, hs.acted]
      · show (s.frames ++ _).map _ = _
        rw [List.map_append, List.map_map]
        exact congrArg _ (List.map_id _)
  · cases h

/-- What was understood so far and what is left, of all the bytes. -/
theorem gesture_drained {reads : List (List UInt8 × UInt8)} {s s' : GestureLink} (hs : s.Good)
    (h : gestureMachine.run s reads = some s') :
    s'.uartReadBuf = (gestureScanner.drain (s.uartReadBuf ++ (reads.map (·.1)).flatten)).2 ∧
      s'.frames.map (·.1) = s.frames.map (·.1) ++
        (gestureScanner.drain (s.uartReadBuf ++ (reads.map (·.1)).flatten)).1.flatten := by
  induction reads generalizing s with
  | nil =>
      obtain rfl := Option.some.inj h
      rw [List.map_nil, List.flatten_nil, List.append_nil, hs.drained]
      exact ⟨rfl, (List.append_nil _).symm⟩
  | cons read reads ih =>
      obtain ⟨t, ht, h'⟩ := Machine.run_cons.mp h
      obtain ⟨hgood, hbuf, hframes⟩ := gestureRecvCb_some hs ht
      obtain ⟨hbuf', hframes'⟩ := ih hgood h'
      rw [List.map_cons, List.flatten_cons, ← List.append_assoc, gesture_causal.drain_append,
        ← hbuf, List.flatten_append, ← List.append_assoc, ← hframes]
      exact ⟨hbuf', hframes'⟩

/-- **What the gesture board says is understood**, however its bytes are cut into
reads and whatever they are; and the buffer never fills up. -/
theorem gesture_stream {reads : List (List UInt8 × UInt8)} {s : GestureLink}
    (h : gestureMachine.run .init reads = some s) :
    s.frames.map (·.1) = (gestureScanner.drain (reads.map (·.1)).flatten).1.flatten ∧
      s.uartReadBuf = (gestureScanner.drain (reads.map (·.1)).flatten).2 ∧
      s.uartReadBuf.length < 10 ∧
      ∀ chunk speed, chunk.length ≤ 247 → ∃ s', gestureMachine.step s (chunk, speed) = some s' := by
  obtain ⟨hbuf, hframes⟩ := gesture_drained GestureLink.good_init h
  have hbuf' : s.uartReadBuf = (gestureScanner.drain (reads.map (·.1)).flatten).2 := hbuf
  have hlen : s.uartReadBuf.length < 10 := hbuf' ▸ gestureDrain_length _
  refine ⟨hframes, hbuf', hlen, ?_⟩
  intro chunk speed hchunk
  show ∃ s', gestureRecvCb chunk speed s = some s'
  rw [gestureRecvCb, if_pos (by unfold gestureReadBufSize; omega)]
  split
  · exact ⟨_, rfl⟩
  · rw [uartParseMsg_gesture]
    exact ⟨_, rfl⟩

/-- Noise, two frames and a part of one, in reads that cut the frames. -/
def gestureReads : List (List UInt8 × UInt8) :=
  [([0x00, 0xaa, 0x01, 0x06], 1), ([0x01, 0x60, 0x15, 0x00, 0x00, 0xfe], 1),
    ([0xd8, 0xaa, 0x01, 0x06, 0x01, 0x00, 0x00, 0x00, 0x00, 0xff, 0x4d, 0xaa], 2)]

theorem gestureReads_runs : ∃ s, gestureMachine.run .init gestureReads = some s :=
  Option.isSome_iff_exists.mp (by decide +kernel)

theorem gesture_stream_reads :
    ∃ s, gestureMachine.run .init gestureReads = some s ∧
      s.frames.map (·.1) =
        (gestureScanner.drain (gestureReads.map (·.1)).flatten).1.flatten ∧
      s.uartReadBuf = (gestureScanner.drain (gestureReads.map (·.1)).flatten).2 ∧
      s.uartReadBuf.length < 10 ∧
      ∀ chunk speed, chunk.length ≤ 247 →
        ∃ s', gestureMachine.step s (chunk, speed) = some s' := by
  obtain ⟨s, hs⟩ := gestureReads_runs
  exact ⟨s, hs, gesture_stream hs⟩

end X50
