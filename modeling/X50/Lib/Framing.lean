/-
# `X50.Lib.Framing` — scanning a byte stream for frames, read by read

A scanner looks at the bytes it has and gives a verdict:

    wait k      nothing to do yet; the first `k` bytes are of no use
    flush       none of the bytes is of any use
    reject n    the first `n` bytes are no frame
    accept n m  the first `n` bytes are, or end with, a frame that says `m`

`drain` scans until it has to wait.  `feedAll` drains after every read, with
what the last scan left in front of the new bytes.

Two facts about a scanner are the argument of this file.  No byte is used
twice, so what is accepted and what is left fit into what was read
(`feedAll_size`), with room to spare once a byte was rejected.  And a scanner
that accepts frames and waits for the rest of one loses nothing; so a stream of
frames comes through unharmed exactly when no read ends where the scanner
rejects what it has of a frame (`feedAll_eq_iff`).
-/
import Mathlib.Data.List.Basic
import Mathlib.Algebra.BigOperators.Group.List.Basic
import Mathlib.Algebra.Ring.Nat

namespace X50.Lib

inductive Verdict (μ : Type*) where
  | wait (skip : Nat)
  | flush
  | reject (n : Nat)
  | accept (n : Nat) (m : μ)

/-- A scanner: what it consumes is there, and is not nothing. -/
structure Scanner (α μ : Type*) where
  scan : List α → Verdict μ
  reject_pos : ∀ {l : List α} {n : Nat}, scan l = .reject n → 0 < n ∧ n ≤ l.length
  accept_pos : ∀ {l : List α} {n : Nat} {m : μ}, scan l = .accept n m → 0 < n ∧ n ≤ l.length

namespace Scanner

variable {α μ : Type*} (S : Scanner α μ)

/-- Scan until there is nothing to consume: the messages, and what is left. -/
def drain (l : List α) : List μ × List α :=
  match _h : S.scan l with
  | .wait k => ([], l.drop k)
  | .flush => ([], [])
  | .reject n => drain (l.drop n)
  | .accept n m => (m :: (drain (l.drop n)).1, (drain (l.drop n)).2)
termination_by l.length
decreasing_by
  · have := S.reject_pos _h
    simp only [List.length_drop]
    omega
  · have := S.accept_pos _h
    simp only [List.length_drop]
    omega

/-- Drain after every read. -/
def feedAll : List α → List (List α) → List μ × List α
  | left, [] => ([], left)
  | left, chunk :: chunks =>
      ((S.drain (left ++ chunk)).1 ++ (feedAll (S.drain (left ++ chunk)).2 chunks).1,
        (feedAll (S.drain (left ++ chunk)).2 chunks).2)

/-- The scanner rejects these bytes. -/
def Rejects (l : List α) : Prop := ∃ n, S.scan l = .reject n

section

variable {S} {l : List α} {n k : Nat} {m : μ}

theorem drain_wait (h : S.scan l = .wait k) : S.drain l = ([], l.drop k) := by
  rw [drain]
  split <;> simp_all

theorem drain_flush (h : S.scan l = .flush) : S.drain l = ([], []) := by
  rw [drain]
  split <;> simp_all

theorem drain_reject (h : S.scan l = .reject n) : S.drain l = S.drain (l.drop n) := by
  rw [drain]
  split <;> simp_all

theorem drain_accept (h : S.scan l = .accept n m) :
    S.drain l = (m :: (S.drain (l.drop n)).1, (S.drain (l.drop n)).2) := by
  rw [drain]
  split <;> simp_all

theorem not_rejects_nil : ¬ S.Rejects ([] : List α) := by
  rintro ⟨n, h⟩
  have hn := S.reject_pos h
  simp only [List.length_nil] at hn
  omega

theorem drain_nil : S.drain ([] : List α) = ([], []) := by
  cases h : S.scan ([] : List α) with
  | wait k => rw [drain_wait h, List.drop_nil]
  | flush => exact drain_flush h
  | reject n => exact absurd ⟨n, h⟩ not_rejects_nil
  | accept n m =>
      have hn := S.accept_pos h
      simp only [List.length_nil] at hn
      omega

/-- **The drain rule**, an induction over the scans of a drain. -/
theorem drain_induction {P : List α → Prop}
    (hwait : ∀ l k, S.scan l = .wait k → P l) (hflush : ∀ l, S.scan l = .flush → P l)
    (hreject : ∀ l n, S.scan l = .reject n → P (l.drop n) → P l)
    (haccept : ∀ l n m, S.scan l = .accept n m → P (l.drop n) → P l) (l : List α) : P l := by
  induction hlen : l.length using Nat.strongRecOn generalizing l with
  | ind len ih =>
      cases h : S.scan l with
      | wait k => exact hwait l k h
      | flush => exact hflush l h
      | reject n =>
          have hn := S.reject_pos h
          refine hreject l n h (ih (l.drop n).length ?_ _ rfl)
          rw [List.length_drop]
          omega
      | accept n m =>
          have hn := S.accept_pos h
          refine haccept l n m h (ih (l.drop n).length ?_ _ rfl)
          rw [List.length_drop]
          omega

/-- What a drain leaves is the end of what it was given. -/
theorem drain_suffix (l : List α) : (S.drain l).2 <:+ l := by
  induction l using drain_induction (S := S) with
  | hwait l k h => rw [drain_wait h]; exact List.drop_suffix k l
  | hflush l h => rw [drain_flush h]; exact List.nil_suffix
  | hreject l n h ih => rw [drain_reject h]; exact ih.trans (List.drop_suffix n l)
  | haccept l n m h ih => rw [drain_accept h]; exact ih.trans (List.drop_suffix n l)

/-- A drain that leaves everything has only waited. -/
theorem drain_full_iff (hl : l ≠ []) :
    (S.drain l).2.length = l.length ↔ S.scan l = .wait 0 := by
  have hpos : 0 < l.length := List.length_pos_iff.mpr hl
  have hless : ∀ n, 0 < n → (S.drain (l.drop n)).2.length < l.length := by
    intro n hn
    have hle := (drain_suffix (S := S) (l.drop n)).length_le
    rw [List.length_drop] at hle
    omega
  cases h : S.scan l with
  | wait k =>
      rw [drain_wait h, List.length_drop, Verdict.wait.injEq]
      omega
  | flush =>
      rw [drain_flush h]
      exact ⟨fun hlen => absurd hlen (Nat.ne_of_lt hpos), fun hw => by cases hw⟩
  | reject n =>
      rw [drain_reject h]
      exact ⟨fun hlen => absurd hlen (Nat.ne_of_lt (hless n (S.reject_pos h).1)),
        fun hw => by cases hw⟩
  | accept n m =>
      rw [drain_accept h]
      exact ⟨fun hlen => absurd hlen (Nat.ne_of_lt (hless n (S.accept_pos h).1)),
        fun hw => by cases hw⟩

end

/-! ## Accounting -/

section

variable {S} {size : μ → Nat}

/-- Every message is paid for by the bytes of its frame. -/
theorem drain_size (hsize : ∀ l n m, S.scan l = .accept n m → size m ≤ n) (l : List α) :
    ((S.drain l).1.map size).sum + (S.drain l).2.length ≤ l.length := by
  induction l using drain_induction (S := S) with
  | hwait l k h =>
      rw [drain_wait h]
      simp
  | hflush l h =>
      rw [drain_flush h]
      simp
  | hreject l n h ih =>
      rw [drain_reject h]
      rw [List.length_drop] at ih
      omega
  | haccept l n m h ih =>
      have hm := hsize l n m h
      have hn := S.accept_pos h
      rw [drain_accept h]
      rw [List.length_drop] at ih
      simp only [List.map_cons, List.sum_cons]
      omega

/-- A rejected byte pays for nothing. -/
theorem drain_size_lt (hsize : ∀ l n m, S.scan l = .accept n m → size m ≤ n) {l : List α}
    (h : S.Rejects l) : ((S.drain l).1.map size).sum + (S.drain l).2.length < l.length := by
  obtain ⟨n, hn⟩ := h
  have hpos := S.reject_pos hn
  have hrest := drain_size hsize (l.drop n)
  rw [drain_reject hn]
  rw [List.length_drop] at hrest
  omega

theorem feedAll_size (hsize : ∀ l n m, S.scan l = .accept n m → size m ≤ n) (left : List α)
    (chunks : List (List α)) :
    ((S.feedAll left chunks).1.map size).sum + (S.feedAll left chunks).2.length ≤
      left.length + chunks.flatten.length := by
  induction chunks generalizing left with
  | nil => simp [feedAll]
  | cons chunk chunks ih =>
      have hstep := drain_size hsize (left ++ chunk)
      have hrest := ih (S.drain (left ++ chunk)).2
      simp only [feedAll, List.map_append, List.sum_append, List.flatten_cons,
        List.length_append] at hstep hrest ⊢
      omega

end

/-! ## Streams of frames -/

section

variable (enc : μ → List α)

/-- The stream that says `ms`. -/
def encs (ms : List μ) : List α := ms.flatMap enc

/-- Of the frames of `ms`, what is there of the first one that is not complete
in `received`. -/
def pending : List μ → List α → List α
  | [], received => received
  | m :: ms, received =>
      if (enc m).length ≤ received.length then pending ms (received.drop (enc m).length)
      else received

variable {S} {enc} {valid : μ → Prop}

@[simp] theorem encs_nil : encs enc ([] : List μ) = [] := rfl

@[simp] theorem encs_cons (m : μ) (ms : List μ) : encs enc (m :: ms) = enc m ++ encs enc ms := rfl

@[simp] theorem encs_append (ms ms' : List μ) :
    encs enc (ms ++ ms') = encs enc ms ++ encs enc ms' := List.flatMap_append

theorem length_encs (ms : List μ) :
    (encs enc ms).length = (ms.map fun m => (enc m).length).sum := List.length_flatMap

/-- `part` is the beginning of the first frame of `ms`, and not all of it. -/
def IsPart (enc : μ → List α) (ms : List μ) (part : List α) : Prop :=
  match ms with
  | [] => part = []
  | m :: _ => part <+: enc m ∧ part.length < (enc m).length

theorem IsPart.pending_eq {ms : List μ} {part : List α} (h : IsPart enc ms part) :
    pending enc ms part = part := by
  cases ms with
  | nil => rfl
  | cons m ms => exact if_neg (Nat.not_le.mpr h.2)

theorem pending_append (ms ms' : List μ) (rest : List α) :
    pending enc (ms ++ ms') (encs enc ms ++ rest) = pending enc ms' rest := by
  induction ms with
  | nil => rfl
  | cons m ms ih =>
      have hle : (enc m).length ≤ (encs enc (m :: ms) ++ rest).length := by
        simp only [encs_cons, List.length_append]
        omega
      rw [List.cons_append, pending, if_pos hle, encs_cons, List.append_assoc,
        List.drop_left, ih]

/-- Where a stream of frames is cut, whole frames stand before a part of one. -/
theorem split_prefix {ms : List μ} {received : List α} (h : received <+: encs enc ms) :
    ∃ ms₁ ms₂ part, ms = ms₁ ++ ms₂ ∧ received = encs enc ms₁ ++ part ∧ IsPart enc ms₂ part := by
  induction ms generalizing received with
  | nil => exact ⟨[], [], [], rfl, List.prefix_nil.mp h, rfl⟩
  | cons m ms ih =>
      by_cases hlen : (enc m).length ≤ received.length
      · obtain ⟨rest, rfl⟩ : enc m <+: received :=
          List.prefix_of_prefix_length_le (List.prefix_append _ _) h hlen
        have hrest : rest <+: encs enc ms := (List.prefix_append_right_inj (enc m)).mp h
        obtain ⟨ms₁, ms₂, part, rfl, rfl, hpart⟩ := ih hrest
        exact ⟨m :: ms₁, ms₂, part, rfl, by rw [encs_cons, List.append_assoc], hpart⟩
      · refine ⟨[], m :: ms, received, rfl, rfl, ?_, Nat.not_le.mp hlen⟩
        exact List.prefix_of_prefix_length_le h (List.prefix_append _ _) (Nat.le_of_not_le hlen)

/-- The frames at the front of a stream are accepted one by one. -/
theorem drain_encs
    (hacc : ∀ m rest, valid m → S.scan (enc m ++ rest) = .accept (enc m).length m)
    {ms : List μ} (hms : ∀ m ∈ ms, valid m) (rest : List α) :
    S.drain (encs enc ms ++ rest) = (ms ++ (S.drain rest).1, (S.drain rest).2) := by
  induction ms with
  | nil => rfl
  | cons m ms ih =>
      have hm := hacc m (encs enc ms ++ rest) (hms m List.mem_cons_self)
      rw [encs_cons, List.append_assoc, drain_accept hm, List.drop_left,
        ih fun q hq => hms q (List.mem_cons_of_mem _ hq)]
      rfl

/-- A part of a frame that is not rejected is kept until the rest has come. -/
theorem IsPart.drain {ms : List μ} {part : List α}
    (hpart : ∀ m part, valid m → part <+: enc m → part.length < (enc m).length →
      S.scan part = .wait 0 ∨ S.Rejects part)
    (hms : ∀ m ∈ ms, valid m) (h : IsPart enc ms part) (hgood : ¬ S.Rejects part) :
    S.drain part = ([], part) := by
  cases ms with
  | nil =>
      have hnil : part = [] := h
      rw [hnil, drain_nil]
  | cons m ms =>
      rcases hpart m part (hms m List.mem_cons_self) h.1 h.2 with hwait | hrej
      · rw [drain_wait hwait, List.drop_zero]
      · exact absurd hrej hgood

/-- Where a part of a frame is rejected a byte is lost, so the messages cannot all
have been paid for. -/
theorem feedAll_ne_of_rejects (hsize : ∀ l n m, S.scan l = .accept n m → (enc m).length ≤ n)
    {part : List α} {chunks : List (List α)} {ms : List μ} (hbad : S.Rejects part)
    (h : part ++ chunks.flatten = encs enc ms) :
    (S.drain part).1 ++ (S.feedAll (S.drain part).2 chunks).1 ≠ ms := by
  intro heq
  have hlt := @drain_size_lt _ _ S (fun m => (enc m).length) hsize _ hbad
  have hle := @feedAll_size _ _ S (fun m => (enc m).length) hsize (S.drain part).2 chunks
  have htotal := congrArg List.length h
  have hsum := congrArg (fun ms => (ms.map fun m => (enc m).length).sum) heq
  simp only [List.map_append, List.sum_append] at hsum
  rw [← length_encs ms] at hsum
  simp only [List.length_append] at htotal
  omega

/-- **Cutting a stream of frames.**  The frames are accepted in order, each
once and nothing else, exactly when no read ends in a part of a frame that the
scanner rejects. -/
theorem feedAll_eq_iff
    (hacc : ∀ m rest, valid m → S.scan (enc m ++ rest) = .accept (enc m).length m)
    (hpart : ∀ m part, valid m → part <+: enc m → part.length < (enc m).length →
      S.scan part = .wait 0 ∨ S.Rejects part)
    (hsize : ∀ l n m, S.scan l = .accept n m → (enc m).length ≤ n)
    {left : List α} {chunks : List (List α)} {ms : List μ} (hms : ∀ m ∈ ms, valid m)
    (hleft : IsPart enc ms left) (hgood : ¬ S.Rejects left)
    (h : left ++ chunks.flatten = encs enc ms) :
    (S.feedAll left chunks).1 = ms ↔
      ∀ p, p <+: chunks → ¬ S.Rejects (pending enc ms (left ++ p.flatten)) := by
  induction chunks generalizing left ms with
  | nil =>
      have hall : left = encs enc ms := by simpa using h
      cases ms with
      | nil =>
          refine ⟨fun _ p hp => ?_, fun _ => rfl⟩
          rw [List.prefix_nil.mp hp]
          simpa [pending] using hgood
      | cons m ms =>
          have hlt := hleft.2
          rw [hall, encs_cons, List.length_append] at hlt
          omega
  | cons chunk chunks ih =>
      have hpre : left ++ chunk <+: encs enc ms :=
        ⟨chunks.flatten, by rw [← h, List.flatten_cons, List.append_assoc]⟩
      obtain ⟨ms₁, ms₂, part, rfl, hcut, hpart₂⟩ := split_prefix hpre
      have hms₁ : ∀ m ∈ ms₁, valid m := fun m hm => hms m (List.mem_append_left _ hm)
      have hms₂ : ∀ m ∈ ms₂, valid m := fun m hm => hms m (List.mem_append_right _ hm)
      have hrest : part ++ chunks.flatten = encs enc ms₂ := by
        have htail : encs enc ms₁ ++ (part ++ chunks.flatten) = encs enc ms₁ ++ encs enc ms₂ := by
          rw [← List.append_assoc, ← hcut, List.append_assoc, ← List.flatten_cons, h, encs_append]
        exact List.append_cancel_left htail
      have hdrain : S.drain (left ++ chunk) = (ms₁ ++ (S.drain part).1, (S.drain part).2) := by
        rw [hcut]
        exact drain_encs hacc hms₁ part
      have hpend : ∀ rest, pending enc (ms₁ ++ ms₂) (left ++ (chunk ++ rest)) =
          pending enc ms₂ (part ++ rest) := by
        intro rest
        rw [← List.append_assoc, hcut, List.append_assoc, pending_append]
      by_cases hbad : S.Rejects part
      · constructor
        · intro heq
          rw [feedAll, hdrain, List.append_assoc] at heq
          exact absurd (List.append_cancel_left heq) (feedAll_ne_of_rejects hsize hbad hrest)
        · intro hno
          have hhere := hno [chunk] (List.prefix_append [chunk] chunks)
          rw [List.flatten_cons, List.flatten_nil, hpend [], List.append_nil,
            hpart₂.pending_eq] at hhere
          exact absurd hbad hhere
      · have hstay := hpart₂.drain hpart hms₂ hbad
        have hfeed : (S.feedAll left (chunk :: chunks)).1 = ms₁ ++ (S.feedAll part chunks).1 := by
          rw [feedAll, hdrain, hstay, List.append_nil]
        rw [hfeed, List.append_right_inj, ih hms₂ hpart₂ hbad hrest]
        constructor
        · intro hno p hp
          cases p with
          | nil =>
              rw [List.flatten_nil, List.append_nil, hleft.pending_eq]
              exact hgood
          | cons c p =>
              obtain ⟨rfl, htail⟩ := List.cons_prefix_cons.mp hp
              rw [List.flatten_cons, hpend]
              exact hno p htail
        · intro hno p hp
          have hlater := hno (chunk :: p) (List.cons_prefix_cons.mpr ⟨rfl, hp⟩)
          rwa [List.flatten_cons, hpend] at hlater

/-! ## Frames with noise between them -/

/-- `noise` and then frames, each with the noise after it. -/
def noisy (enc : μ → List α) : List α → List (μ × List α) → List α
  | noise, [] => noise
  | noise, (m, noise') :: rest => noise ++ (enc m ++ noisy enc noise' rest)

/-- Without noise there are the frames only. -/
theorem noisy_nil (ms : List μ) : noisy enc [] (ms.map fun m => (m, [])) = encs enc ms := by
  induction ms with
  | nil => rfl
  | cons m ms ih => rw [List.map_cons, noisy, ih, List.nil_append, encs_cons]

/-- The noise after the last frame. -/
def lastNoise : List α → List (μ × List α) → List α
  | noise, [] => noise
  | _, (_, noise') :: rest => lastNoise noise' rest

/-- A scanner that finds a frame behind noise finds all of them. -/
theorem drain_noisy {quiet : List α → Prop}
    (hacc : ∀ noise m rest, quiet noise → valid m →
      S.scan (noise ++ (enc m ++ rest)) = .accept (noise.length + (enc m).length) m)
    {noise : List α} {ms : List (μ × List α)} (hnoise : quiet noise)
    (hms : ∀ p ∈ ms, valid p.1 ∧ quiet p.2) :
    S.drain (noisy enc noise ms) =
      (ms.map Prod.fst ++ (S.drain (lastNoise noise ms)).1, (S.drain (lastNoise noise ms)).2) := by
  induction ms generalizing noise with
  | nil => rfl
  | cons p ms ih =>
      obtain ⟨m, noise'⟩ := p
      obtain ⟨hm, hnoise'⟩ := hms (m, noise') List.mem_cons_self
      have hscan := hacc noise m (noisy enc noise' ms) hnoise hm
      have hdrop : (noise ++ (enc m ++ noisy enc noise' ms)).drop
          (noise.length + (enc m).length) = noisy enc noise' ms := by
        rw [← List.append_assoc, ← List.length_append, List.drop_left]
      rw [noisy, drain_accept hscan, hdrop,
        ih hnoise' fun q hq => hms q (List.mem_cons_of_mem _ hq)]
      rfl

theorem lastNoise_quiet {quiet : List α → Prop} {noise : List α} {ms : List (μ × List α)}
    (hnoise : quiet noise) (hms : ∀ p ∈ ms, quiet p.2) : quiet (lastNoise noise ms) := by
  induction ms generalizing noise with
  | nil => exact hnoise
  | cons p ms ih =>
      exact ih (hms p List.mem_cons_self) fun q hq => hms q (List.mem_cons_of_mem _ hq)

end

end Scanner

end X50.Lib
