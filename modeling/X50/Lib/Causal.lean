/-
# `X50.Lib.Causal` — scanners that do not guess

A scanner is causal if a verdict stands whatever follows: what it accepts or
rejects it would accept or reject with more bytes behind, and where it waits or
flushes it forgets nothing that more bytes could make use of.

For such a scanner it does not matter how a stream is cut into reads
(`Causal.feedAll`): it finds what one scan over the whole stream finds, and it is
left with what that leaves.  No frames and no encoding are mentioned; the stream
may be anything.
-/
import X50.Lib.Framing

namespace X50.Lib

namespace Scanner

variable {α μ : Type*} {S : Scanner α μ}

structure Causal (S : Scanner α μ) : Prop where
  accept : ∀ {l n m}, S.scan l = .accept n m → ∀ r, S.scan (l ++ r) = .accept n m
  reject : ∀ {l n}, S.scan l = .reject n → ∀ r, S.scan (l ++ r) = .reject n
  wait : ∀ {l k}, S.scan l = .wait k → ∀ r, S.drain (l ++ r) = S.drain (l.drop k ++ r)
  flush : ∀ {l}, S.scan l = .flush → ∀ r, S.drain (l ++ r) = S.drain r

namespace Causal

/-- A drain may be interrupted. -/
theorem drain_append (h : S.Causal) (l r : List α) :
    S.drain (l ++ r) =
      ((S.drain l).1 ++ (S.drain ((S.drain l).2 ++ r)).1, (S.drain ((S.drain l).2 ++ r)).2) := by
  induction l using drain_induction (S := S) with
  | hwait l k hs => rw [drain_wait hs, h.wait hs, List.nil_append]
  | hflush l hs => rw [drain_flush hs, h.flush hs, List.nil_append, List.nil_append]
  | hreject l n hs ih =>
      have hn := S.reject_pos hs
      rw [drain_reject (h.reject hs r), drain_reject hs, List.drop_append_of_le_length hn.2, ih]
  | haccept l n m hs ih =>
      have hn := S.accept_pos hs
      rw [drain_accept (h.accept hs r), drain_accept hs, List.drop_append_of_le_length hn.2, ih]
      rfl

/-- What a drain leaves has been drained. -/
theorem drain_drain (h : S.Causal) (l : List α) :
    S.drain (S.drain l).2 = ([], (S.drain l).2) := by
  have hall := h.drain_append l []
  rw [List.append_nil, List.append_nil] at hall
  obtain ⟨hmsgs, hleft⟩ := Prod.ext_iff.mp hall
  refine Prod.ext ?_ hleft.symm
  exact List.append_cancel_left (hmsgs.symm.trans (List.append_nil _).symm)

/-- **How a stream is cut does not matter.** -/
theorem feedAll (h : S.Causal) {left : List α} (hleft : S.drain left = ([], left))
    (chunks : List (List α)) : S.feedAll left chunks = S.drain (left ++ chunks.flatten) := by
  induction chunks generalizing left with
  | nil => rw [List.flatten_nil, List.append_nil, hleft, Scanner.feedAll]
  | cons chunk chunks ih =>
      rw [Scanner.feedAll, ih (h.drain_drain _), List.flatten_cons, ← List.append_assoc,
        h.drain_append (left ++ chunk)]

end Causal

end Scanner

end X50.Lib
