/-
# `X50.ResendMemory` — the queue in memory is the queue

`Holds mem es lost` says what is allocated: the ring of the entries `es`, a frame
for each of them, and the frames `lost` to which no pointer is left.  Each function
of `X50.ResendHeap` is described by what it does to `es` and `lost`, and that is
what its counterpart in `X50.Resend` does to the queue.

`resendHeap_refines`: whatever is sent, answered and resent, and whatever unused
memory `malloc` returns, no access is undefined and the link sees what `X50.Resend`
says it sees.

`resendHeap_lost`: of the memory the link has taken, that of the queue is all it
can ever give back.  `ecb_uart_send_msg` has each frame from `malloc`, but only
`resend_list_del` frees one, so every frame sent without resending, the answers
included, stays allocated for ever.
-/
import X50.ResendHeap

namespace X50

open X50.Lib

/-! ## What the memory holds -/

theorem isSome_update_some {α : Type} {f : Addr → Option α} {p q : Addr} {a : α} :
    (Function.update f p (some a) q).isSome ↔ q = p ∨ (f q).isSome := by
  by_cases h : q = p
  · simp [h]
  · simp [h]

theorem isSome_update_none {α : Type} {f : Addr → Option α} {p q : Addr} :
    (Function.update f p none q).isSome ↔ q ≠ p ∧ (f q).isSome := by
  by_cases h : q = p
  · simp [h]
  · simp [h]

/-- An entry of the queue, and where it is. -/
structure Placed where
  node : Addr
  data : Addr
  ptr : UartResend

/-- What is written at the node of an entry. -/
def Placed.content (e : Placed) : ResendNode :=
  { resendCnt := e.ptr.resendCnt, sendData := e.data, resendSeqId := e.ptr.resendSeqId,
    sendLen := e.ptr.sendData.length, waitTick := e.ptr.waitTick }

/-- The frames in memory and where they are: those of the entries, and the others. -/
def blocksOf (es : List Placed) (lost : List (Addr × List UInt8)) : List (Addr × List UInt8) :=
  es.map (fun e => (e.data, e.ptr.sendData)) ++ lost

/-- The ring is made of the entries `es`, and there is nothing else in memory but
their frames and those of `lost`. -/
structure Holds (mem : Mem) (es : List Placed) (lost : List (Addr × List UInt8)) : Prop where
  ring : Ring mem.links ecbListResend (es.map (·.node))
  links : ∀ p, Mapped mem.links p → p = ecbListResend ∨ p ∈ es.map (·.node)
  node : ∀ e ∈ es, mem.nodes e.node = some e.content
  nodes : ∀ p, (mem.nodes p).isSome → p ∈ es.map (·.node)
  block : ∀ b ∈ blocksOf es lost, mem.blocks b.1 = some b.2
  blocks : ∀ p, (mem.blocks p).isSome → p ∈ (blocksOf es lost).map (·.1)
  nodup : ((blocksOf es lost).map (·.1)).Nodup
  nonnull : ∀ b ∈ blocksOf es lost, b.1 ≠ 0

theorem holds_init : Holds .init [] [] where
  ring := Ring.init _ _
  links := by
    intro p hp
    rw [Mapped, Mem.init, isSome_update_some] at hp
    exact Or.inl (hp.resolve_right (by simp))
  node := by
    intro e he
    cases he
  nodes := by
    intro p hp
    cases hp
  block := by
    intro b hb
    cases hb
  blocks := by
    intro p hp
    cases hp
  nodup := List.nodup_nil
  nonnull := by
    intro b hb
    cases hb

namespace Holds

variable {mem : Mem} {es xs ys : List Placed} {e : Placed} {lost : List (Addr × List UInt8)}

/-- Memory that is not in use is none of the queue's. -/
theorem unused (h : Holds mem es lost) {p : Addr} (hp : mem.Unused p) :
    p ∉ ecbListResend :: es.map (·.node) ∧ p ∉ (blocksOf es lost).map (·.1) := by
  refine ⟨?_, ?_⟩
  · intro hmem
    have hmapped := h.ring.mapped p hmem
    rw [Mapped, hp.2.1] at hmapped
    cases hmapped
  · intro hmem
    obtain ⟨b, hb, rfl⟩ := List.mem_map.mp hmem
    have hblock := h.block b hb
    rw [hp.2.2.2] at hblock
    cases hblock

/-- The memory for a frame. -/
theorem mallocBlock (h : Holds mem es lost) {p : Addr} (hp : mem.Unused p) (data : List UInt8) :
    ∃ mem', mem.mallocBlock p data = some mem' ∧ Holds mem' es (lost ++ [(p, data)]) ∧
      mem'.links = mem.links ∧ mem'.nodes = mem.nodes := by
  have hfresh := (h.unused hp).2
  have hblocks : blocksOf es (lost ++ [(p, data)]) = blocksOf es lost ++ [(p, data)] := by
    rw [blocksOf, blocksOf, List.append_assoc]
  refine ⟨{ mem with blocks := Function.update mem.blocks p (some data) }, ?_, ?_, rfl, rfl⟩
  · rw [Mem.mallocBlock, if_neg hp.1]
  · refine ⟨h.ring, h.links, h.node, h.nodes, ?_, ?_, ?_, ?_⟩
    · intro b hb
      rw [hblocks] at hb
      rcases List.mem_append.mp hb with hb | hb
      · have hne : b.1 ≠ p := fun heq => hfresh (heq ▸ List.mem_map_of_mem hb)
        show Function.update mem.blocks p (some data) b.1 = _
        rw [Function.update_of_ne hne]
        exact h.block b hb
      · rw [List.mem_singleton.mp hb]
        exact Function.update_self _ _ _
    · intro q hq
      rw [hblocks, List.map_append]
      rcases isSome_update_some.mp hq with rfl | hq
      · exact List.mem_append_right _ List.mem_cons_self
      · exact List.mem_append_left _ (h.blocks q hq)
    · rw [hblocks, List.map_append]
      refine List.nodup_append.mpr ⟨h.nodup, List.nodup_singleton _, ?_⟩
      intro a ha b hb heq
      have hap : a = p := heq.trans (List.mem_singleton.mp hb)
      exact hfresh (hap ▸ ha)
    · intro b hb
      rw [hblocks] at hb
      rcases List.mem_append.mp hb with hb | hb
      · exact h.nonnull b hb
      · rw [List.mem_singleton.mp hb]
        exact hp.1

/-- What has been written can be read. -/
theorem readBlock (h : Holds mem es lost) {b : Addr × List UInt8} (hb : b ∈ blocksOf es lost) :
    mem.readBlock b.1 b.2.length = some b.2 := by
  rw [Mem.readBlock, h.block b hb, Option.bind_some, if_pos (le_refl _), List.take_length]

/-- **A node is put in front**, and the frame lost last is its frame. -/
theorem add {p : Addr} (ptr : UartResend)
    (h : Holds mem es (lost ++ [(p, ptr.sendData)])) {node : Addr} (hnode : mem.Unused node) :
    ∃ mem₁ mem', mem.mallocNode node (Placed.mk node p ptr).content = some mem₁ ∧
      heapListAdd node mem₁ = some mem' ∧ Holds mem' (⟨node, p, ptr⟩ :: es) lost := by
  have hfresh : node ∉ ecbListResend :: es.map (·.node) := (h.unused hnode).1
  have hmapped : Mapped (Function.update mem.links node (some ⟨0, 0⟩)) node :=
    isSome_update_some.mpr (Or.inl rfl)
  have hring : Ring (Function.update mem.links node (some ⟨0, 0⟩)) ecbListResend
      (es.map (·.node)) := by
    refine h.ring.congr ?_
    intro x hx
    have hne : x ≠ node := fun heq => hfresh (heq ▸ hx)
    exact Function.update_of_ne hne _ _
  obtain ⟨links, hlinks, hring', hmap⟩ := hring.listAdd hmapped hfresh
  have hblocks : (blocksOf (⟨node, p, ptr⟩ :: es) lost).Perm
      (blocksOf es (lost ++ [(p, ptr.sendData)])) := by
    rw [blocksOf, blocksOf, ← List.append_assoc, List.map_cons, List.cons_append]
    exact (List.perm_append_singleton _ _).symm
  refine ⟨{ mem with
      links := Function.update mem.links node (some ⟨0, 0⟩)
      nodes := Function.update mem.nodes node (some (Placed.mk node p ptr).content) },
    { mem with
      links := links
      nodes := Function.update mem.nodes node (some (Placed.mk node p ptr).content) },
    ?_, ?_, ⟨hring', ?_, ?_, ?_, ?_, ?_, ?_, ?_⟩⟩
  · rw [Mem.mallocNode, if_neg hnode.1]
  · rw [heapListAdd, hlinks, Option.map_some]
  · intro q hq
    rcases isSome_update_some.mp ((hmap q).mp hq) with rfl | hq
    · exact Or.inr List.mem_cons_self
    · exact (h.links q hq).imp_right (List.mem_cons_of_mem _)
  · intro e he
    rcases List.mem_cons.mp he with rfl | he
    · exact Function.update_self _ _ _
    · have hne : e.node ≠ node := fun heq =>
        hfresh (heq ▸ List.mem_cons_of_mem _ (List.mem_map_of_mem he))
      exact (Function.update_of_ne hne _ _).trans (h.node e he)
  · intro q hq
    rcases isSome_update_some.mp hq with rfl | hq
    · exact List.mem_cons_self
    · exact List.mem_cons_of_mem _ (h.nodes q hq)
  · intro b hb
    exact h.block b (hblocks.mem_iff.mp hb)
  · intro q hq
    exact (hblocks.map _).mem_iff.mpr (h.blocks q hq)
  · exact (hblocks.map _).nodup_iff.mpr h.nodup
  · intro b hb
    exact h.nonnull b (hblocks.mem_iff.mp hb)

/-- **An entry is taken out**, wherever in the ring it is, with its frame. -/
theorem del (h : Holds mem (xs ++ e :: ys) lost) :
    ∃ mem', heapListDel e.node mem = some mem' ∧ Holds mem' (xs ++ ys) lost := by
  have hes : (xs ++ e :: ys).Perm (e :: (xs ++ ys)) := List.perm_middle
  have hring := h.ring
  rw [List.map_append, List.map_cons] at hring
  obtain ⟨links, hlinks, hring', hmap⟩ := hring.listDel listPoison1 listPoison2
  rw [← List.map_append] at hring'
  have hblocks : (blocksOf (xs ++ e :: ys) lost).Perm
      ((e.data, e.ptr.sendData) :: blocksOf (xs ++ ys) lost) :=
    (hes.map _).append_right lost
  have hdata : (e.data, e.ptr.sendData) ∈ blocksOf (xs ++ e :: ys) lost :=
    hblocks.mem_iff.mpr List.mem_cons_self
  have hnodes : (e.node :: ecbListResend :: (xs ++ ys).map (·.node)).Nodup :=
    (((hes.map _).cons _).trans (List.Perm.swap _ _ _)).nodup_iff.mp h.ring.nodup
  obtain ⟨hnode, -⟩ := List.nodup_cons.mp hnodes
  obtain ⟨hne, hnodup⟩ := List.nodup_cons.mp ((hblocks.map _).nodup_iff.mp h.nodup)
  refine ⟨{ links := Function.update links e.node none
            nodes := Function.update mem.nodes e.node none
            blocks := Function.update mem.blocks e.data none }, ?_, ⟨?_, ?_, ?_, ?_, ?_, ?_, hnodup, ?_⟩⟩
  · have hfree : e.content.sendData ≠ 0 := h.nonnull _ hdata
    have hblock : mem.blocks e.content.sendData = some e.ptr.sendData := h.block _ hdata
    simp only [heapListDel, hlinks, h.node e (hes.mem_iff.mpr List.mem_cons_self),
      Option.bind_eq_bind, Option.bind_some, if_pos hfree, Mem.freeBlock, Mem.freeNode, hblock,
      Option.map_some]
    rfl
  · refine hring'.congr ?_
    intro x hx
    have hxe : x ≠ e.node := fun heq => hnode (heq ▸ hx)
    exact Function.update_of_ne hxe _ _
  · intro p hp
    obtain ⟨hpe, hp⟩ := isSome_update_none.mp hp
    refine (h.links p ((hmap p).mp hp)).imp_right ?_
    intro hmem
    exact (List.mem_cons.mp ((hes.map _).mem_iff.mp hmem)).resolve_left hpe
  · intro e' he'
    have hne' : e'.node ≠ e.node := by
      intro heq
      exact hnode (heq ▸ List.mem_cons_of_mem _ (List.mem_map_of_mem he'))
    refine (Function.update_of_ne hne' _ _).trans (h.node e' ?_)
    exact hes.mem_iff.mpr (List.mem_cons_of_mem _ he')
  · intro p hp
    obtain ⟨hpe, hp⟩ := isSome_update_none.mp hp
    exact (List.mem_cons.mp ((hes.map _).mem_iff.mp (h.nodes p hp))).resolve_left hpe
  · intro b hb
    have hbe : b.1 ≠ e.data := fun heq => hne (List.mem_map.mpr ⟨b, hb, heq⟩)
    refine (Function.update_of_ne hbe _ _).trans (h.block b ?_)
    exact hblocks.mem_iff.mpr (List.mem_cons_of_mem _ hb)
  · intro p hp
    obtain ⟨hpe, hp⟩ := isSome_update_none.mp hp
    exact (List.mem_cons.mp ((hblocks.map _).mem_iff.mp (h.blocks p hp))).resolve_left hpe
  · intro b hb
    exact h.nonnull b (hblocks.mem_iff.mpr (List.mem_cons_of_mem _ hb))

/-- An entry is written again in its place. -/
theorem rewrite (h : Holds mem (xs ++ e :: ys) lost) (ptr : UartResend)
    (hdata : ptr.sendData = e.ptr.sendData) :
    Holds { mem with nodes :=
        Function.update mem.nodes e.node (some (Placed.mk e.node e.data ptr).content) }
      (xs ++ { e with ptr := ptr } :: ys) lost := by
  have hnodes : (xs ++ { e with ptr := ptr } :: ys).map (·.node) =
      (xs ++ e :: ys).map (·.node) := by
    simp only [List.map_append, List.map_cons]
  have hblocks : blocksOf (xs ++ { e with ptr := ptr } :: ys) lost =
      blocksOf (xs ++ e :: ys) lost := by
    simp only [blocksOf, List.map_append, List.map_cons, hdata]
  have hes : (xs ++ e :: ys).Perm (e :: (xs ++ ys)) := List.perm_middle
  have hfresh : e.node ∉ (xs ++ ys).map (·.node) :=
    (List.nodup_cons.mp ((hes.map _).nodup_iff.mp (List.nodup_cons.mp h.ring.nodup).2)).1
  refine ⟨?_, ?_, ?_, ?_, ?_, ?_, ?_, ?_⟩
  · rw [hnodes]
    exact h.ring
  · rw [hnodes]
    exact h.links
  · intro e' he'
    have he'' : e' ∈ { e with ptr := ptr } :: (xs ++ ys) := List.perm_middle.mem_iff.mp he'
    rcases List.mem_cons.mp he'' with rfl | hmem
    · exact Function.update_self _ _ _
    · have hne : e'.node ≠ e.node := fun heq => hfresh (List.mem_map.mpr ⟨e', hmem, heq⟩)
      refine (Function.update_of_ne hne _ _).trans (h.node e' ?_)
      exact hes.mem_iff.mpr (List.mem_cons_of_mem _ hmem)
  · intro p hp
    rw [hnodes]
    rcases isSome_update_some.mp hp with rfl | hp
    · exact List.mem_map_of_mem (hes.mem_iff.mpr List.mem_cons_self)
    · exact h.nodes p hp
  · rw [hblocks]
    exact h.block
  · rw [hblocks]
    exact h.blocks
  · rw [hblocks]
    exact h.nodup
  · rw [hblocks]
    exact h.nonnull

end Holds

/-! ## The walks -/

/-- What a write puts on the line, and when. -/
def UartWrite.line (w : UartWrite) : Nat × List UInt8 := (w.tick, w.data)

/-- What a turn of `resend_list_each` leaves of an entry. -/
def Placed.turn (currentTick : Nat) (e : Placed) : List Placed :=
  if (resendTurn currentTick e.ptr).1.resendCnt = 0 then []
  else [{ e with ptr := (resendTurn currentTick e.ptr).1 }]

theorem map_ptr_turn (currentTick : Nat) (es : List Placed) :
    (es.flatMap (Placed.turn currentTick)).map (·.ptr) =
      (resendListEach currentTick (es.map (·.ptr))).1 := by
  induction es with
  | nil => rfl
  | cons e es ih =>
      rw [List.flatMap_cons, List.map_append, ih, List.map_cons, resendListEach, Placed.turn]
      split
      · rfl
      · rfl

theorem length_turn (currentTick : Nat) (es : List Placed) :
    (es.flatMap (Placed.turn currentTick)).length ≤ es.length := by
  induction es with
  | nil => exact le_refl _
  | cons e es ih =>
      have hturn : (e.turn currentTick).length ≤ 1 := by
        rw [Placed.turn]
        split
        · exact Nat.zero_le 1
        · exact le_refl 1
      rw [List.flatMap_cons, List.length_append, List.length_cons]
      omega

theorem map_line_resendListEach (currentTick : Nat) (es : List Placed) :
    (resendListEach currentTick (es.map (·.ptr))).2.map UartWrite.line =
      es.flatMap fun e => (resendTurn currentTick e.ptr).2.map UartWrite.line := by
  rw [resendListEach_writes, List.flatMap_map, List.map_flatMap]

/-- Where a walk stands that still has `es` before it. -/
def cursor (es : List Placed) : Addr := (es.map (·.node)).headD ecbListResend

namespace Holds

variable {mem : Mem} {es xs ys : List Placed} {e : Placed} {lost : List (Addr × List UInt8)}

theorem head (h : Holds mem es lost) :
    ∃ link, mem.links ecbListResend = some link ∧ link.next = cursor es :=
  Option.map_eq_some_iff.mp h.ring.next_head

theorem next (h : Holds mem (xs ++ e :: ys) lost) :
    ∃ link, mem.links e.node = some link ∧ link.next = cursor ys := by
  have hring := h.ring
  rw [List.map_append, List.map_cons] at hring
  exact Option.map_eq_some_iff.mp hring.next

theorem node_ne (h : Holds mem es lost) (he : e ∈ es) : e.node ≠ ecbListResend :=
  h.ring.ne_head (List.mem_map_of_mem he)

/-- The pointer of the next turn can be read, and points at the turn after it. -/
theorem cursor (h : Holds mem (xs ++ ys) lost) :
    ∃ link, mem.links (cursor ys) = some link ∧ (ys ≠ [] → link.next = X50.cursor ys.tail) := by
  cases ys with
  | nil =>
      obtain ⟨link, hlink, -⟩ := h.head
      exact ⟨link, hlink, fun hne => absurd rfl hne⟩
  | cons e ys =>
      obtain ⟨link, hlink, hnext⟩ := h.next
      exact ⟨link, hlink, fun _ => hnext⟩

/-- The walk of `resend_list_get_by_id`. -/
theorem getByIdLoop (h : Holds mem (xs ++ ys) lost) (resendSeqId : Nat) {turns : Nat}
    (hturns : ys.length < turns) :
    heapGetByIdLoop resendSeqId mem turns (X50.cursor ys) =
      some ((ys.find? fun e => e.ptr.resendSeqId == resendSeqId).map (·.node)) := by
  induction ys generalizing xs turns with
  | nil =>
      obtain ⟨turns, rfl⟩ := Nat.exists_eq_succ_of_ne_zero (Nat.ne_of_gt hturns)
      have hend : X50.cursor [] = ecbListResend := rfl
      rw [heapGetByIdLoop, if_pos hend]
      rfl
  | cons e ys ih =>
      obtain ⟨turns, rfl⟩ := Nat.exists_eq_succ_of_ne_zero (Nat.ne_of_gt (Nat.zero_lt_of_lt hturns))
      have he : e ∈ xs ++ e :: ys := List.mem_append_right _ List.mem_cons_self
      have hne : X50.cursor (e :: ys) ≠ ecbListResend := h.node_ne he
      have hnode : mem.nodes (X50.cursor (e :: ys)) = some e.content := h.node e he
      obtain ⟨link, hlink, hnext⟩ := h.next
      have hlink' : mem.links (X50.cursor (e :: ys)) = some link := hlink
      rw [heapGetByIdLoop, if_neg hne, hnode, Option.bind_eq_bind, Option.bind_some]
      by_cases hseq : e.content.resendSeqId = resendSeqId
      · rw [if_pos hseq, List.find?_cons_of_pos]
        · rfl
        · exact beq_iff_eq.mpr hseq
      · have hrest : Holds mem (xs ++ [e] ++ ys) lost := by
          rw [List.append_assoc]
          exact h
        rw [if_neg hseq, hlink', Option.bind_eq_bind, Option.bind_some, hnext, ih hrest (Nat.lt_of_succ_lt_succ hturns),
          List.find?_cons_of_neg]
        exact fun hb => hseq (beq_iff_eq.mp hb)

/-- **`resend_list_del_by_id`**: the first entry with the sequence number goes. -/
theorem delById (h : Holds mem es lost) (resendSeqId : Nat) {turns : Nat}
    (hturns : es.length < turns) :
    ∃ mem' es', heapDelById turns resendSeqId mem = some mem' ∧ Holds mem' es' lost ∧
      es'.map (·.ptr) = resendListDelById resendSeqId (es.map (·.ptr)) ∧
      es'.length ≤ es.length := by
  let named : Placed → Bool := fun e => e.ptr.resendSeqId == resendSeqId
  obtain ⟨link, hlink, hnext⟩ := h.head
  have hfound : heapGetById turns resendSeqId mem = some ((es.find? named).map (·.node)) := by
    rw [heapGetById, hlink, Option.bind_eq_bind, Option.bind_some, hnext]
    have hall : Holds mem ([] ++ es) lost := h
    exact hall.getByIdLoop resendSeqId hturns
  have hmap : (es.eraseP named).map (·.ptr) = resendListDelById resendSeqId (es.map (·.ptr)) := by
    rw [resendListDelById, List.eraseP_map]
    rfl
  rcases List.exists_or_eq_self_of_eraseP named es with hself | ⟨e, xs, ys, hxs, he, rfl, herase⟩
  · have hnone : es.find? named = none := by
      refine List.find?_eq_none.mpr ?_
      intro e he hn
      exact absurd (List.length_eraseP_of_mem he hn) (by
        rw [hself]
        have := List.length_pos_of_mem he
        omega)
    refine ⟨mem, es, ?_, h, ?_, le_refl _⟩
    · rw [heapDelById, hfound, hnone]
      rfl
    · rw [← hmap, hself]
  · have hsome : (xs ++ e :: ys).find? named = some e := by
      rw [List.find?_append, List.find?_eq_none.mpr hxs, List.find?_cons_of_pos he]
      rfl
    obtain ⟨mem', hdel, hholds⟩ := h.del
    refine ⟨mem', xs ++ ys, ?_, hholds, ?_, ?_⟩
    · rw [heapDelById, hfound, hsome]
      exact hdel
    · rw [← hmap, herase]
    · rw [List.length_append, List.length_append, List.length_cons]
      omega

/-- The first half of a turn. -/
theorem resend (h : Holds mem (xs ++ e :: ys) lost) (currentTick : Nat) :
    ∃ mem', heapResend currentTick e.node mem =
        some (mem', (resendTurn currentTick e.ptr).2.map UartWrite.line) ∧
      Holds mem' (xs ++ { e with ptr := (resendTurn currentTick e.ptr).1 } :: ys) lost := by
  have he : e ∈ xs ++ e :: ys := List.mem_append_right _ List.mem_cons_self
  have hnode : mem.nodes e.node = some e.content := h.node e he
  by_cases hdue : Due currentTick e.ptr
  · have hcond : e.content.resendCnt ≠ 0 ∧
        resendTickCompare currentTick e.content.waitTick = true :=
      ⟨hdue.1, decide_eq_true hdue.2⟩
    have hread : mem.readBlock e.content.sendData e.content.sendLen = some e.ptr.sendData :=
      h.readBlock (b := (e.data, e.ptr.sendData))
        (List.mem_append_left _ (List.mem_map.mpr ⟨e, he, rfl⟩))
    rw [resendTurn_due hdue]
    refine ⟨_, ?_, h.rewrite { e.ptr with
      waitTick := currentTick + resendWaitTick
      resendCnt := e.ptr.resendCnt - 1 } rfl⟩
    rw [heapResend, hnode, Option.bind_eq_bind, Option.bind_some, if_pos hcond, hread]
    rfl
  · have hcond : ¬ (e.content.resendCnt ≠ 0 ∧
        resendTickCompare currentTick e.content.waitTick = true) :=
      fun hc => hdue ⟨hc.1, of_decide_eq_true hc.2⟩
    rw [resendTurn_not_due hdue]
    refine ⟨mem, ?_, h⟩
    rw [heapResend, hnode, Option.bind_eq_bind, Option.bind_some, if_neg hcond]
    rfl

/-- **A turn** frees the entry it has written for the last time. -/
theorem turn (h : Holds mem (xs ++ e :: ys) lost) (currentTick : Nat) :
    ∃ mem', heapTurn currentTick e.node mem =
        some (mem', (resendTurn currentTick e.ptr).2.map UartWrite.line) ∧
      Holds mem' (xs ++ (e.turn currentTick ++ ys)) lost := by
  obtain ⟨mem₁, hresend, h₁⟩ := h.resend currentTick
  have hnode : mem₁.nodes e.node =
      some (Placed.content { e with ptr := (resendTurn currentTick e.ptr).1 }) :=
    h₁.node { e with ptr := (resendTurn currentTick e.ptr).1 }
      (List.mem_append_right _ List.mem_cons_self)
  by_cases hcnt : (resendTurn currentTick e.ptr).1.resendCnt = 0
  · obtain ⟨mem', hdel, h'⟩ := h₁.del
    refine ⟨mem', ?_, ?_⟩
    · simp only [heapTurn, hresend, hnode, Option.bind_eq_bind, Option.bind_some, Placed.content,
        if_pos hcnt]
      rw [show heapListDel e.node mem₁ = some mem' from hdel]
      rfl
    · rw [Placed.turn, if_pos hcnt, List.nil_append]
      exact h'
  · refine ⟨mem₁, ?_, ?_⟩
    · simp only [heapTurn, hresend, hnode, Option.bind_eq_bind, Option.bind_some, Placed.content,
        if_neg hcnt]
    · rw [Placed.turn, if_neg hcnt]
      exact h₁

/-- The walk of `resend_list_each`. -/
theorem eachLoop (h : Holds mem (xs ++ ys) lost) (currentTick : Nat) {turns : Nat} {next : Addr}
    (hturns : ys.length < turns) (hnext : ys ≠ [] → next = X50.cursor ys.tail) :
    ∃ mem', heapEachLoop currentTick turns (X50.cursor ys) next mem =
        some (mem', ys.flatMap fun e => (resendTurn currentTick e.ptr).2.map UartWrite.line) ∧
      Holds mem' (xs ++ ys.flatMap (Placed.turn currentTick)) lost := by
  induction ys generalizing xs turns next mem with
  | nil =>
      obtain ⟨turns, rfl⟩ := Nat.exists_eq_succ_of_ne_zero (Nat.ne_of_gt hturns)
      have hend : X50.cursor [] = ecbListResend := rfl
      refine ⟨mem, ?_, h⟩
      rw [heapEachLoop, if_pos hend]
      rfl
  | cons e ys ih =>
      obtain ⟨turns, rfl⟩ := Nat.exists_eq_succ_of_ne_zero (Nat.ne_of_gt (Nat.zero_lt_of_lt hturns))
      have hne : X50.cursor (e :: ys) ≠ ecbListResend :=
        h.node_ne (List.mem_append_right _ List.mem_cons_self)
      obtain ⟨mem₁, hturn, h₁⟩ := h.turn currentTick
      rw [← List.append_assoc] at h₁
      obtain ⟨link, hlink, hlinknext⟩ := h₁.cursor
      obtain ⟨mem', hloop, h'⟩ := ih h₁ (Nat.lt_of_succ_lt_succ hturns) hlinknext
      refine ⟨mem', ?_, ?_⟩
      · have hturn' : heapTurn currentTick (X50.cursor (e :: ys)) mem = _ := hturn
        obtain rfl : next = X50.cursor ys := hnext (List.cons_ne_nil e ys)
        rw [heapEachLoop, if_neg hne]
        simp only [hturn', hlink, hloop, Option.bind_eq_bind, Option.bind_some,
          List.flatMap_cons]
      · rw [List.flatMap_cons, ← List.append_assoc]
        exact h'

/-- **`resend_list_each`** -/
theorem each (h : Holds mem es lost) (currentTick : Nat) {turns : Nat}
    (hturns : es.length < turns) :
    ∃ mem' es', heapListEach turns currentTick mem =
        some (mem', (resendListEach currentTick (es.map (·.ptr))).2.map UartWrite.line) ∧
      Holds mem' es' lost ∧
      es'.map (·.ptr) = (resendListEach currentTick (es.map (·.ptr))).1 ∧
      es'.length ≤ es.length := by
  obtain ⟨head, hhead, hheadnext⟩ := h.head
  have hall : Holds mem ([] ++ es) lost := h
  obtain ⟨link, hlink, hnext⟩ := hall.cursor
  obtain ⟨mem', hloop, h'⟩ := hall.eachLoop currentTick hturns hnext
  refine ⟨mem', es.flatMap (Placed.turn currentTick), ?_, h', ?_, ?_⟩
  · rw [heapListEach, hhead, Option.bind_eq_bind, Option.bind_some, hheadnext, hlink,
      Option.bind_some, hloop, map_line_resendListEach]
  · exact map_ptr_turn currentTick es
  · exact length_turn currentTick es

end Holds

/-! ## Steps -/

/-- The queue in memory is the queue. -/
def Refines (s : ResendHeap) (t : ResendState) : Prop :=
  ∃ es lost, Holds s.mem es lost ∧ es.map (·.ptr) = t.list ∧ es.length < s.turns ∧
    s.ecbSeqId = t.ecbSeqId ∧ s.writes = t.writes.map UartWrite.line ∧ lost.map (·.2) = s.unkept

section Steps

variable {s : ResendHeap} {t : ResendState}

theorem Mem.Unused.of_mallocBlock {mem mem' : Mem} {p q : Addr} {data : List UInt8}
    (h : mem.Unused p) (hne : p ≠ q) (hmem : mem.mallocBlock q data = some mem') :
    mem'.Unused p := by
  rw [Mem.mallocBlock] at hmem
  split at hmem
  · cases hmem
  · obtain rfl := Option.some.inj hmem
    exact ⟨h.1, h.2.1, h.2.2.1, (Function.update_of_ne hne _ _).trans h.2.2.2⟩

theorem refines_send (h : Refines s t) (command : UInt8) (msg : List UInt8) (resend : Bool)
    (now : Nat) {sendMsg node : Addr} (hsendMsg : s.mem.Unused sendMsg)
    (hnode : s.mem.Unused node) (hne : node ≠ sendMsg) :
    ∃ s', s.send command msg resend now sendMsg node = some s' ∧
      Refines s' (t.send command msg resend now) := by
  obtain ⟨es, lost, hholds, hlist, hturns, hseq, hwrites, hlost⟩ := h
  obtain ⟨sent, hsent⟩ : ∃ sent, ecbUartSendMsg command msg (-1) s.ecbSeqId = sent := ⟨_, rfl⟩
  have hsent' : ecbUartSendMsg command msg (-1) t.ecbSeqId = sent := hseq ▸ hsent
  obtain ⟨mem₁, hmalloc, h₁, -, -⟩ := hholds.mallocBlock hsendMsg sent.1
  have hread : mem₁.readBlock sendMsg sent.1.length = some sent.1 :=
    h₁.readBlock (b := (sendMsg, sent.1))
      (List.mem_append_right _ (List.mem_append_right _ List.mem_cons_self))
  cases resend with
  | false =>
      refine ⟨{ s with
          mem := mem₁
          ecbSeqId := sent.2
          writes := s.writes ++ [(now, sent.1)]
          unkept := s.unkept ++ [sent.1] }, ?_,
        es, lost ++ [(sendMsg, sent.1)], h₁, hlist, hturns, ?_, ?_, ?_⟩
      · simp only [ResendHeap.send, hsent, hmalloc, hread, Option.bind_eq_bind, Option.bind_some]
        rfl
      · show sent.2 = (ecbUartSendMsg command msg (-1) t.ecbSeqId).2
        rw [hsent']
      · show s.writes ++ [(now, sent.1)] = _
        rw [ResendState.send, hsent', List.map_append, ← hwrites]
        rfl
      · rw [List.map_append, hlost]
        rfl
  | true =>
      obtain ⟨mem₂, mem₃, hnew, hadd, h₃⟩ := Holds.add
        { resendCnt := resendCnt, sendData := sent.1, resendSeqId := seqIdOf sent.1,
          waitTick := resendTickSet now resendWaitTick, frame := t.sends }
        h₁ (hnode.of_mallocBlock hne hmalloc)
      have hnew' : mem₁.mallocNode node
          { resendCnt := resendCnt, sendData := sendMsg, resendSeqId := seqIdOf sent.1,
            sendLen := sent.1.length, waitTick := resendTickSet now resendWaitTick } = some mem₂ :=
        hnew
      refine ⟨{ s with
          mem := mem₃
          ecbSeqId := sent.2
          turns := s.turns + 1
          writes := s.writes ++ [(now, sent.1)] }, ?_,
        _, lost, h₃, ?_, Nat.succ_lt_succ hturns, ?_, ?_, hlost⟩
      · simp only [ResendHeap.send, hsent, hmalloc, hread, hnew', hadd, Option.bind_eq_bind,
          Option.bind_some, if_true]
      · rw [List.map_cons, hlist, ResendState.send, hsent']
        rfl
      · show sent.2 = (ecbUartSendMsg command msg (-1) t.ecbSeqId).2
        rw [hsent']
      · show s.writes ++ [(now, sent.1)] = _
        rw [ResendState.send, hsent', List.map_append, ← hwrites]
        rfl

theorem refines_timeout (h : Refines s t) (now : Nat) :
    ∃ s', s.timeout now = some s' ∧ Refines s' (t.timeout now) := by
  obtain ⟨es, lost, hholds, hlist, hturns, hseq, hwrites, hlost⟩ := h
  obtain ⟨mem', es', heach, h', hes', hle⟩ := hholds.each now hturns
  rw [hlist] at heach hes'
  refine ⟨{ s with
      mem := mem'
      writes := s.writes ++ (resendListEach now t.list).2.map UartWrite.line }, ?_,
    es', lost, h', hes', Nat.lt_of_le_of_lt hle hturns, hseq, ?_, hlost⟩
  · simp only [ResendHeap.timeout, heach, Option.bind_eq_bind, Option.bind_some]
  · show s.writes ++ _ = _
    rw [ResendState.timeout, List.map_append, ← hwrites]

theorem refines_answer (h : Refines s t) (command : UInt8) (msg : List UInt8) (seqId : UInt16)
    {sendMsg : Addr} (hsendMsg : s.mem.Unused sendMsg) :
    ∃ s', s.answer command msg seqId sendMsg = some s' ∧ Refines s' t := by
  obtain ⟨es, lost, hholds, hlist, hturns, hseq, hwrites, hlost⟩ := h
  have hsent : (ecbUartSendMsg command msg seqId.toNat s.ecbSeqId).2 = s.ecbSeqId := by
    rw [ecbUartSendMsg, if_neg (by omega)]
  obtain ⟨mem₁, hmalloc, h₁, -, -⟩ :=
    hholds.mallocBlock hsendMsg (ecbUartSendMsg command msg seqId.toNat s.ecbSeqId).1
  have hread := h₁.readBlock
    (b := (sendMsg, (ecbUartSendMsg command msg seqId.toNat s.ecbSeqId).1))
    (List.mem_append_right _ (List.mem_append_right _ List.mem_cons_self))
  refine ⟨{ s with
      mem := mem₁
      ecbSeqId := (ecbUartSendMsg command msg seqId.toNat s.ecbSeqId).2
      unkept := s.unkept ++ [(ecbUartSendMsg command msg seqId.toNat s.ecbSeqId).1] }, ?_,
    es, _, h₁, hlist, hturns, hsent.trans hseq, hwrites, ?_⟩
  · simp only [ResendHeap.answer, hmalloc, hread, Option.bind_eq_bind, Option.bind_some]
  · rw [List.map_append, hlost]
    rfl

theorem refines_delById (h : Refines s t) (seqId : Nat) :
    ∃ mem', heapDelById s.turns seqId s.mem = some mem' ∧
      Refines { s with mem := mem' } { t with list := resendListDelById seqId t.list } := by
  obtain ⟨es, lost, hholds, hlist, hturns, hseq, hwrites, hlost⟩ := h
  obtain ⟨mem', es', hdel, h', hes', hle⟩ := hholds.delById seqId hturns
  rw [hlist] at hes'
  exact ⟨mem', hdel, es', lost, h', hes', Nat.lt_of_le_of_lt hle hturns, hseq, hwrites, hlost⟩

end Steps

/-- An action that has nothing to do with the queue or with `malloc`. -/
def EcbAction.Idle (a : EcbAction) : Prop :=
  a.deletes = none ∧ ∀ sendMsg s, ResendHeap.act sendMsg s a = some s

theorem foldlM_idle {as : List EcbAction} (h : ∀ a ∈ as, a.Idle) (sendMsg : Addr)
    (s : ResendHeap) : as.foldlM (ResendHeap.act sendMsg) s = some s := by
  induction as with
  | nil => rfl
  | cons a as ih =>
      rw [List.foldlM_cons, (h a List.mem_cons_self).2, Option.bind_eq_bind, Option.bind_some]
      exact ih fun b hb => h b (List.mem_cons_of_mem _ hb)

/-- Of the actions for an event one at most is not idle. -/
theorem actions_shape (event : EcbEvent) :
    ∃ pre a post, event.actions = pre ++ a :: post ∧ (∀ b ∈ pre, b.Idle) ∧ ∀ b ∈ post, b.Idle := by
  have hnone : ∀ b ∈ ([] : List EcbAction), b.Idle := by
    intro b hb
    cases hb
  have hone : ∀ {a : EcbAction}, a.Idle → ∀ b ∈ [a], b.Idle := by
    intro a ha b hb
    rwa [List.mem_singleton.mp hb]
  cases event with
  | nakTailer seqId => exact ⟨[], _, [], rfl, hnone, hnone⟩
  | dispatch m next =>
      simp only [EcbEvent.actions]
      split
      · exact ⟨[], _, _, rfl, hnone, hone ⟨rfl, fun _ _ => rfl⟩⟩
      · split
        · refine ⟨[], _, _, rfl, hnone, ?_⟩
          intro b hb
          obtain ⟨value, -, rfl⟩ := List.mem_map.mp hb
          exact ⟨rfl, fun _ _ => rfl⟩
        · split
          · exact ⟨[.heart], _, [], rfl, hone ⟨rfl, fun _ _ => rfl⟩, hnone⟩
          · split
            · exact ⟨[.getAck], _, [], rfl, hone ⟨rfl, fun _ _ => rfl⟩, hnone⟩
            · split
              · exact ⟨[], _, [], rfl, hnone, hnone⟩
              · exact ⟨[], _, [], rfl, hnone, hnone⟩

theorem filterMap_idle {as : List EcbAction} (h : ∀ a ∈ as, a.Idle) :
    as.filterMap EcbAction.deletes = [] :=
  List.filterMap_eq_nil_iff.mpr fun a ha => (h a ha).1

theorem refines_recv {s : ResendHeap} {t : ResendState} (h : Refines s t) (event : EcbEvent)
    {sendMsg : Addr} (hsendMsg : s.mem.Unused sendMsg) :
    ∃ s', s.recv event sendMsg = some s' ∧ Refines s' (t.recv event) := by
  obtain ⟨pre, a, post, hactions, hpre, hpost⟩ := actions_shape event
  have hheap : s.recv event sendMsg = ResendHeap.act sendMsg s a := by
    rw [ResendHeap.recv, hactions, List.foldlM_append, foldlM_idle hpre, Option.bind_eq_bind,
      Option.bind_some, List.foldlM_cons]
    cases ResendHeap.act sendMsg s a with
    | none => rfl
    | some s' => exact foldlM_idle hpost sendMsg s'
  have hlist : t.recv event = { t with
      list := a.deletes.elim t.list fun seqId => resendListDelById seqId t.list } := by
    rw [ResendState.recv, hactions, List.filterMap_append, List.filterMap_cons,
      filterMap_idle hpre, filterMap_idle hpost]
    cases a.deletes with
    | none => rfl
    | some seqId => rfl
  rw [hheap, hlist]
  cases a with
  | sendAck seqId => exact refines_answer h _ _ _ hsendMsg
  | sendNak errorCode seqId => exact refines_answer h _ _ _ hsendMsg
  | resendListDelById seqId =>
      obtain ⟨mem', hdel, h'⟩ := refines_delById h seqId.toNat
      exact ⟨{ s with mem := mem' }, by rw [ResendHeap.act, hdel, Option.map_some], h'⟩
  | sendDataToCloud payload next => exact ⟨s, rfl, h⟩
  | keypressLocalPro value => exact ⟨s, rfl, h⟩
  | heart => exact ⟨s, rfl, h⟩
  | getAck => exact ⟨s, rfl, h⟩

/-! ## Runs -/

theorem refines_init (ecbSeqId : UInt16) : Refines (.init ecbSeqId) (.init ecbSeqId) :=
  ⟨[], [], holds_init, rfl, Nat.zero_lt_one, rfl, rfl, rfl⟩

theorem refines_step (s : ResendHeap) (t : ResendState) (act : HeapAct) (hallows : s.Allows act)
    (h : Refines s t) :
    ∃ s' t', resendHeapMachine.step s act = some s' ∧ resendMachine.step t act.act = some t' ∧
      Refines s' t' := by
  cases act with
  | send command msg resend now sendMsg node =>
      obtain ⟨s', hs', h'⟩ :=
        refines_send h command msg resend now hallows.1 hallows.2.1 hallows.2.2
      exact ⟨s', _, hs', rfl, h'⟩
  | recv event sendMsg =>
      obtain ⟨s', hs', h'⟩ := refines_recv h event hallows
      exact ⟨s', _, hs', rfl, h'⟩
  | timeout now =>
      obtain ⟨s', hs', h'⟩ := refines_timeout h now
      exact ⟨s', _, hs', rfl, h'⟩

/-- **The queue in memory is the queue**, over any run: no access is undefined, and
the link sees what it would see of a list. -/
theorem resendHeap_refines {ecbSeqId : UInt16} {acts : List HeapAct}
    (h : resendHeapMachine.Grants ResendHeap.Allows (.init ecbSeqId) acts) :
    ∃ s t, resendHeapMachine.run (.init ecbSeqId) acts = some s ∧
      resendMachine.run (.init ecbSeqId) (acts.map HeapAct.act) = some t ∧
      s.ecbSeqId = t.ecbSeqId ∧ s.writes = t.writes.map UartWrite.line ∧
      ∃ es lost, Holds s.mem es lost ∧ es.map (·.ptr) = t.list := by
  obtain ⟨s, t, hs, ht, es, lost, hholds, hlist, -, hseq, hwrites, -⟩ :=
    Machine.simulation refines_step h (refines_init ecbSeqId)
  exact ⟨s, t, hs, ht, hseq, hwrites, es, lost, hholds, hlist⟩

/-- A run with a frame that is resent and answered, and one that is not resent;
`malloc` gives the memory of the first one out again. -/
def heapRun : List HeapAct :=
  [.send 0x02 [0x31, 0x01] true 0 8 16, .send 0x01 [] false 10 24 32, .timeout 500,
    .recv (.dispatch ⟨0x0e, 0, []⟩ []) 40, .send 0x02 [0x31, 0x02] true 600 16 8,
    .recv (.dispatch ⟨0x0c, 7, []⟩ []) 48, .timeout 1100, .timeout 1600]

theorem resendHeap_refines_run :
    ∃ s t, resendHeapMachine.run (.init 0) heapRun = some s ∧
      resendMachine.run (.init 0) (heapRun.map HeapAct.act) = some t ∧
      s.ecbSeqId = t.ecbSeqId ∧ s.writes = t.writes.map UartWrite.line ∧
      ∃ es lost, Holds s.mem es lost ∧ es.map (·.ptr) = t.list :=
  resendHeap_refines (by decide +kernel)

/-! ## The memory that is lost -/

/-- The bytes of the frames that are not kept. -/
def ResendHeap.unkeptLen (s : ResendHeap) : Nat := (s.unkept.map List.length).sum

theorem length_ecbUartSendMsg (command : UInt8) (msg : List UInt8) (seqId : Int)
    (ecbSeqId : UInt16) :
    (ecbUartSendMsg command msg seqId ecbSeqId).1.length = ecbMsgMinLen + msg.length := by
  have hframe : ∀ n, (ecbFrame command msg n).length = ecbMsgMinLen + msg.length := by
    intro n
    simp only [ecbFrame, List.length_append, List.length_cons, List.length_nil, ecbMsgMinLen]
    omega
  rw [ecbUartSendMsg]
  split
  · exact hframe _
  · exact hframe _

theorem length_of_readBlock {mem : Mem} {p n : Nat} {data : List UInt8}
    (h : mem.readBlock p n = some data) : data.length = n := by
  obtain ⟨block, -, hread⟩ := Option.bind_eq_some_iff.mp h
  split at hread
  · rename_i hle
    obtain rfl := Option.some.inj hread
    exact List.length_take_of_le hle
  · cases hread

theorem unkeptLen_append (s : ResendHeap) (data : List UInt8) :
    ((s.unkept ++ [data]).map List.length).sum = s.unkeptLen + data.length := by
  rw [List.map_append, List.sum_append, ResendHeap.unkeptLen, List.map_singleton,
    List.sum_singleton]

theorem unkeptLen_answer {s s' : ResendHeap} {command : UInt8} {msg : List UInt8}
    {seqId : UInt16} {sendMsg : Addr} (h : s.answer command msg seqId sendMsg = some s') :
    s'.unkeptLen = s.unkeptLen + (ecbMsgMinLen + msg.length) := by
  simp only [ResendHeap.answer, Option.bind_eq_bind, Option.bind_eq_some_iff] at h
  obtain ⟨mem, -, data, hread, hs⟩ := h
  obtain rfl := Option.some.inj hs
  rw [← length_ecbUartSendMsg command msg seqId.toNat s.ecbSeqId, ← length_of_readBlock hread]
  exact unkeptLen_append s data

theorem unkeptLen_act {s s' : ResendHeap} {sendMsg : Addr} {a : EcbAction}
    (h : ResendHeap.act sendMsg s a = some s') : s'.unkeptLen = s.unkeptLen + a.answerLen := by
  cases a with
  | sendAck seqId => exact unkeptLen_answer h
  | sendNak errorCode seqId => exact unkeptLen_answer h
  | resendListDelById seqId =>
      obtain ⟨mem, -, rfl⟩ := Option.map_eq_some_iff.mp h
      rfl
  | sendDataToCloud payload next =>
      obtain rfl := Option.some.inj h
      rfl
  | keypressLocalPro value =>
      obtain rfl := Option.some.inj h
      rfl
  | heart =>
      obtain rfl := Option.some.inj h
      rfl
  | getAck =>
      obtain rfl := Option.some.inj h
      rfl

theorem unkeptLen_recv {s s' : ResendHeap} {sendMsg : Addr} {as : List EcbAction}
    (h : as.foldlM (ResendHeap.act sendMsg) s = some s') :
    s'.unkeptLen = s.unkeptLen + (as.map EcbAction.answerLen).sum := by
  induction as generalizing s with
  | nil =>
      obtain rfl := Option.some.inj h
      rfl
  | cons a as ih =>
      rw [List.foldlM_cons, Option.bind_eq_bind, Option.bind_eq_some_iff] at h
      obtain ⟨t, ht, hs'⟩ := h
      rw [ih hs', unkeptLen_act ht, List.map_cons, List.sum_cons, Nat.add_assoc]

theorem unkeptLen_step (s : ResendHeap) (act : HeapAct) (s' : ResendHeap)
    (h : resendHeapMachine.step s act = some s') : s'.unkeptLen = s.unkeptLen + act.unkeptLen := by
  cases act with
  | send command msg resend now sendMsg node =>
      have h' : s.send command msg resend now sendMsg node = some s' := h
      simp only [ResendHeap.send, Option.bind_eq_bind, Option.bind_eq_some_iff] at h'
      obtain ⟨mem, -, data, hread, hs⟩ := h'
      cases resend with
      | false =>
          obtain rfl := Option.some.inj hs
          show _ = s.unkeptLen + (ecbMsgMinLen + msg.length)
          rw [← length_ecbUartSendMsg command msg (-1) s.ecbSeqId, ← length_of_readBlock hread]
          exact unkeptLen_append s data
      | true =>
          rw [if_pos rfl, Option.bind_eq_some_iff] at hs
          obtain ⟨mem₁, -, hs⟩ := hs
          obtain ⟨mem₂, -, hs⟩ := Option.bind_eq_some_iff.mp hs
          obtain rfl := Option.some.inj hs
          rfl
  | recv event sendMsg => exact unkeptLen_recv h
  | timeout now =>
      have h' : s.timeout now = some s' := h
      simp only [ResendHeap.timeout, Option.bind_eq_bind, Option.bind_eq_some_iff] at h'
      obtain ⟨out, -, hs⟩ := h'
      obtain rfl := Option.some.inj hs
      rfl

/-- **Only the queue's memory is ever freed.**  After any run the frames in memory
are those of the queue and, for ever, every frame that was sent without resending. -/
theorem resendHeap_lost {ecbSeqId : UInt16} {acts : List HeapAct}
    (h : resendHeapMachine.Grants ResendHeap.Allows (.init ecbSeqId) acts) :
    ∃ s t, resendHeapMachine.run (.init ecbSeqId) acts = some s ∧
      resendMachine.run (.init ecbSeqId) (acts.map HeapAct.act) = some t ∧
      ∃ (nodes : List Addr) (blocks : List (Addr × List UInt8)),
        nodes.Nodup ∧ (∀ p, (s.mem.nodes p).isSome ↔ p ∈ nodes) ∧
        nodes.length = t.list.length ∧
        (blocks.map (·.1)).Nodup ∧ (∀ p, (s.mem.blocks p).isSome ↔ p ∈ blocks.map (·.1)) ∧
        (∀ b ∈ blocks, s.mem.blocks b.1 = some b.2) ∧
        (blocks.map (·.2.length)).sum =
          (t.list.map (·.sendData.length)).sum + (acts.map HeapAct.unkeptLen).sum := by
  obtain ⟨s, t, hs, ht, es, lost, hholds, hlist, -, -, -, hlost⟩ :=
    Machine.simulation refines_step h (refines_init ecbSeqId)
  have hsize : s.unkeptLen = 0 + (acts.map HeapAct.unkeptLen).sum :=
    Machine.run_measure (M := resendHeapMachine) unkeptLen_step hs
  refine ⟨s, t, hs, ht, es.map (·.node), blocksOf es lost, ?_, ?_, ?_, hholds.nodup, ?_,
    hholds.block, ?_⟩
  · exact (List.nodup_cons.mp hholds.ring.nodup).2
  · intro p
    refine ⟨hholds.nodes p, ?_⟩
    intro hp
    obtain ⟨e, he, rfl⟩ := List.mem_map.mp hp
    rw [hholds.node e he]
    rfl
  · rw [← hlist, List.length_map, List.length_map]
  · intro p
    refine ⟨hholds.blocks p, ?_⟩
    intro hp
    obtain ⟨b, hb, rfl⟩ := List.mem_map.mp hp
    rw [hholds.block b hb]
    rfl
  · rw [blocksOf, List.map_append, List.sum_append, ← hlist, List.map_map, List.map_map]
    congr 1
    have hlens : lost.map (·.2.length) = s.unkept.map List.length := by
      rw [← hlost, List.map_map]
      rfl
    rw [hlens]
    exact hsize.trans (Nat.zero_add _)

theorem resendHeap_lost_run :
    ∃ s t, resendHeapMachine.run (.init 0) heapRun = some s ∧
      resendMachine.run (.init 0) (heapRun.map HeapAct.act) = some t ∧
      ∃ (nodes : List Addr) (blocks : List (Addr × List UInt8)),
        nodes.Nodup ∧ (∀ p, (s.mem.nodes p).isSome ↔ p ∈ nodes) ∧
        nodes.length = t.list.length ∧
        (blocks.map (·.1)).Nodup ∧ (∀ p, (s.mem.blocks p).isSome ↔ p ∈ blocks.map (·.1)) ∧
        (∀ b ∈ blocks, s.mem.blocks b.1 = some b.2) ∧
        (blocks.map (·.2.length)).sum = (t.list.map (·.sendData.length)).sum + 22 :=
  resendHeap_lost (by decide +kernel)

end X50
