/-
# `X50.ResendHeap` — the resend queue in memory

`X50.Resend` takes `ECB_LIST_RESEND` for a list.  In the program it is a ring of
`struct list_head`s inside nodes from `malloc`, each with a pointer to a frame
that is from `malloc` too (`uart/uart_resend.c`, `uart/ecb_uart.c`, `list.h`).
Here are the functions once more, at that level.

An access to memory that is not allocated, a second `free` and a write through
NULL are undefined.  What `malloc` returns comes with the action; it is an
address that is not in use (`Allows`).

A loop over the ring is given as many turns as there were nodes allocated since
the start.
-/
import X50.Resend
import X50.Lib.Ring
import X50.Lib.Simulation

namespace X50

open X50.Lib

/-! ## Memory -/

/-- An address; 0 is NULL. -/
abbrev Addr := Nat

/-- `&ECB_LIST_RESEND` -/
def ecbListResend : Addr := 4

/-- `LIST_POISON1` -/
def listPoison1 : Addr := 0x00100100

/-- `LIST_POISON2` -/
def listPoison2 : Addr := 0x00200200

/-- `uart_resend_t` but for its `node`, which has the same address. -/
structure ResendNode where
  resendCnt : Nat
  sendData : Addr
  resendSeqId : Nat
  sendLen : Nat
  waitTick : Nat
deriving DecidableEq, Repr

/-- What is allocated: the nodes with their links, and the frames. -/
structure Mem where
  links : Links Addr
  nodes : Addr → Option ResendNode
  blocks : Addr → Option (List UInt8)

namespace Mem

/-- The first `n` bytes of a block. -/
def readBlock (p : Addr) (n : Nat) (mem : Mem) : Option (List UInt8) :=
  (mem.blocks p).bind fun data => if n ≤ data.length then some (data.take n) else none

/-- `malloc` has returned `p`, and `data` is written there. -/
def mallocBlock (p : Addr) (data : List UInt8) (mem : Mem) : Option Mem :=
  if p = 0 then none else some { mem with blocks := Function.update mem.blocks p (some data) }

/-- `malloc` has returned `p`, and all but the link is written there. -/
def mallocNode (p : Addr) (node : ResendNode) (mem : Mem) : Option Mem :=
  if p = 0 then none
  else some { mem with
    links := Function.update mem.links p (some ⟨0, 0⟩)
    nodes := Function.update mem.nodes p (some node) }

def freeBlock (p : Addr) (mem : Mem) : Option Mem :=
  (mem.blocks p).map fun _ => { mem with blocks := Function.update mem.blocks p none }

def freeNode (p : Addr) (mem : Mem) : Option Mem :=
  (mem.nodes p).map fun _ =>
    { mem with
      links := Function.update mem.links p none
      nodes := Function.update mem.nodes p none }

end Mem

/-! ## `uart_resend.c` -/

section Functions

/-- `resend_list_init` on a memory without nodes. -/
def Mem.init : Mem where
  links := Function.update (fun _ => none) ecbListResend (some ⟨ecbListResend, ecbListResend⟩)
  nodes := fun _ => none
  blocks := fun _ => none

/-- `resend_list_add` -/
def heapListAdd (node : Addr) (mem : Mem) : Option Mem :=
  (listAdd node ecbListResend mem.links).map fun links => { mem with links := links }

/-- `resend_list_del` -/
def heapListDel (ptr : Addr) (mem : Mem) : Option Mem := do
  let links ← listDel listPoison1 listPoison2 ptr mem.links
  let mem := { mem with links := links }
  let node ← mem.nodes ptr
  let mem ← if node.sendData ≠ 0 then mem.freeBlock node.sendData else some mem
  mem.freeNode ptr

/-- The loop of `resend_list_get_by_id`, from `ptr` on. -/
def heapGetByIdLoop (resendSeqId : Nat) (mem : Mem) : Nat → Addr → Option (Option Addr)
  | 0, _ => none
  | turns + 1, ptr =>
      if ptr = ecbListResend then some none
      else do
        let node ← mem.nodes ptr
        if node.resendSeqId = resendSeqId then some (some ptr)
        else do
          let link ← mem.links ptr
          heapGetByIdLoop resendSeqId mem turns link.next

/-- `resend_list_get_by_id` -/
def heapGetById (turns resendSeqId : Nat) (mem : Mem) : Option (Option Addr) := do
  let head ← mem.links ecbListResend
  heapGetByIdLoop resendSeqId mem turns head.next

/-- `resend_list_del_by_id` -/
def heapDelById (turns resendSeqId : Nat) (mem : Mem) : Option Mem := do
  let found ← heapGetById turns resendSeqId mem
  found.elim (some mem) fun ptr => heapListDel ptr mem

/-- The first half of a turn of `resend_list_each`. -/
def heapResend (currentTick : Nat) (ptr : Addr) (mem : Mem) :
    Option (Mem × List (Nat × List UInt8)) := do
  let node ← mem.nodes ptr
  if node.resendCnt ≠ 0 ∧ resendTickCompare currentTick node.waitTick = true then do
    let node' := { node with
      waitTick := resendTickSet currentTick resendWaitTick
      resendCnt := node.resendCnt - 1 }
    let data ← mem.readBlock node.sendData node.sendLen
    some ({ mem with nodes := Function.update mem.nodes ptr (some node') }, [(currentTick, data)])
  else some (mem, [])

/-- A turn of `resend_list_each`. -/
def heapTurn (currentTick : Nat) (ptr : Addr) (mem : Mem) :
    Option (Mem × List (Nat × List UInt8)) := do
  let (mem, writes) ← heapResend currentTick ptr mem
  let node ← mem.nodes ptr
  if node.resendCnt = 0 then do
    let mem ← heapListDel ptr mem
    some (mem, writes)
  else some (mem, writes)

/-- The loop of `resend_list_each`.  `list_for_each_entry_safe` has read the pointer
of the next turn before this one. -/
def heapEachLoop (currentTick : Nat) :
    Nat → Addr → Addr → Mem → Option (Mem × List (Nat × List UInt8))
  | 0, _, _, _ => none
  | turns + 1, ptr, next, mem =>
      if ptr = ecbListResend then some (mem, [])
      else do
        let (mem, writes) ← heapTurn currentTick ptr mem
        let link ← mem.links next
        let (mem, writes') ← heapEachLoop currentTick turns next link.next mem
        some (mem, writes ++ writes')

/-- `resend_list_each` -/
def heapListEach (turns currentTick : Nat) (mem : Mem) :
    Option (Mem × List (Nat × List UInt8)) := do
  let head ← mem.links ecbListResend
  let link ← mem.links head.next
  heapEachLoop currentTick turns head.next link.next mem

end Functions

/-! ## The machine -/

/-- The sending side of the link, in memory. -/
structure ResendHeap where
  mem : Mem
  ecbSeqId : UInt16
  /-- the nodes allocated so far, and one turn more -/
  turns : Nat
  /-- for the record only: the writes of frames, and the frames not kept for
  another write -/
  writes : List (Nat × List UInt8)
  unkept : List (List UInt8)

namespace ResendHeap

/-- `ecb_uart_send_msg(command, msg, msg_len, resend, -1)`, at `now`, when `malloc`
returns `sendMsg` for the frame and `node` for the `uart_resend_t`. -/
def send (command : UInt8) (msg : List UInt8) (resend : Bool) (now : Nat) (sendMsg node : Addr)
    (s : ResendHeap) : Option ResendHeap := do
  let sent := ecbUartSendMsg command msg (-1) s.ecbSeqId
  let mem ← s.mem.mallocBlock sendMsg sent.1
  let data ← mem.readBlock sendMsg sent.1.length
  if resend then do
    let mem ← mem.mallocNode node
      { resendCnt := resendCnt, sendData := sendMsg, resendSeqId := seqIdOf data,
        sendLen := sent.1.length, waitTick := resendTickSet now resendWaitTick }
    let mem ← heapListAdd node mem
    some { s with
      mem := mem
      ecbSeqId := sent.2
      turns := s.turns + 1
      writes := s.writes ++ [(now, data)] }
  else
    some { s with
      mem := mem
      ecbSeqId := sent.2
      writes := s.writes ++ [(now, data)]
      unkept := s.unkept ++ [data] }

/-- `ecb_uart_send_msg(command, msg, msg_len, 0, seq_id)`, an answer. -/
def answer (command : UInt8) (msg : List UInt8) (seqId : UInt16) (sendMsg : Addr)
    (s : ResendHeap) : Option ResendHeap := do
  let sent := ecbUartSendMsg command msg seqId.toNat s.ecbSeqId
  let mem ← s.mem.mallocBlock sendMsg sent.1
  let data ← mem.readBlock sendMsg sent.1.length
  some { s with mem := mem, ecbSeqId := sent.2, unkept := s.unkept ++ [data] }

/-- An action of the parser: `ecb_uart_send_ack`, `ecb_uart_send_nak` and
`ecb_resend_list_del_by_id`.  Of the others only `keypress_local_pro` comes near the
queue, with the result of a factory test; that is a `send` of the run. -/
def act (sendMsg : Addr) (s : ResendHeap) : EcbAction → Option ResendHeap
  | .sendAck seqId => s.answer 0x0e [] seqId sendMsg
  | .sendNak errorCode seqId => s.answer 0x0f [errorCode] seqId sendMsg
  | .resendListDelById seqId =>
      (heapDelById s.turns seqId.toNat s.mem).map fun mem => { s with mem := mem }
  | _ => some s

/-- A frame of the board has been parsed; `malloc` returns `sendMsg` for the answer. -/
def recv (event : EcbEvent) (sendMsg : Addr) (s : ResendHeap) : Option ResendHeap :=
  event.actions.foldlM (act sendMsg) s

/-- `resend_list_each` in `ecb_timeout_cb`, at `now`. -/
def timeout (now : Nat) (s : ResendHeap) : Option ResendHeap := do
  let (mem, writes) ← heapListEach s.turns now s.mem
  some { s with mem := mem, writes := s.writes ++ writes }

/-- `ecb_uart_init`, with any counter. -/
def init (ecbSeqId : UInt16) : ResendHeap := ⟨.init, ecbSeqId, 1, [], []⟩

end ResendHeap

/-- What happens on the link, and what `malloc` returns. -/
inductive HeapAct where
  | send (command : UInt8) (msg : List UInt8) (resend : Bool) (now : Nat) (sendMsg node : Addr)
  | recv (event : EcbEvent) (sendMsg : Addr)
  | timeout (now : Nat)

def resendHeapMachine : Machine ResendHeap HeapAct where
  step s
    | .send command msg resend now sendMsg node => s.send command msg resend now sendMsg node
    | .recv event sendMsg => s.recv event sendMsg
    | .timeout now => s.timeout now

/-- The same without memory. -/
def HeapAct.act : HeapAct → ResendAct
  | .send command msg resend now _ _ => .send command msg resend now
  | .recv event _ => .recv event
  | .timeout now => .timeout now

/-- An address `malloc` may return. -/
def Mem.Unused (mem : Mem) (p : Addr) : Prop :=
  p ≠ 0 ∧ mem.links p = none ∧ mem.nodes p = none ∧ mem.blocks p = none

instance (mem : Mem) (p : Addr) : Decidable (mem.Unused p) :=
  inferInstanceAs (Decidable (_ ∧ _ ∧ _ ∧ _))

/-- What `malloc` promises: memory that is not in use. -/
def ResendHeap.Allows (s : ResendHeap) : HeapAct → Prop
  | .send _ _ _ _ sendMsg node => s.mem.Unused sendMsg ∧ s.mem.Unused node ∧ node ≠ sendMsg
  | .recv _ sendMsg => s.mem.Unused sendMsg
  | .timeout _ => True

instance (s : ResendHeap) : DecidablePred s.Allows
  | .send _ _ _ _ sendMsg node =>
      inferInstanceAs (Decidable (s.mem.Unused sendMsg ∧ s.mem.Unused node ∧ node ≠ sendMsg))
  | .recv _ sendMsg => inferInstanceAs (Decidable (s.mem.Unused sendMsg))
  | .timeout _ => .isTrue trivial

/-- The bytes of the answer an action of the parser sends. -/
def EcbAction.answerLen : EcbAction → Nat
  | .sendAck _ => ecbMsgMinLen
  | .sendNak _ _ => ecbMsgMinLen + 1
  | _ => 0

/-- The bytes of the frames an action sends and does not keep for another write. -/
def HeapAct.unkeptLen : HeapAct → Nat
  | .send _ msg resend _ _ _ => if resend then 0 else ecbMsgMinLen + msg.length
  | .recv event _ => (event.actions.map EcbAction.answerLen).sum
  | .timeout _ => 0

end X50
