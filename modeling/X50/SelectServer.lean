/-
# `X50.SelectServer` — the table of the select server

`tcp/select/select_server.c` watches the descriptors of the events in its three
slots.  What it knows about them is held four times: in the slots, in the set
`r_copy_fds` that every `select` starts from, in `select_client_num` and in
`maxfd`.  `add_select_client_event` and `delete_select_client_event` read the
descriptor from the event when they are called, so its owner may change it
between two calls; `fd` stands for that memory.

`FD_SET` and its sisters are defined for the descriptors an `fd_set` has room
for, and the calls here only where they are.
-/
import Mathlib.Data.Finset.Insert
import Mathlib.Data.Finset.Erase
import X50.Lib.Machine
import X50.Lib.Slots

namespace X50

open X50.Lib

/-! ## Sets of descriptors -/

/-- The descriptors below `FD_SETSIZE`. -/
def FdOk (fd : Int) : Prop := 0 ≤ fd ∧ fd < 1024

instance (fd : Int) : Decidable (FdOk fd) := inferInstanceAs (Decidable (_ ∧ _))

/-- `FD_SET` -/
def fdSet (fd : Int) (fds : Finset Int) : Option (Finset Int) :=
  if FdOk fd then some (insert fd fds) else none

/-- `FD_CLR` -/
def fdClr (fd : Int) (fds : Finset Int) : Option (Finset Int) :=
  if FdOk fd then some (fds.erase fd) else none

/-- `FD_ISSET` -/
def fdIsset (fd : Int) (fds : Finset Int) : Option Bool :=
  if FdOk fd then some (decide (fd ∈ fds)) else none

/-! ## The server -/

/-- `SELECT_MAX_CLIENT` -/
def selectMaxClient : Nat := 3

/-- `struct Select_Server_Event`; `ε` are the addresses of the events. -/
structure SelectServer (ε : Type) where
  rfds : Finset Int
  wfds : Finset Int
  efds : Finset Int
  rCopyFds : Finset Int
  selectClientEvent : List (Option ε)
  selectClientNum : Int
  maxfd : Int
  runing : Bool

/-- A server all of whose bytes are zero. -/
def SelectServer.zeroed (ε : Type) : SelectServer ε :=
  { rfds := ∅, wfds := ∅, efds := ∅, rCopyFds := ∅
    selectClientEvent := List.replicate selectMaxClient none
    selectClientNum := 0, maxfd := 0, runing := false }

/-- The events in the slots. -/
def SelectServer.registered {ε : Type} (s : SelectServer ε) : List ε :=
  s.selectClientEvent.reduceOption

/-- `select_server_init` -/
def selectServerInit {ε : Type} (s : SelectServer ε) : SelectServer ε :=
  { s with runing := true, rfds := ∅, wfds := ∅, efds := ∅, rCopyFds := ∅ }

/-- `add_select_client_event`: what it returns, and the server behind it. -/
def addSelectClientEvent {ε : Type} (fd : ε → Int) (s : SelectServer ε) (clientEvent : ε) :
    Option (Int × SelectServer ε) :=
  match putFirst s.selectClientEvent clientEvent with
  | none => some (-1, s)
  | some slots => (fdSet (fd clientEvent) s.rCopyFds).map fun fds =>
      (0, { s with
        selectClientEvent := slots
        rCopyFds := fds
        maxfd := if s.maxfd < fd clientEvent then fd clientEvent else s.maxfd
        selectClientNum := s.selectClientNum + 1 })

/-- `delete_select_client_event`.  The counter goes down whether or not the event
is there. -/
def deleteSelectClientEvent {ε : Type} [DecidableEq ε] (fd : ε → Int) (s : SelectServer ε)
    (clientEvent : ε) : Option (SelectServer ε) :=
  if some clientEvent ∈ s.selectClientEvent then
    (fdIsset (fd clientEvent) s.rCopyFds).bind fun set =>
      (if set then fdClr (fd clientEvent) s.rCopyFds else some s.rCopyFds).map fun fds =>
        { s with
          selectClientEvent := clearFirst s.selectClientEvent clientEvent
          rCopyFds := fds
          selectClientNum := s.selectClientNum - 1 }
  else some { s with selectClientNum := s.selectClientNum - 1 }

/-! ## The books -/

/-- The server's four accounts of its events agree, where `fd` is what each event
was added with. -/
structure BookKept {ε : Type} (s : SelectServer ε) (fd : ε → Int) : Prop where
  slots : s.selectClientEvent.length = selectMaxClient
  once : s.registered.Nodup
  fds : ∀ v, v ∈ s.rCopyFds ↔ ∃ e ∈ s.registered, fd e = v
  apart : ∀ e ∈ s.registered, ∀ e' ∈ s.registered, fd e = fd e' → e = e'
  num : s.selectClientNum = s.registered.length
  max : ∀ e ∈ s.registered, fd e ≤ s.maxfd

variable {ε : Type} {s s' : SelectServer ε} {fd fd' : ε → Int}

theorem registered_init : (selectServerInit (.zeroed ε)).registered = [] :=
  List.reduceOption_replicate_none

theorem bookKept_init (fd : ε → Int) : BookKept (selectServerInit (.zeroed ε)) fd := by
  have hnone : (selectServerInit (.zeroed ε)).registered = [] := registered_init
  constructor
  · rfl
  · rw [hnone]
    exact List.nodup_nil
  · intro v
    rw [hnone]
    simp [selectServerInit]
  · simp [hnone]
  · rw [hnone]
    rfl
  · simp [hnone]

/-- Only the descriptors of the registered events count. -/
theorem BookKept.congr (h : BookKept s fd) (heq : ∀ e ∈ s.registered, fd' e = fd e) :
    BookKept s fd' := by
  constructor
  · exact h.slots
  · exact h.once
  · intro v
    rw [h.fds]
    constructor
    · rintro ⟨e, he, rfl⟩
      exact ⟨e, he, heq e he⟩
    · rintro ⟨e, he, rfl⟩
      exact ⟨e, he, (heq e he).symm⟩
  · intro e he e' he' hfd
    rw [heq e he, heq e' he'] at hfd
    exact h.apart e he e' he' hfd
  · exact h.num
  · intro e he
    rw [heq e he]
    exact h.max e he

/-- What a call of `add_select_client_event` can do. -/
theorem addSelectClientEvent_cases {e : ε} {r : Int}
    (h : addSelectClientEvent fd s e = some (r, s')) :
    (putFirst s.selectClientEvent e = none ∧ r = -1 ∧ s' = s) ∨
      ∃ slots, putFirst s.selectClientEvent e = some slots ∧ FdOk (fd e) ∧ r = 0 ∧
        s' = { s with
          selectClientEvent := slots
          rCopyFds := insert (fd e) s.rCopyFds
          maxfd := if s.maxfd < fd e then fd e else s.maxfd
          selectClientNum := s.selectClientNum + 1 } := by
  rw [addSelectClientEvent] at h
  cases hput : putFirst s.selectClientEvent e with
  | none =>
      rw [hput] at h
      obtain ⟨rfl, rfl⟩ := Prod.mk.inj (Option.some.inj h)
      exact Or.inl ⟨rfl, rfl, rfl⟩
  | some slots =>
      rw [hput] at h
      obtain ⟨fds, hfds, hout⟩ := Option.map_eq_some_iff.mp h
      rw [fdSet] at hfds
      split at hfds
      · rename_i hok
        obtain rfl := Option.some.inj hfds
        obtain ⟨rfl, rfl⟩ := Prod.mk.inj hout
        exact Or.inr ⟨slots, rfl, hok, rfl, rfl⟩
      · exact absurd hfds (by simp)

/-- What a call of `delete_select_client_event` on a registered event does. -/
theorem deleteSelectClientEvent_registered [DecidableEq ε] {e : ε} (he : e ∈ s.registered)
    (h : deleteSelectClientEvent fd s e = some s') :
    s' = { s with
      selectClientEvent := clearFirst s.selectClientEvent e
      rCopyFds := s.rCopyFds.erase (fd e)
      selectClientNum := s.selectClientNum - 1 } := by
  rw [deleteSelectClientEvent, if_pos (List.reduceOption_mem_iff.mp he), fdIsset] at h
  by_cases hok : FdOk (fd e)
  · rw [if_pos hok, Option.bind_some] at h
    by_cases hmem : fd e ∈ s.rCopyFds
    · rw [if_pos (decide_eq_true hmem), fdClr, if_pos hok] at h
      exact (Option.some.inj h).symm
    · rw [if_neg (by simpa using hmem)] at h
      rw [Finset.erase_eq_of_notMem hmem]
      exact (Option.some.inj h).symm
  · rw [if_neg hok] at h
    exact absurd h (by simp)

theorem registered_add {e : ε} (h : addSelectClientEvent fd s e = some (0, s')) :
    s'.registered.Perm (e :: s.registered) ∧
      ∀ (i : Nat) (x : ε), s.selectClientEvent[i]? = some (some x) →
        s'.selectClientEvent[i]? = some (some x) := by
  rcases addSelectClientEvent_cases h with ⟨-, hr, -⟩ | ⟨slots, hput, -, -, rfl⟩
  · exact absurd hr (by decide)
  · exact ⟨reduceOption_putFirst hput, fun i x hi => getElem?_putFirst hput hi⟩

theorem rfds_add {e : ε} {r : Int} (h : addSelectClientEvent fd s e = some (r, s')) :
    s'.rfds = s.rfds := by
  rcases addSelectClientEvent_cases h with ⟨-, -, rfl⟩ | ⟨slots, -, -, -, rfl⟩ <;> rfl

theorem registered_delete [DecidableEq ε] {e : ε} (he : e ∈ s.registered)
    (h : deleteSelectClientEvent fd s e = some s') :
    s.registered.Perm (e :: s'.registered) ∧
      ∀ (i : Nat) (x : ε), x ≠ e → (s'.selectClientEvent[i]? = some (some x) ↔
        s.selectClientEvent[i]? = some (some x)) := by
  obtain rfl := deleteSelectClientEvent_registered he h
  refine ⟨reduceOption_clearFirst he, fun i x hx => ?_⟩
  exact ⟨getElem?_of_clearFirst, getElem?_clearFirst hx⟩

theorem rfds_delete [DecidableEq ε] {e : ε} (he : e ∈ s.registered)
    (h : deleteSelectClientEvent fd s e = some s') : s'.rfds = s.rfds := by
  obtain rfl := deleteSelectClientEvent_registered he h
  rfl

/-- Adding an event whose descriptor no registered event was added with. -/
theorem BookKept.add (h : BookKept s fd) {e : ε} {r : Int} (hnew : e ∉ s.registered)
    (hfd : ∀ e' ∈ s.registered, fd e ≠ fd e')
    (hadd : addSelectClientEvent fd s e = some (r, s')) : BookKept s' fd := by
  rcases addSelectClientEvent_cases hadd with ⟨-, -, rfl⟩ | ⟨slots, hput, -, -, rfl⟩
  · exact h
  · have hperm : (slots.reduceOption).Perm (e :: s.registered) := reduceOption_putFirst hput
    have hmem : ∀ x, x ∈ slots.reduceOption ↔ x = e ∨ x ∈ s.registered := by
      intro x
      rw [hperm.mem_iff, List.mem_cons]
    constructor
    · exact (length_putFirst hput).trans h.slots
    · exact hperm.nodup_iff.mpr (List.nodup_cons.mpr ⟨hnew, h.once⟩)
    · intro v
      simp only [SelectServer.registered, Finset.mem_insert, h.fds, hmem, exists_eq_or_imp]
      exact or_congr_left eq_comm
    · intro a ha b hb hab
      rcases (hmem a).mp ha with rfl | hra <;> rcases (hmem b).mp hb with rfl | hrb
      · rfl
      · exact absurd hab (hfd b hrb)
      · exact absurd hab.symm (hfd a hra)
      · exact h.apart a hra b hrb hab
    · simp only [SelectServer.registered, hperm.length_eq, List.length_cons, h.num]
      push_cast
      rfl
    · intro x hx
      have hle : s.maxfd ≤ if s.maxfd < fd e then fd e else s.maxfd := by
        split <;> omega
      have hle' : fd e ≤ if s.maxfd < fd e then fd e else s.maxfd := by
        split <;> omega
      rcases (hmem x).mp hx with rfl | hx
      · exact hle'
      · exact (h.max x hx).trans hle

/-- Deleting a registered event. -/
theorem BookKept.delete [DecidableEq ε] (h : BookKept s fd) {e : ε} (he : e ∈ s.registered)
    (hdel : deleteSelectClientEvent fd s e = some s') : BookKept s' fd := by
  obtain rfl := deleteSelectClientEvent_registered he hdel
  have hperm : s.registered.Perm (e :: (clearFirst s.selectClientEvent e).reduceOption) :=
    reduceOption_clearFirst he
  have hnodup := List.nodup_cons.mp (hperm.nodup_iff.mp h.once)
  have hmem : ∀ x, x ∈ s.registered ↔ x = e ∨ x ∈ (clearFirst s.selectClientEvent e).reduceOption := by
    intro x
    rw [hperm.mem_iff, List.mem_cons]
  have hold : ∀ {x}, x ∈ (clearFirst s.selectClientEvent e).reduceOption → x ∈ s.registered :=
    fun hx => (hmem _).mpr (Or.inr hx)
  constructor
  · exact (length_clearFirst _ _).trans h.slots
  · exact hnodup.2
  · intro v
    simp only [SelectServer.registered, Finset.mem_erase, h.fds]
    constructor
    · rintro ⟨hv, x, hx, rfl⟩
      refine ⟨x, ((hmem x).mp hx).resolve_left ?_, rfl⟩
      rintro rfl
      exact hv rfl
    · rintro ⟨x, hx, rfl⟩
      refine ⟨fun hfd => ?_, x, hold hx, rfl⟩
      exact hnodup.1 (h.apart x (hold hx) e he hfd ▸ hx)
  · intro a ha b hb hab
    exact h.apart a (hold ha) b (hold hb) hab
  · have hlen := hperm.length_eq
    simp only [SelectServer.registered, List.length_cons] at hlen ⊢
    have hnum := h.num
    simp only [SelectServer.registered] at hnum
    omega
  · intro x hx
    exact h.max x (hold hx)

/-! ## Sequences of calls -/

/-- What the owners of events do: store a descriptor into an event, and call the
server. -/
inductive SelectCall (ε : Type) where
  /-- `client_event->fd = fd` -/
  | assign (e : ε) (fd : Int)
  | add (e : ε)
  | delete (e : ε)

/-- The server and the `fd` of every event; `addedFd` is the one it had when it was
added last. -/
structure SelectState (ε : Type) where
  server : SelectServer ε
  fd : ε → Int
  addedFd : ε → Int

/-- A zeroed server, initialised. -/
def SelectState.init {ε : Type} (fd : ε → Int) : SelectState ε :=
  ⟨selectServerInit (.zeroed ε), fd, fd⟩

def selectMachine (ε : Type) [DecidableEq ε] : Machine (SelectState ε) (SelectCall ε) where
  step s
    | .assign e v => some { s with fd := Function.update s.fd e v }
    | .add e => (addSelectClientEvent s.fd s.server e).map fun (r, server) =>
        { s with
          server := server
          addedFd := if r = 0 then Function.update s.addedFd e (s.fd e) else s.addedFd }
    | .delete e => (deleteSelectClientEvent s.fd s.server e).map fun server =>
        { s with server := server }

/-- An event is added with a descriptor that differs from those of the registered
events, and deleted while it is registered and its descriptor as it was. -/
def SelectCall.Allowed (s : SelectState ε) : SelectCall ε → Prop
  | .assign _ _ => True
  | .add e => ∀ e' ∈ s.server.registered, s.fd e ≠ s.fd e' ∧ s.fd e ≠ s.addedFd e'
  | .delete e => e ∈ s.server.registered ∧ s.fd e = s.addedFd e

/-- Every call keeps the books. -/
theorem bookKept_step [DecidableEq ε] {s s' : SelectState ε} {c : SelectCall ε}
    (hc : c.Allowed s) (h : BookKept s.server s.addedFd)
    (hstep : (selectMachine ε).step s c = some s') : BookKept s'.server s'.addedFd := by
  cases c with
  | assign e v =>
      obtain rfl := Option.some.inj hstep
      exact h
  | add e =>
      obtain ⟨⟨r, server⟩, hadd, rfl⟩ := Option.map_eq_some_iff.mp hstep
      have hnew : e ∉ s.server.registered := fun he => (hc e he).1 rfl
      have hother : ∀ e' ∈ s.server.registered, e' ≠ e := by
        rintro e' he' rfl
        exact hnew he'
      rcases addSelectClientEvent_cases hadd with ⟨-, rfl, rfl⟩ | ⟨slots, hput, hok, rfl, -⟩
      · exact h
      · -- the call sees `fd`, the books are about `addedFd`; they agree on `e` now
        have hkept : BookKept s.server (Function.update s.addedFd e (s.fd e)) :=
          h.congr fun e' he' => Function.update_of_ne (hother e' he') _ _
        have hsame : addSelectClientEvent (Function.update s.addedFd e (s.fd e)) s.server e =
            some (0, server) := by
          rw [← hadd, addSelectClientEvent, addSelectClientEvent, Function.update_self]
        refine hkept.add hnew ?_ hsame
        intro e' he'
        rw [Function.update_self, Function.update_of_ne (hother e' he')]
        exact (hc e' he').2
  | delete e =>
      obtain ⟨server, hdel, rfl⟩ := Option.map_eq_some_iff.mp hstep
      obtain ⟨he, hfd⟩ := hc
      refine h.delete he ?_
      rw [← hdel, deleteSelectClientEvent, deleteSelectClientEvent, hfd]

/-- `add_select_client_event` fails when every slot is taken, and only then. -/
theorem addSelectClientEvent_full {e : ε} {r : Int}
    (h : addSelectClientEvent fd s e = some (r, s')) :
    (r = -1 ↔ ∀ slot ∈ s.selectClientEvent, slot.isSome) ∧ (r = -1 → s' = s) := by
  rcases addSelectClientEvent_cases h with ⟨hput, rfl, rfl⟩ | ⟨slots, hput, -, rfl, -⟩
  · exact ⟨iff_of_true rfl (putFirst_eq_none.mp hput), fun _ => rfl⟩
  · have hfree : ¬ ∀ slot ∈ s.selectClientEvent, slot.isSome := by
      rw [← putFirst_eq_none (a := e), hput]
      exact Option.some_ne_none slots
    exact ⟨iff_of_false (by decide) hfree, fun h => absurd h (by decide)⟩

/-- What the four accounts say about each other, slot by slot, and what the calls would
do: with every slot taken an event is refused, and with one free it gets a slot, which
deleting it clears. -/
structure SelectState.Consistent [DecidableEq ε] (s : SelectState ε) : Prop where
  slots : s.server.selectClientEvent.length = selectMaxClient
  /-- `r_copy_fds` are the descriptors the events in the slots were added with -/
  fds : ∀ v, v ∈ s.server.rCopyFds ↔
    ∃ e, some e ∈ s.server.selectClientEvent ∧ s.addedFd e = v
  /-- and their descriptors, while nobody stores others into them -/
  current : (∀ e, some e ∈ s.server.selectClientEvent → s.fd e = s.addedFd e) →
    ∀ v, v ∈ s.server.rCopyFds ↔ ∃ e, some e ∈ s.server.selectClientEvent ∧ s.fd e = v
  once : ∀ (i j : Nat) (e : ε), s.server.selectClientEvent[i]? = some (some e) →
    s.server.selectClientEvent[j]? = some (some e) → i = j
  num : s.server.selectClientNum = (s.server.selectClientEvent.filter Option.isSome).length
  max : ∀ e, some e ∈ s.server.selectClientEvent → s.addedFd e ≤ s.server.maxfd
  add : ∀ e r server', addSelectClientEvent s.fd s.server e = some (r, server') →
    (r = -1 ↔ ∀ slot ∈ s.server.selectClientEvent, slot.isSome) ∧ (r = -1 → server' = s.server)
  full : ∀ e, (∀ slot ∈ s.server.selectClientEvent, slot.isSome) →
    addSelectClientEvent s.fd s.server e = some (-1, s.server)
  room : ∀ e, none ∈ s.server.selectClientEvent → FdOk (s.fd e) →
    ∃ server', addSelectClientEvent s.fd s.server e = some (0, server') ∧
      some e ∈ server'.selectClientEvent ∧
      ∀ (i : Nat) (x : ε), s.server.selectClientEvent[i]? = some (some x) →
        server'.selectClientEvent[i]? = some (some x)
  delete : ∀ e, some e ∈ s.server.selectClientEvent → s.fd e = s.addedFd e →
    ∃ server', deleteSelectClientEvent s.fd s.server e = some server' ∧
      some e ∉ server'.selectClientEvent ∧
      ∀ (i : Nat) (x : ε), x ≠ e → (server'.selectClientEvent[i]? = some (some x) ↔
        s.server.selectClientEvent[i]? = some (some x))

/-- Only descriptors that `FD_SET` takes are in the set. -/
def FdsOk (s : SelectServer ε) : Prop := ∀ v ∈ s.rCopyFds, FdOk v

theorem fdsOk_step [DecidableEq ε] {s s' : SelectState ε} {c : SelectCall ε}
    (h : FdsOk s.server) (hstep : (selectMachine ε).step s c = some s') : FdsOk s'.server := by
  cases c with
  | assign e v =>
      obtain rfl := Option.some.inj hstep
      exact h
  | add e =>
      obtain ⟨⟨r, server⟩, hadd, rfl⟩ := Option.map_eq_some_iff.mp hstep
      rcases addSelectClientEvent_cases hadd with ⟨-, -, rfl⟩ | ⟨slots, -, hok, -, rfl⟩
      · exact h
      · intro v hv
        rcases Finset.mem_insert.mp hv with rfl | hv
        · exact hok
        · exact h v hv
  | delete e =>
      obtain ⟨server, hdel, rfl⟩ := Option.map_eq_some_iff.mp hstep
      rw [deleteSelectClientEvent] at hdel
      split at hdel
      · obtain ⟨set, -, hdel⟩ := Option.bind_eq_some_iff.mp hdel
        obtain ⟨fds, hfds, rfl⟩ := Option.map_eq_some_iff.mp hdel
        intro v hv
        refine h v ?_
        split at hfds
        · rw [fdClr] at hfds
          split at hfds
          · obtain rfl := Option.some.inj hfds
            exact Finset.mem_of_mem_erase hv
          · cases hfds
        · obtain rfl := Option.some.inj hfds
          exact hv
      · obtain rfl := Option.some.inj hdel
        exact h

/-- A free slot is found. -/
theorem addSelectClientEvent_room {e : ε} (hfree : none ∈ s.selectClientEvent)
    (hok : FdOk (fd e)) : ∃ server', addSelectClientEvent fd s e = some (0, server') := by
  cases hput : putFirst s.selectClientEvent e with
  | none => exact absurd (putFirst_eq_none.mp hput none hfree) (by simp)
  | some slots =>
      rw [addSelectClientEvent, hput, fdSet]
      simp only [if_pos hok]
      exact ⟨_, rfl⟩

/-- A registered event is deleted. -/
theorem deleteSelectClientEvent_defined [DecidableEq ε] {e : ε}
    (he : some e ∈ s.selectClientEvent) (hok : FdOk (fd e)) :
    ∃ server', deleteSelectClientEvent fd s e = some server' := by
  rw [deleteSelectClientEvent, if_pos he, fdIsset, if_pos hok, Option.bind_some]
  split
  · rw [fdClr, if_pos hok]
    exact ⟨_, rfl⟩
  · exact ⟨_, rfl⟩

theorem BookKept.consistent [DecidableEq ε] {s : SelectState ε} (h : BookKept s.server s.addedFd)
    (hok : FdsOk s.server) : s.Consistent := by
  have hmem : ∀ {server : SelectServer ε} {e}, e ∈ server.registered ↔
      some e ∈ server.selectClientEvent := List.reduceOption_mem_iff
  have hfds : ∀ v, v ∈ s.server.rCopyFds ↔
      ∃ e, some e ∈ s.server.selectClientEvent ∧ s.addedFd e = v := by
    intro v
    rw [h.fds]
    simp only [hmem]
  constructor
  · exact h.slots
  · exact hfds
  · intro hsame v
    rw [hfds]
    constructor
    · rintro ⟨e, he, rfl⟩
      exact ⟨e, he, hsame e he⟩
    · rintro ⟨e, he, rfl⟩
      exact ⟨e, he, (hsame e he).symm⟩
  · intro i j e hi hj
    exact slot_unique h.once hi hj
  · rw [h.num, SelectServer.registered, List.reduceOption_length_eq]
  · intro e he
    exact h.max e (hmem.mpr he)
  · intro e r server' hadd
    exact addSelectClientEvent_full hadd
  · intro e hall
    rw [addSelectClientEvent, putFirst_eq_none.mpr hall]
  · intro e hfree hfd
    obtain ⟨server', hadd⟩ := addSelectClientEvent_room hfree hfd
    obtain ⟨hperm, hkept⟩ := registered_add hadd
    exact ⟨server', hadd, hmem.mp (hperm.mem_iff.mpr List.mem_cons_self), hkept⟩
  · intro e he hfd
    have hin : s.fd e ∈ s.server.rCopyFds := (hfds _).mpr ⟨e, he, hfd.symm⟩
    obtain ⟨server', hdel⟩ := deleteSelectClientEvent_defined he (hok _ hin)
    obtain ⟨hperm, hkept⟩ := registered_delete (hmem.mpr he) hdel
    have hgone := (List.nodup_cons.mp (hperm.nodup_iff.mp h.once)).1
    exact ⟨server', hdel, fun hin => hgone (hmem.mpr hin), hkept⟩

/-- **The books of the select server agree after every call.** -/
theorem selectServer_bookkeeping [DecidableEq ε] (fd₀ : ε → Int) (calls : List (SelectCall ε))
    (hcalls : (selectMachine ε).Meets SelectCall.Allowed (SelectState.init fd₀) calls) :
    (selectMachine ε).Along SelectState.Consistent (SelectState.init fd₀) calls := by
  have hkept : (selectMachine ε).Along (fun s => BookKept s.server s.addedFd ∧ FdsOk s.server)
      (SelectState.init fd₀) calls :=
    Machine.along_of_meets
      (fun s c s' hc h hstep => ⟨bookKept_step hc h.1 hstep, fdsOk_step h.2 hstep⟩) hcalls
      ⟨bookKept_init fd₀, fun v hv => absurd hv (Finset.notMem_empty v)⟩
  exact hkept.mono fun s h => h.1.consistent h.2

instance [DecidableEq ε] (s : SelectState ε) : ∀ c : SelectCall ε, Decidable (c.Allowed s)
  | .assign _ _ => isTrue trivial
  | .add _ => inferInstanceAs (Decidable (∀ e' ∈ s.server.registered, _ ∧ _))
  | .delete e => inferInstanceAs (Decidable (e ∈ s.server.registered ∧ _))

theorem selectServer_bookkeeping_run :
    (selectMachine (Fin 4)).Along SelectState.Consistent (SelectState.init fun e : Fin 4 => e.val + 5)
      [.add 0, .add 1, .delete 0, .assign 0 9, .add 2, .add 0, .add 3] :=
  selectServer_bookkeeping (fun e : Fin 4 => e.val + 5)
    [.add 0, .add 1, .delete 0, .assign 0 9, .add 2, .add 0, .add 3] (by decide +kernel)

end X50
