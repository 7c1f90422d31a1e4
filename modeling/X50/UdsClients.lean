/-
# `X50.UdsClients` — which connections of the user interface are known

The two clients are the connections `app_select_client_tcp_server_send` sends to,
and those the select server watches beside the listener.  A connection that comes
while both are taken is meant to be closed again, but
`app_add_tcp_select_client_event` looks for the end of its loop at
`SELECT_MAX_CLIENT`, which is one more than it has clients: the connection stays
open, and nobody knows of it.  And what is sent goes to the descriptor of every
client, zero where there is none.

`udsClients_tracked_iff` says when neither happens.
-/
import Mathlib.Data.Finset.Dedup
import X50.UdsServer

namespace X50

open X50.Lib

/-! ## Connects, disconnects and sends -/

/-- The listener is readable, a registered client is, or some thread has something
to send. -/
inductive UdsStep where
  | connect (cfd : Option Int)
  | readable (i : Fin selectTcpMaxClient) (recvLen : Int)
  | send
deriving DecidableEq, Repr

/-- The descriptors accepted and not closed. -/
def UdsState.acceptedFds (s : UdsState) : Finset Int := (s.sockets.map (·.fd)).toFinset

/-- The descriptors of the clients that are not zero. -/
def UdsState.clientFds (s : UdsState) : Finset Int :=
  (appSelectClientTcpServerSend s).toFinset.erase 0

/-- The descriptors the select server watches, less the listener's. -/
def UdsState.watchedFds (s : UdsState) : Finset Int :=
  s.selectServerEvent.rCopyFds.erase (s.fd .server)

/-- The server, and of every send so far where it went and which descriptors were
then accepted and not closed. -/
structure UdsClients where
  state : UdsState
  sends : List (List Int × Finset Int)

def udsClients : Machine UdsClients UdsStep where
  step c
    | .connect cfd => (appSelectTcpServerAccetpCb cfd c.state).map fun s => { c with state := s }
    | .readable i recvLen =>
        if .client i ∈ c.state.selectServerEvent.registered then
          (c.state.appSelectTcpServerRecvCb (.client i) recvLen).map fun s => { c with state := s }
        else none
    | .send => some { c with
        sends := c.sends ++ [(appSelectClientTcpServerSend c.state, c.state.acceptedFds)] }

/-- The accepted connections are the clients and are what is watched, and every send
went to exactly them. -/
def UdsClients.Tracked (c : UdsClients) : Prop :=
  (c.state.acceptedFds = c.state.clientFds ∧ c.state.acceptedFds = c.state.watchedFds) ∧
    ∀ r ∈ c.sends, r.1.toFinset = r.2

instance (c : UdsClients) : Decidable c.Tracked := inferInstanceAs (Decidable ((_ ∧ _) ∧ _))

/-- A connection comes only while a client is free, and something is sent only while
none is. -/
def UdsStep.Fits (c : UdsClients) : UdsStep → Prop
  | .connect none => True
  | .connect (some _) => ∃ i, c.state.fd (.client i) = 0
  | .readable _ _ => True
  | .send => ∀ i, c.state.fd (.client i) ≠ 0

instance (c : UdsClients) : ∀ a : UdsStep, Decidable (a.Fits c)
  | .connect none => isTrue trivial
  | .connect (some _) => inferInstanceAs (Decidable (∃ i, c.state.fd (.client i) = 0))
  | .readable _ _ => isTrue trivial
  | .send => inferInstanceAs (Decidable (∀ i, c.state.fd (.client i) ≠ 0))

/-! ## The invariant -/

/-- Every connection has its client. -/
structure UdsKnown (c : UdsClients) : Prop where
  inv : UdsInv c.state
  known : ∀ k ∈ c.state.sockets, ∃ i, c.state.fd (.client i) = k.fd
  sent : ∀ r ∈ c.sends, r.1.toFinset = r.2

variable {s s₀ : UdsState} {c c' : UdsClients}

theorem mem_acceptedFds {v : Int} : v ∈ s.acceptedFds ↔ ∃ k ∈ s.sockets, k.fd = v := by
  simp [UdsState.acceptedFds]

theorem mem_clientFds {v : Int} : v ∈ s.clientFds ↔ v ≠ 0 ∧ ∃ i, s.fd (.client i) = v := by
  simp [UdsState.clientFds, appSelectClientTcpServerSend]

/-- What is watched beside the listener are the clients. -/
theorem UdsInv.watchedFds_eq (h : UdsInv s) : s.watchedFds = s.clientFds := by
  ext v
  rw [UdsState.watchedFds, Finset.mem_erase, h.kept.fds, mem_clientFds]
  constructor
  · rintro ⟨hv, e, he, rfl⟩
    cases e with
    | server => exact absurd rfl hv
    | client i => exact ⟨(h.taken i).mpr he, i, rfl⟩
  · rintro ⟨hv, i, rfl⟩
    have hi := (h.taken i).mp hv
    refine ⟨fun hl => ?_, _, hi, rfl⟩
    have heq := h.kept.apart _ hi _ (mem_registered h.listener) hl
    cases heq

theorem UdsInv.client_accepted (h : UdsInv s) : s.clientFds ⊆ s.acceptedFds := by
  intro v hv
  obtain ⟨hv0, i, rfl⟩ := mem_clientFds.mp hv
  exact mem_acceptedFds.mpr (h.socket i hv0)

theorem UdsKnown.tracked (h : UdsKnown c) : c.Tracked := by
  have heq : c.state.acceptedFds = c.state.clientFds := by
    refine Finset.Subset.antisymm ?_ h.inv.client_accepted
    intro v hv
    obtain ⟨k, hk, rfl⟩ := mem_acceptedFds.mp hv
    exact mem_clientFds.mpr ⟨(h.inv.apart k hk).1, h.known k hk⟩
  exact ⟨⟨heq, heq.trans h.inv.watchedFds_eq.symm⟩, h.sent⟩

/-- A send goes to exactly the accepted connections when no client is free. -/
theorem UdsKnown.sends_iff (h : UdsKnown c) :
    (appSelectClientTcpServerSend c.state).toFinset = c.state.acceptedFds ↔
      ∀ i, c.state.fd (.client i) ≠ 0 := by
  have heq : c.state.acceptedFds = (appSelectClientTcpServerSend c.state).toFinset.erase 0 :=
    h.tracked.1.1
  rw [heq, eq_comm, Finset.erase_eq_self]
  simp [appSelectClientTcpServerSend]

/-- A connection is known if a client was free, and only then. -/
theorem UdsKnown.connect (h : UdsKnown c) {cfd : Option Int}
    (ha : appSelectTcpServerAccetpCb cfd c.state = some s) :
    (UdsStep.Fits c (.connect cfd) → UdsKnown { c with state := s }) ∧
      (UdsClients.Tracked { c with state := s } → UdsStep.Fits c (.connect cfd)) := by
  have hinv : UdsInv s := h.inv.accept ha
  cases cfd with
  | none =>
      obtain rfl := Option.some.inj ha
      exact ⟨fun _ => ⟨h.inv, h.known, h.sent⟩, fun _ => trivial⟩
  | some cfd =>
      obtain ⟨hopen, ⟨i, server, hi, hadd, rfl⟩ | ⟨hfull, rfl⟩⟩ := accept_cases h.inv ha
      · refine ⟨fun _ => ⟨hinv, ?_, h.sent⟩, fun _ => ⟨i, hi⟩⟩
        intro k hk
        rcases List.mem_append.mp hk with hold | hnew
        · obtain ⟨j, hj⟩ := h.known k hold
          have hji : j ≠ i := by
            rintro rfl
            exact (h.inv.apart k hold).1 (hj.symm.trans hi)
          exact ⟨j, (update_client_ne hji).trans hj⟩
        · obtain rfl := List.mem_singleton.mp hnew
          exact ⟨i, Function.update_self _ _ _⟩
      · constructor
        · rintro ⟨i, hi⟩
          exact absurd hi (hfull i)
        · rintro ⟨⟨hclients, -⟩, -⟩
          -- the connection is open, but no client's
          exfalso
          have hnew : (⟨cfd, c.state.nextConn⟩ : Socket) ∈ openSocket cfd c.state :=
            List.mem_append_right _ (List.mem_singleton_self _)
          have hmem : cfd ∈ UdsState.acceptedFds { c.state with
              sockets := openSocket cfd c.state, nextConn := c.state.nextConn + 1 } :=
            mem_acceptedFds.mpr ⟨_, hnew, rfl⟩
          rw [hclients] at hmem
          obtain ⟨-, j, hj⟩ := mem_clientFds.mp hmem
          exact h.inv.opens_ne hopen ((h.inv.taken j).mp (hfull j)) hj.symm

/-- A client that leaves takes its own connection with it. -/
theorem UdsKnown.recv (h : UdsKnown c) {i : Fin selectTcpMaxClient} {recvLen : Int}
    (hi : .client i ∈ c.state.selectServerEvent.registered)
    (hr : c.state.appSelectTcpServerRecvCb (.client i) recvLen = some s) :
    UdsKnown { c with state := s } := by
  refine ⟨h.inv.recv hi hr, ?_, h.sent⟩
  intro k hk
  rcases recv_cases hr with ⟨-, rfl⟩ | ⟨-, server, -, rfl⟩
  · exact h.known k hk
  · obtain ⟨hold, hne⟩ := mem_closeSocket.mp hk
    obtain ⟨j, hj⟩ := h.known k hold
    have hji : j ≠ i := by
      rintro rfl
      exact hne hj.symm
    exact ⟨j, (update_client_ne hji).trans hj⟩

/-- One step: what fits keeps every connection known, and nothing else does. -/
theorem udsKnown_step {a : UdsStep} (h : UdsKnown c) (hstep : udsClients.step c a = some c') :
    (a.Fits c → UdsKnown c') ∧ (c'.Tracked → a.Fits c) := by
  cases a with
  | connect cfd =>
      obtain ⟨s, ha, rfl⟩ := Option.map_eq_some_iff.mp hstep
      exact h.connect ha
  | readable i recvLen =>
      refine ⟨fun _ => ?_, fun _ => trivial⟩
      simp only [udsClients] at hstep
      split at hstep
      · rename_i hi
        obtain ⟨s, hr, rfl⟩ := Option.map_eq_some_iff.mp hstep
        exact h.recv hi hr
      · exact absurd hstep (by simp)
  | send =>
      obtain rfl := Option.some.inj hstep
      constructor
      · intro hfull
        refine ⟨h.inv, h.known, ?_⟩
        intro r hr
        rcases List.mem_append.mp hr with hr | hr
        · exact h.sent r hr
        · obtain rfl := List.mem_singleton.mp hr
          exact h.sends_iff.mpr hfull
      · rintro ⟨-, hsent⟩
        exact h.sends_iff.mp (hsent _ (List.mem_append_right _ (List.mem_singleton_self _)))

/-- **When every connection is known.**  The accepted connections are the clients and
are what is watched after every step, and every send goes to exactly them, if and only
if connections come only while a client is free and sends only while none is. -/
theorem udsClients_tracked_iff (listenFd : Int) (s₀ : UdsState)
    (h₀ : udsTcpServerTask listenFd = some s₀) (steps : List UdsStep) :
    udsClients.Along UdsClients.Tracked ⟨s₀, []⟩ steps ↔
      udsClients.Meets UdsStep.Fits ⟨s₀, []⟩ steps := by
  have hknown : UdsKnown ⟨s₀, []⟩ := by
    refine ⟨udsInv_task h₀, ?_, fun r hr => absurd hr List.not_mem_nil⟩
    obtain ⟨⟨r, server⟩, -, rfl⟩ := Option.map_eq_some_iff.mp h₀
    exact fun k hk => absurd hk List.not_mem_nil
  exact Machine.along_iff_meets_of (V := fun _ => True) (fun c h => h.tracked)
    (fun c a c' _ h hstep => udsKnown_step h hstep) (fun _ _ => trivial) hknown

/-- Two clients come, one of them leaves and its descriptor is used again. -/
theorem udsClients_tracked_two : ∃ s₀, udsTcpServerTask 5 = some s₀ ∧
    udsClients.Along UdsClients.Tracked ⟨s₀, []⟩
      [.connect (some 6), .connect (some 7), .send, .readable ⟨0, by decide⟩ 0, .connect (some 6), .send] := by
  refine ⟨_, rfl, (udsClients_tracked_iff 5 _ rfl _).mpr ?_⟩
  decide +kernel

/-- A third client is neither registered nor closed; and with one client, zero is
sent to. -/
theorem udsClients_not_tracked : ∃ s₀, udsTcpServerTask 5 = some s₀ ∧
    ¬ udsClients.Along UdsClients.Tracked ⟨s₀, []⟩
      [.connect (some 6), .connect (some 7), .connect (some 8)] ∧
    ¬ udsClients.Along UdsClients.Tracked ⟨s₀, []⟩ [.connect (some 6), .send] := by
  refine ⟨_, rfl, fun h => ?_, fun h => ?_⟩
  · exact absurd (h.last rfl) (by decide +kernel)
  · exact absurd (h.last rfl) (by decide +kernel)

end X50
