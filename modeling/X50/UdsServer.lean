/-
# `X50.UdsServer` — the connections of the user interface

`uds/uds_tcp_server.c` keeps the listener and two clients in the select server.  A
client whose `fd` is zero is free.  `app_select_tcp_server_accetp_cb` runs when
the listener is readable and `app_select_tcp_server_recv_cb` when a client is;
what `accept` and `recv` return is up to the kernel, which hands out no
descriptor that is open: not zero, which is standard input, not the listener's,
and not that of a connection that has been accepted and not closed.

`sockets` are those connections.  Each has a number of its own, since descriptors
are used again.
-/
import X50.SelectServer

namespace X50

open X50.Lib

/-! ## The state -/

/-- `SELECT_TCP_MAX_CLIENT` -/
def selectTcpMaxClient : Nat := 2

/-- The events: that of `app_select_client_Tcp_Server`, and those of
`app_select_client_Tcp_Client`. -/
inductive UdsEvent where
  | server
  | client (i : Fin selectTcpMaxClient)
deriving DecidableEq, Repr

/-- A connection that has been accepted. -/
structure Socket where
  fd : Int
  conn : Nat
deriving DecidableEq, Repr

/-- `select_server_event`, the `fd` of each event, and what the kernel knows: the
connections accepted and not closed, how many there have been, and the connections
`recv` was called on, in order. -/
structure UdsState where
  selectServerEvent : SelectServer UdsEvent
  fd : UdsEvent → Int
  sockets : List Socket
  nextConn : Nat
  recvs : List (Option Nat)

/-- The state before `uds_tcp_server_task`. -/
def UdsState.zeroed : UdsState :=
  { selectServerEvent := .zeroed UdsEvent, fd := fun _ => 0, sockets := [], nextConn := 0, recvs := [] }

/-- The connection behind a descriptor. -/
def UdsState.connAt (s : UdsState) (fd : Int) : Option Nat :=
  (s.sockets.find? fun k => k.fd = fd).map (·.conn)

/-- The kernel may return `cfd` from `accept`. -/
def UdsState.Opens (s : UdsState) (cfd : Int) : Prop :=
  0 < cfd ∧ cfd ≠ s.fd .server ∧ ∀ k ∈ s.sockets, k.fd ≠ cfd

instance (s : UdsState) (cfd : Int) : Decidable (s.Opens cfd) :=
  inferInstanceAs (Decidable (_ ∧ _ ∧ _))

/-- `accept` -/
def openSocket (cfd : Int) (s : UdsState) : List Socket :=
  s.sockets ++ [{ fd := cfd, conn := s.nextConn }]

/-- `close` -/
def closeSocket (fd : Int) (sockets : List Socket) : List Socket :=
  sockets.filter fun k => k.fd ≠ fd

/-! ## The callbacks -/

/-- The descriptors `app_select_client_tcp_server_send` sends to. -/
def appSelectClientTcpServerSend (s : UdsState) : List Int :=
  (List.finRange selectTcpMaxClient).map fun i => s.fd (.client i)

/-- The first client whose `fd` is zero. -/
def freeClient (fd : UdsEvent → Int) : Option (Fin selectTcpMaxClient) :=
  (List.finRange selectTcpMaxClient).find? fun i => fd (.client i) = 0

/-- What `app_add_tcp_select_client_event` returns behind its loop. -/
def addResult (i : Nat) : Int := if i = selectMaxClient then -1 else 0

/-- `app_add_tcp_select_client_event` -/
def appAddTcpSelectClientEvent (cfd : Int) (s : UdsState) : Option (Int × UdsState) :=
  match freeClient s.fd with
  | some i =>
      let fd := Function.update s.fd (.client i) cfd
      (addSelectClientEvent fd s.selectServerEvent (.client i)).map fun (r, server) =>
        if r < 0 then
          (-1, { s with selectServerEvent := server, fd := Function.update fd (.client i) 0 })
        else (addResult i, { s with selectServerEvent := server, fd := fd })
  | none => some (addResult selectTcpMaxClient, s)

/-- `app_select_tcp_server_accetp_cb`, where `accept` returns `cfd`, or fails. -/
def appSelectTcpServerAccetpCb (cfd : Option Int) (s : UdsState) : Option UdsState :=
  match cfd with
  | none => some s
  | some cfd =>
      if s.Opens cfd then
        (appAddTcpSelectClientEvent cfd
          { s with sockets := openSocket cfd s, nextConn := s.nextConn + 1 }).map
          fun (res, s) => if res < 0 then { s with sockets := closeSocket cfd s.sockets } else s
      else none

/-- `app_select_tcp_server_recv_cb` of an event, where `recv` returns `recvLen`; what
it has read goes to `uds_recv` and changes nothing here. -/
def UdsState.appSelectTcpServerRecvCb (s : UdsState) (clientEvent : UdsEvent) (recvLen : Int) :
    Option UdsState :=
  let recvs := s.recvs ++ [s.connAt (s.fd clientEvent)]
  if recvLen ≤ 0 then
    (deleteSelectClientEvent s.fd s.selectServerEvent clientEvent).map fun server =>
      { s with
        selectServerEvent := server
        sockets := closeSocket (s.fd clientEvent) s.sockets
        fd := Function.update s.fd clientEvent 0
        recvs := recvs }
  else some { s with recvs := recvs }

/-- `uds_tcp_server_task` up to its loop, where `tcp_uds_server_init` returns
`listenFd`. -/
def udsTcpServerTask (listenFd : Int) : Option UdsState :=
  let fd := Function.update UdsState.zeroed.fd .server listenFd
  (addSelectClientEvent fd (selectServerInit UdsState.zeroed.selectServerEvent) .server).map
    fun (_, server) => { UdsState.zeroed with selectServerEvent := server, fd := fd }

/-! ## What holds of the connections -/

/-- A client is registered exactly while its `fd` is not zero, with a connection of
its own; the listener stays in the first slot. -/
structure UdsInv (s : UdsState) : Prop where
  kept : BookKept s.selectServerEvent s.fd
  listener : s.selectServerEvent.selectClientEvent[0]? = some (some .server)
  taken : ∀ i, s.fd (.client i) ≠ 0 ↔ .client i ∈ s.selectServerEvent.registered
  socket : ∀ i, s.fd (.client i) ≠ 0 → ∃ k ∈ s.sockets, k.fd = s.fd (.client i)
  fds : (s.sockets.map (·.fd)).Nodup
  conns : (s.sockets.map (·.conn)).Nodup
  old : ∀ k ∈ s.sockets, k.conn < s.nextConn
  apart : ∀ k ∈ s.sockets, k.fd ≠ 0 ∧ k.fd ≠ s.fd .server

variable {s s' : UdsState}

theorem mem_registered {l : List (Option UdsEvent)} {i : Nat} {e : UdsEvent}
    (h : l[i]? = some (some e)) : e ∈ l.reduceOption :=
  List.reduceOption_mem_iff.mpr (List.mem_of_getElem? h)

theorem update_client_ne {fd : UdsEvent → Int} {i j : Fin selectTcpMaxClient} {v : Int}
    (h : j ≠ i) : Function.update fd (.client i) v (.client j) = fd (.client j) :=
  Function.update_of_ne (fun he => h (UdsEvent.client.inj he)) _ _

theorem udsInv_task {listenFd : Int} (h : udsTcpServerTask listenFd = some s) : UdsInv s := by
  obtain ⟨⟨r, server⟩, hadd, rfl⟩ := Option.map_eq_some_iff.mp h
  have hkept := (bookKept_init (Function.update UdsState.zeroed.fd .server listenFd)).add
    (by rw [registered_init]; exact List.not_mem_nil)
    (by rw [registered_init]; exact fun e he => absurd he List.not_mem_nil) hadd
  rcases addSelectClientEvent_cases hadd with ⟨hput, -, -⟩ | ⟨slots, hput, -, -, rfl⟩
  · exact absurd (putFirst_eq_none.mp hput none (by decide)) (by decide)
  · obtain rfl : [some UdsEvent.server, none, none] = slots := Option.some.inj hput
    constructor
    · exact hkept
    · rfl
    · intro i
      simp [SelectServer.registered, UdsState.zeroed]
    · intro i hi
      exact absurd (by simp [UdsState.zeroed]) hi
    · exact List.nodup_nil
    · exact List.nodup_nil
    · exact fun k hk => absurd hk List.not_mem_nil
    · exact fun k hk => absurd hk List.not_mem_nil

/-- A connection that is opened has a descriptor of no registered event. -/
theorem UdsInv.opens_ne (h : UdsInv s) {cfd : Int} (hc : s.Opens cfd) {e : UdsEvent}
    (he : e ∈ s.selectServerEvent.registered) : cfd ≠ s.fd e := by
  cases e with
  | server => exact hc.2.1
  | client i =>
      obtain ⟨k, hk, hfd⟩ := h.socket i ((h.taken i).mpr he)
      rw [← hfd]
      exact (hc.2.2 k hk).symm

theorem other_client : ∀ i j : Fin selectTcpMaxClient, j ≠ i → j = i.rev := by decide

theorem addResult_client : ∀ i : Fin selectTcpMaxClient, addResult i = 0 := by decide

/-- While a client is free, so is a slot. -/
theorem UdsInv.slot_free (h : UdsInv s) {i : Fin selectTcpMaxClient} (hi : s.fd (.client i) = 0)
    (e : UdsEvent) : putFirst s.selectServerEvent.selectClientEvent e ≠ none := by
  intro hfull
  have hall : s.selectServerEvent.selectClientEvent.filter Option.isSome =
      s.selectServerEvent.selectClientEvent :=
    List.filter_eq_self.mpr (putFirst_eq_none.mp hfull)
  have hthree : s.selectServerEvent.registered.length = 3 := by
    rw [SelectServer.registered, List.reduceOption_length_eq, hall]
    exact h.kept.slots
  -- but only the listener and the other client can be registered
  have hsub : s.selectServerEvent.registered ⊆ [.server, .client i.rev] := by
    intro e he
    cases e with
    | server => exact List.mem_cons_self
    | client j =>
        have hj : j ≠ i := by
          rintro rfl
          exact (h.taken j).mpr he hi
        rw [other_client i j hj]
        exact List.mem_cons_of_mem _ List.mem_cons_self
  have hle := (h.kept.once.subperm hsub).length_le
  simp [hthree] at hle

theorem freeClient_some {fd : UdsEvent → Int} {i : Fin selectTcpMaxClient}
    (h : freeClient fd = some i) : fd (.client i) = 0 := by
  simpa using List.find?_some h

theorem freeClient_none {fd : UdsEvent → Int} (h : freeClient fd = none) :
    ∀ i, fd (.client i) ≠ 0 := by
  intro i
  simpa using List.find?_eq_none.mp h i (List.mem_finRange i)

/-- What a call of `app_select_tcp_server_accetp_cb` that accepts can do. -/
theorem accept_cases (h : UdsInv s) {cfd : Int}
    (ha : appSelectTcpServerAccetpCb (some cfd) s = some s') :
    s.Opens cfd ∧
      ((∃ i server, s.fd (.client i) = 0 ∧
        addSelectClientEvent (Function.update s.fd (.client i) cfd) s.selectServerEvent
          (.client i) = some (0, server) ∧
        s' = { s with
          selectServerEvent := server
          fd := Function.update s.fd (.client i) cfd
          sockets := openSocket cfd s
          nextConn := s.nextConn + 1 }) ∨
      ((∀ i, s.fd (.client i) ≠ 0) ∧
        s' = { s with
          sockets := openSocket cfd s
          nextConn := s.nextConn + 1 })) := by
  rw [appSelectTcpServerAccetpCb] at ha
  split at ha
  · rename_i hopen
    refine ⟨hopen, ?_⟩
    obtain ⟨⟨res, t⟩, hadd, rfl⟩ := Option.map_eq_some_iff.mp ha
    cases hfree : freeClient s.fd with
    | none =>
        rw [appAddTcpSelectClientEvent, hfree] at hadd
        obtain ⟨rfl, rfl⟩ := Prod.mk.inj (Option.some.inj hadd)
        exact Or.inr ⟨freeClient_none hfree, rfl⟩
    | some i =>
        have hi : s.fd (.client i) = 0 := freeClient_some hfree
        rw [appAddTcpSelectClientEvent, hfree] at hadd
        obtain ⟨⟨r, server⟩, hserver, hout⟩ := Option.map_eq_some_iff.mp hadd
        rcases addSelectClientEvent_cases hserver with ⟨hput, -, -⟩ | ⟨slots, -, -, rfl, -⟩
        · exact absurd hput (h.slot_free hi _)
        · have hres : ¬ addResult i < 0 := by
            rw [addResult_client]
            decide
          obtain ⟨rfl, rfl⟩ := Prod.mk.inj hout
          exact Or.inl ⟨i, server, hi, hserver, if_neg hres⟩
  · exact absurd ha (by simp)

/-- A connection that has been accepted is one more, with a descriptor and a number
of its own. -/
theorem UdsInv.socket_opened (h : UdsInv s) {cfd : Int} (hc : s.Opens cfd) :
    ((openSocket cfd s).map (·.fd)).Nodup ∧ ((openSocket cfd s).map (·.conn)).Nodup ∧
      (∀ k ∈ openSocket cfd s, k.conn < s.nextConn + 1) ∧
      ∀ k ∈ openSocket cfd s, k.fd ≠ 0 ∧ k.fd ≠ s.fd .server := by
  have hfd : cfd ∉ s.sockets.map (·.fd) := by
    intro hmem
    obtain ⟨k, hk, hkfd⟩ := List.mem_map.mp hmem
    exact hc.2.2 k hk hkfd
  have hconn : s.nextConn ∉ s.sockets.map (·.conn) := by
    intro hmem
    obtain ⟨k, hk, hkconn⟩ := List.mem_map.mp hmem
    exact absurd (h.old k hk) (by omega)
  refine ⟨?_, ?_, ?_, ?_⟩
  · rw [openSocket, List.map_append, List.nodup_append_comm]
    exact List.nodup_cons.mpr ⟨hfd, h.fds⟩
  · rw [openSocket, List.map_append, List.nodup_append_comm]
    exact List.nodup_cons.mpr ⟨hconn, h.conns⟩
  · intro k hk
    rcases List.mem_append.mp hk with hk | hk
    · exact (h.old k hk).trans (Nat.lt_succ_self _)
    · obtain rfl := List.mem_singleton.mp hk
      exact Nat.lt_succ_self _
  · intro k hk
    rcases List.mem_append.mp hk with hk | hk
    · exact h.apart k hk
    · obtain rfl := List.mem_singleton.mp hk
      exact ⟨hc.1.ne', hc.2.1⟩

theorem UdsInv.accept (h : UdsInv s) {cfd : Option Int}
    (ha : appSelectTcpServerAccetpCb cfd s = some s') : UdsInv s' := by
  cases cfd with
  | none =>
      obtain rfl := Option.some.inj ha
      exact h
  | some cfd =>
      obtain ⟨hopen, hcases⟩ := accept_cases h ha
      obtain ⟨hfds, hconns, hold, hapart⟩ := h.socket_opened hopen
      have hkeep : ∀ {k : Socket}, k ∈ s.sockets → k ∈ openSocket cfd s :=
        fun hk => List.mem_append_left _ hk
      rcases hcases with ⟨i, server, hi, hadd, rfl⟩ | ⟨-, rfl⟩
      · have hfree : .client i ∉ s.selectServerEvent.registered := by
          intro hmem
          exact (h.taken i).mpr hmem hi
        obtain ⟨hperm, hslots⟩ := registered_add hadd
        have hother : ∀ e ∈ s.selectServerEvent.registered,
            Function.update s.fd (.client i) cfd e = s.fd e := by
          intro e he
          refine Function.update_of_ne ?_ _ _
          rintro rfl
          exact hfree he
        constructor
        · refine (h.kept.congr hother).add hfree ?_ hadd
          intro e he
          rw [Function.update_self, hother e he]
          exact h.opens_ne hopen he
        · exact hslots 0 _ h.listener
        · intro j
          rw [hperm.mem_iff, List.mem_cons]
          by_cases hj : j = i
          · subst hj
            simp [hopen.1.ne']
          · simp only [update_client_ne hj, h.taken j]
            simp [hj]
        · intro j
          by_cases hj : j = i
          · subst hj
            intro _
            exact ⟨⟨cfd, s.nextConn⟩, by simp [openSocket], by simp⟩
          · simp only [update_client_ne hj]
            intro hjfd
            obtain ⟨k, hk, hkfd⟩ := h.socket j hjfd
            exact ⟨k, hkeep hk, hkfd⟩
        · exact hfds
        · exact hconns
        · exact hold
        · exact hapart
      · constructor
        · exact h.kept
        · exact h.listener
        · exact h.taken
        · intro j hj
          obtain ⟨k, hk, hkfd⟩ := h.socket j hj
          exact ⟨k, hkeep hk, hkfd⟩
        · exact hfds
        · exact hconns
        · exact hold
        · exact hapart

/-- What a call of `app_select_tcp_server_recv_cb` for a registered client can do. -/
theorem recv_cases {i : Fin selectTcpMaxClient} {recvLen : Int}
    (hr : s.appSelectTcpServerRecvCb (.client i) recvLen = some s') :
    (0 < recvLen ∧ s' = { s with recvs := s.recvs ++ [s.connAt (s.fd (.client i))] }) ∨
      recvLen ≤ 0 ∧ ∃ server,
        deleteSelectClientEvent s.fd s.selectServerEvent (.client i) = some server ∧
        s' = { s with
          selectServerEvent := server
          sockets := closeSocket (s.fd (.client i)) s.sockets
          fd := Function.update s.fd (.client i) 0
          recvs := s.recvs ++ [s.connAt (s.fd (.client i))] } := by
  rw [UdsState.appSelectTcpServerRecvCb] at hr
  split at hr
  · rename_i hle
    obtain ⟨server, hdel, rfl⟩ := Option.map_eq_some_iff.mp hr
    exact Or.inr ⟨hle, server, hdel, rfl⟩
  · rename_i hgt
    exact Or.inl ⟨by omega, (Option.some.inj hr).symm⟩

theorem mem_closeSocket {fd : Int} {sockets : List Socket} {k : Socket} :
    k ∈ closeSocket fd sockets ↔ k ∈ sockets ∧ k.fd ≠ fd := by
  simp [closeSocket]

theorem UdsInv.recv (h : UdsInv s) {i : Fin selectTcpMaxClient} {recvLen : Int}
    (hi : .client i ∈ s.selectServerEvent.registered)
    (hr : s.appSelectTcpServerRecvCb (.client i) recvLen = some s') : UdsInv s' := by
  rcases recv_cases hr with ⟨-, rfl⟩ | ⟨-, server, hdel, rfl⟩
  · exact ⟨h.kept, h.listener, h.taken, h.socket, h.fds, h.conns, h.old, h.apart⟩
  · obtain ⟨hperm, hslots⟩ := registered_delete hi hdel
    have hgone : .client i ∉ server.registered :=
      (List.nodup_cons.mp (hperm.nodup_iff.mp h.kept.once)).1
    have hother : ∀ e ∈ server.registered, Function.update s.fd (.client i) 0 e = s.fd e := by
      intro e he
      refine Function.update_of_ne ?_ _ _
      rintro rfl
      exact hgone he
    have hleft : ∀ {k}, k ∈ closeSocket (s.fd (.client i)) s.sockets → k ∈ s.sockets :=
      fun hk => (mem_closeSocket.mp hk).1
    have hsub : (closeSocket (s.fd (.client i)) s.sockets).Sublist s.sockets :=
      List.filter_sublist
    constructor
    · exact (h.kept.delete hi hdel).congr hother
    · exact (hslots 0 .server (by simp)).mpr h.listener
    · intro j
      by_cases hj : j = i
      · subst hj
        simp [hgone]
      · have hmem := hperm.mem_iff (a := .client j)
        simp only [update_client_ne hj, h.taken j, hmem, List.mem_cons]
        simp [hj]
    · intro j
      by_cases hj : j = i
      · subst hj
        simp
      · simp only [update_client_ne hj]
        intro hjfd
        obtain ⟨k, hk, hkfd⟩ := h.socket j hjfd
        refine ⟨k, mem_closeSocket.mpr ⟨hk, ?_⟩, hkfd⟩
        -- two registered clients have two descriptors
        rw [hkfd]
        intro heq
        exact hj (UdsEvent.client.inj (h.kept.apart _ ((h.taken j).mp hjfd) _ hi heq))
    · exact h.fds.sublist (hsub.map _)
    · exact h.conns.sublist (hsub.map _)
    · intro k hk
      exact h.old k (hleft hk)
    · intro k hk
      have hne : UdsEvent.server ≠ .client i := by simp
      simpa only [Function.update_of_ne hne] using h.apart k (hleft hk)

end X50
