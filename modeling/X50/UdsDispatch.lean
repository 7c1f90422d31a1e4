/-
# `X50.UdsDispatch` — the loop of the select server

`select_server_task` copies the watched descriptors, lets `select` reduce them to
those that are ready, and then walks the slots: an event whose descriptor is ready
has its `read_cb` called.  The callbacks add and delete events while the walk goes
on, and the descriptors they close may be opened again, but what is ready is not
asked for twice.

It is the order of the slots that keeps this right (`dispatched_step`).  The
listener is in the first one, so whatever a turn accepts it accepts before it has
closed anything, with a descriptor that nobody was watching when `select` returned.
-/
import X50.Lib.Trigger
import X50.UdsServer

namespace X50

open X50.Lib

/-! ## One turn of the loop -/

/-- What `accept` and `recv` return to the callback of each slot. -/
structure Answers where
  accept : Nat → Option Int
  recv : Nat → Int

/-- What `select` returns: an error, a timeout, or ready descriptors. -/
inductive SelectResult where
  | failed
  | timeout
  | ready (fds : Finset Int) (answers : Answers)

def SelectResult.fds : SelectResult → Finset Int
  | .failed => ∅
  | .timeout => ∅
  | .ready fds _ => fds

/-- The `read_cb` of an event. -/
def readCb (answers : Answers) (i : Nat) (clientEvent : UdsEvent) (s : UdsState) :
    Option UdsState :=
  match clientEvent with
  | .server => appSelectTcpServerAccetpCb (answers.accept i) s
  | .client _ => s.appSelectTcpServerRecvCb clientEvent (answers.recv i)

/-- `select_client_fd_check`.  No event has a `write_cb`, and the `except_cb` of all
of them only prints. -/
def selectClientFdCheck (answers : Answers) (i : Nat) (clientEvent : UdsEvent) (s : UdsState) :
    Option UdsState :=
  (fdIsset (s.fd clientEvent) s.selectServerEvent.rfds).bind fun ready =>
    (if ready then readCb answers i clientEvent s else some s).bind fun s =>
      (fdIsset (s.fd clientEvent) s.selectServerEvent.wfds).bind fun _ =>
        (fdIsset (s.fd clientEvent) s.selectServerEvent.efds).map fun _ => s

/-- One turn of the walk. -/
def dispatchSlot (answers : Answers) (s : UdsState) (i : Nat) : Option UdsState :=
  match s.selectServerEvent.selectClientEvent[i]? with
  | some (some clientEvent) => selectClientFdCheck answers i clientEvent s
  | _ => some s

/-- `rfds`, as `select` leaves it. -/
def UdsState.setRfds (s : UdsState) (rfds : Finset Int) : UdsState :=
  { s with selectServerEvent := { s.selectServerEvent with rfds := rfds } }

/-- One turn of the loop of `select_server_task`; the server has no `error_cb` and no
`timeout_cb`. -/
def selectServerTask (result : SelectResult) (s : UdsState) : Option UdsState :=
  if s.selectServerEvent.runing then
    match result with
    | .failed => some (s.setRfds s.selectServerEvent.rCopyFds)
    | .timeout => some (s.setRfds ∅)
    | .ready fds answers =>
        if fds ⊆ s.selectServerEvent.rCopyFds ∧ fds ≠ ∅ then
          (List.range selectMaxClient).foldlM (dispatchSlot answers) (s.setRfds fds)
        else none
  else none

def udsTask : Machine UdsState SelectResult where
  step s result := selectServerTask result s

/-! ## The walk -/

/-- The walk stands before slot `i`, begun in `s`, with `reads` so far: what it can
still read was accepted before it began, and has not been read. -/
structure Dispatched (s : UdsState) (fds : Finset Int) (i : Nat) (t : UdsState)
    (reads : List (Option Nat)) : Prop where
  inv : UdsInv t
  rfds : t.selectServerEvent.rfds = fds
  recvs : t.recvs = s.recvs ++ reads
  start : i = 0 → t.sockets = s.sockets ∧ t.fd = s.fd
  once : reads.Nodup
  ready : ∀ c ∈ reads, ∃ k ∈ s.sockets, c = some k.conn ∧ k.fd ∈ fds
  ahead : ∀ j e, i ≤ j →
    t.selectServerEvent.selectClientEvent[j]? = some (some (.client e)) →
    t.fd (.client e) ∈ fds →
    ∃ k ∈ s.sockets, k ∈ t.sockets ∧ k.fd = t.fd (.client e) ∧ some k.conn ∉ reads

variable {s s' t t' : UdsState} {fds : Finset Int} {answers : Answers} {i : Nat}
  {reads : List (Option Nat)}

theorem UdsInv.setRfds (h : UdsInv s) (rfds : Finset Int) : UdsInv (s.setRfds rfds) :=
  ⟨⟨h.kept.slots, h.kept.once, h.kept.fds, h.kept.apart, h.kept.num, h.kept.max⟩,
    h.listener, h.taken, h.socket, h.fds, h.conns, h.old, h.apart⟩

/-- An event's callback is called if its descriptor is ready, and otherwise nothing
is done. -/
theorem selectClientFdCheck_cases {e : UdsEvent}
    (h : selectClientFdCheck answers i e s = some s') :
    (s.fd e ∈ s.selectServerEvent.rfds ∧ readCb answers i e s = some s') ∨
      (s.fd e ∉ s.selectServerEvent.rfds ∧ s' = s) := by
  obtain ⟨ready, hready, h⟩ := Option.bind_eq_some_iff.mp h
  obtain ⟨u, hu, h⟩ := Option.bind_eq_some_iff.mp h
  obtain ⟨_, -, h⟩ := Option.bind_eq_some_iff.mp h
  obtain ⟨_, -, rfl⟩ := Option.map_eq_some_iff.mp h
  rw [fdIsset] at hready
  split at hready
  · obtain rfl := Option.some.inj hready
    by_cases hmem : s.fd e ∈ s.selectServerEvent.rfds
    · rw [if_pos (decide_eq_true hmem)] at hu
      exact Or.inl ⟨hmem, hu⟩
    · rw [if_neg (by simpa using hmem)] at hu
      exact Or.inr ⟨hmem, (Option.some.inj hu).symm⟩
  · exact absurd hready (by simp)

/-- The connection behind a registered client. -/
theorem UdsInv.connAt_eq (h : UdsInv s) {k : Socket} (hk : k ∈ s.sockets) :
    s.connAt k.fd = some k.conn := by
  have hfind : s.sockets.find? (fun l => decide (l.fd = k.fd)) = some k := by
    cases hf : s.sockets.find? fun l => decide (l.fd = k.fd) with
    | none => exact absurd (List.find?_eq_none.mp hf k hk) (by simp)
    | some l =>
        have hl : l.fd = k.fd := by simpa using List.find?_some hf
        rw [List.inj_on_of_nodup_map h.fds (List.mem_of_find?_eq_some hf) hk hl]
  rw [UdsState.connAt, hfind]
  rfl

theorem Dispatched.skip (h : Dispatched s fds i t reads) : Dispatched s fds (i + 1) t reads :=
  { h with
    start := fun hi => absurd hi (Nat.succ_ne_zero i)
    ahead := fun j e hj => h.ahead j e (Nat.le_of_succ_le hj) }

/-- The listener accepts before anything is closed, with a descriptor that is not
among the ready ones. -/
theorem Dispatched.accept (hs : UdsInv s) (hsub : fds ⊆ s.selectServerEvent.rCopyFds)
    (h : Dispatched s fds 0 t reads) {cfd : Option Int}
    (ha : appSelectTcpServerAccetpCb cfd t = some t') : Dispatched s fds 1 t' reads := by
  have hinv : UdsInv t' := h.inv.accept ha
  cases cfd with
  | none =>
      obtain rfl := Option.some.inj ha
      exact h.skip
  | some cfd =>
      obtain ⟨hopen, hcases⟩ := accept_cases h.inv ha
      obtain ⟨hsockets, hfd⟩ := h.start rfl
      have hnew : cfd ∉ fds := by
        intro hmem
        obtain ⟨e, he, hecfd⟩ := (hs.kept.fds cfd).mp (hsub hmem)
        have hopen' : s.Opens cfd := by
          rw [UdsState.Opens, ← hsockets, ← hfd]
          exact hopen
        exact hs.opens_ne hopen' he hecfd.symm
      rcases hcases with ⟨n, server, hn, hadd, rfl⟩ | ⟨-, rfl⟩
      · obtain ⟨hperm, hslots⟩ := registered_add hadd
        refine ⟨hinv, (rfds_add hadd).trans h.rfds, h.recvs, fun h1 => absurd h1 (by decide),
          h.once, h.ready, ?_⟩
        intro j e hj hslot hready
        have hne : e ≠ n := by
          rintro rfl
          exact hnew (by simpa using hready)
        have hne' : UdsEvent.client e ≠ .client n := fun heq => hne (UdsEvent.client.inj heq)
        -- the client was registered before, in the same slot
        have hold : .client e ∈ t.selectServerEvent.registered := by
          have hmem := hperm.mem_iff.mp (mem_registered hslot)
          exact List.mem_of_ne_of_mem hne' hmem
        obtain ⟨j', hj'⟩ := List.mem_iff_getElem?.mp (List.reduceOption_mem_iff.mp hold)
        obtain rfl : j' = j := slot_unique hinv.kept.once (hslots j' _ hj') hslot
        have hsame : Function.update t.fd (.client n) cfd (.client e) = t.fd (.client e) :=
          Function.update_of_ne hne' _ _
        obtain ⟨k, hks, hkt, hkfd, hkreads⟩ :=
          h.ahead j' e (Nat.zero_le j') hj' (by simpa only [hsame] using hready)
        exact ⟨k, hks, List.mem_append_left _ hkt, hkfd.trans hsame.symm, hkreads⟩
      · refine ⟨hinv, h.rfds, h.recvs, fun h1 => absurd h1 (by decide), h.once, h.ready, ?_⟩
        intro j e hj hslot hready
        obtain ⟨k, hks, hkt, hkfd, hkreads⟩ := h.ahead j e (Nat.zero_le j) hslot hready
        exact ⟨k, hks, List.mem_append_left _ hkt, hkfd, hkreads⟩

/-- What is ahead of a client is another client, with another connection. -/
theorem Dispatched.other (hs : UdsInv s) (h : Dispatched s fds i t reads)
    {n : Fin selectTcpMaxClient} {k : Socket}
    (hslot : t.selectServerEvent.selectClientEvent[i]? = some (some (.client n)))
    (hks : k ∈ s.sockets) (hkfd : k.fd = t.fd (.client n)) {j : Nat}
    {e : Fin selectTcpMaxClient} (hj : i + 1 ≤ j)
    (hslotj : t.selectServerEvent.selectClientEvent[j]? = some (some (.client e)))
    (hreadyj : t.fd (.client e) ∈ fds) :
    t.fd (.client e) ≠ t.fd (.client n) ∧
      ∃ k' ∈ s.sockets, k' ∈ t.sockets ∧ k'.fd = t.fd (.client e) ∧
        some k'.conn ∉ reads ++ [some k.conn] := by
  obtain ⟨k', hks', hkt', hkfd', hkreads'⟩ := h.ahead j e (Nat.le_of_succ_le hj) hslotj hreadyj
  have hne : e ≠ n := by
    rintro rfl
    exact absurd (slot_unique h.inv.kept.once hslotj hslot) (by omega)
  have hfdne : t.fd (.client e) ≠ t.fd (.client n) := by
    intro heq
    exact hne (UdsEvent.client.inj
      (h.inv.kept.apart _ (mem_registered hslotj) _ (mem_registered hslot) heq))
  refine ⟨hfdne, k', hks', hkt', hkfd', ?_⟩
  intro hmem
  rcases List.mem_append.mp hmem with hmem | hmem
  · exact hkreads' hmem
  · have heq : k' = k := List.inj_on_of_nodup_map hs.conns hks' hks
      (Option.some.inj (List.mem_singleton.mp hmem))
    exact hfdne (by rw [← hkfd', ← hkfd, heq])

/-- A client reads its own connection, and takes nothing from those ahead. -/
theorem Dispatched.recv (hs : UdsInv s) (h : Dispatched s fds i t reads)
    {n : Fin selectTcpMaxClient} {recvLen : Int}
    (hslot : t.selectServerEvent.selectClientEvent[i]? = some (some (.client n)))
    (hready : t.fd (.client n) ∈ fds)
    (hr : t.appSelectTcpServerRecvCb (.client n) recvLen = some t') :
    ∃ reads', Dispatched s fds (i + 1) t' reads' := by
  obtain ⟨k, hks, hkt, hkfd, hkreads⟩ := h.ahead i n (Nat.le_refl i) hslot hready
  have hreg : .client n ∈ t.selectServerEvent.registered := mem_registered hslot
  have hinv : UdsInv t' := h.inv.recv hreg hr
  have hconn : t.connAt (t.fd (.client n)) = some k.conn := by
    rw [← hkfd]
    exact h.inv.connAt_eq hkt
  have honce : (reads ++ [some k.conn]).Nodup := by
    rw [List.nodup_append_comm]
    exact List.nodup_cons.mpr ⟨hkreads, h.once⟩
  have hall : ∀ c ∈ reads ++ [some k.conn], ∃ k ∈ s.sockets, c = some k.conn ∧ k.fd ∈ fds := by
    intro c hc
    rcases List.mem_append.mp hc with hc | hc
    · exact h.ready c hc
    · exact ⟨k, hks, List.mem_singleton.mp hc, hkfd ▸ hready⟩
  have hrecvs : t.recvs ++ [t.connAt (t.fd (.client n))] = s.recvs ++ (reads ++ [some k.conn]) := by
    rw [hconn, h.recvs, List.append_assoc]
  rcases recv_cases hr with ⟨-, rfl⟩ | ⟨-, server, hdel, rfl⟩
  · refine ⟨reads ++ [some k.conn], hinv, h.rfds, hrecvs, fun h1 => absurd h1 (Nat.succ_ne_zero i),
      honce, hall, ?_⟩
    intro j e hj hslotj hreadyj
    exact (h.other hs hslot hks hkfd hj hslotj hreadyj).2
  · obtain ⟨hperm, hslots⟩ := registered_delete hreg hdel
    refine ⟨reads ++ [some k.conn], hinv, (rfds_delete hreg hdel).trans h.rfds, hrecvs,
      fun h1 => absurd h1 (Nat.succ_ne_zero i), honce, hall, ?_⟩
    intro j e hj hslotj hreadyj
    have hgone : .client n ∉ server.registered :=
      (List.nodup_cons.mp (hperm.nodup_iff.mp h.inv.kept.once)).1
    have hne : UdsEvent.client e ≠ .client n := by
      intro heq
      exact hgone (heq ▸ mem_registered hslotj)
    have hsame : Function.update t.fd (.client n) 0 (.client e) = t.fd (.client e) :=
      Function.update_of_ne hne _ _
    obtain ⟨hfdne, k', hks', hkt', hkfd', hkreads'⟩ :=
      h.other hs hslot hks hkfd hj ((hslots j _ hne).mp hslotj)
        (by simpa only [hsame] using hreadyj)
    refine ⟨k', hks', mem_closeSocket.mpr ⟨hkt', ?_⟩, hkfd'.trans hsame.symm, hkreads'⟩
    rw [hkfd']
    exact hfdne

/-- One slot of the walk. -/
theorem dispatched_step (hs : UdsInv s) (hsub : fds ⊆ s.selectServerEvent.rCopyFds)
    (h : Dispatched s fds i t reads) (hd : dispatchSlot answers t i = some t') :
    ∃ reads', Dispatched s fds (i + 1) t' reads' := by
  rw [dispatchSlot] at hd
  split at hd
  · rename_i e hslot
    rcases selectClientFdCheck_cases hd with ⟨hready, hcb⟩ | ⟨-, rfl⟩
    · rw [h.rfds] at hready
      cases e with
      | server =>
          obtain rfl : i = 0 := slot_unique h.inv.kept.once hslot h.inv.listener
          exact ⟨reads, h.accept hs hsub hcb⟩
      | client n => exact h.recv hs hslot hready hcb
    · exact ⟨reads, h.skip⟩
  · obtain rfl := Option.some.inj hd
    exact ⟨reads, h.skip⟩

/-- The walk begins with everything ahead. -/
theorem dispatched_start (hs : UdsInv s) (fds : Finset Int) :
    Dispatched s fds 0 (s.setRfds fds) [] := by
  refine ⟨hs.setRfds fds, rfl, (List.append_nil _).symm, fun _ => ⟨rfl, rfl⟩, List.nodup_nil,
    fun c hc => absurd hc List.not_mem_nil, ?_⟩
  intro j e hj hslot hready
  obtain ⟨k, hk, hkfd⟩ := hs.socket e ((hs.taken e).mpr (mem_registered hslot))
  exact ⟨k, hk, hk, hkfd, List.not_mem_nil⟩

/-- What one turn of the loop reads. -/
theorem selectServerTask_reads (hs : UdsInv s) {result : SelectResult}
    (h : selectServerTask result s = some s') :
    UdsInv s' ∧ ∃ reads, s'.recvs = s.recvs ++ reads ∧ reads.Nodup ∧
      ∀ c ∈ reads, ∃ k ∈ s.sockets, c = some k.conn ∧ k.fd ∈ result.fds := by
  have hnone : ∀ fds, UdsInv (s.setRfds fds) ∧ ∃ reads, (s.setRfds fds).recvs = s.recvs ++ reads ∧
      reads.Nodup ∧ ∀ c ∈ reads, ∃ k ∈ s.sockets, c = some k.conn ∧ k.fd ∈ result.fds := by
    intro fds
    exact ⟨hs.setRfds fds, [], (List.append_nil _).symm, List.nodup_nil,
      fun c hc => absurd hc List.not_mem_nil⟩
  rw [selectServerTask.eq_def] at h
  split at h
  · cases result with
    | failed =>
        obtain rfl := Option.some.inj h
        exact hnone _
    | timeout =>
        obtain rfl := Option.some.inj h
        exact hnone _
    | ready fds answers =>
        simp only at h
        split at h
        · rename_i hfds
          obtain ⟨reads, hd⟩ := foldlM_range (I := fun i t => ∃ reads, Dispatched s fds i t reads)
            ⟨[], dispatched_start hs fds⟩
            (fun i t t' _ hd hstep => hd.elim fun reads hd => dispatched_step hs hfds.1 hd hstep) h
          exact ⟨hd.inv, reads, hd.recvs, hd.once, hd.ready⟩
        · exact absurd h (by simp)
  · exact absurd h (by simp)

/-- **Readiness goes to the connection it is about.**  In every turn of the loop a
connection is read at most once, and only one that was open before the turn, behind a
descriptor `select` has reported; so none that the turn accepts. -/
theorem uds_reads_ready (listenFd : Int) (s₀ s s' : UdsState)
    (h₀ : udsTcpServerTask listenFd = some s₀) (turns : List SelectResult)
    (hrun : udsTask.run s₀ turns = some s) (result : SelectResult)
    (hturn : selectServerTask result s = some s') :
    ∃ reads, s'.recvs = s.recvs ++ reads ∧ reads.Nodup ∧
      (∀ c ∈ reads, ∃ k ∈ s.sockets, c = some k.conn ∧ k.fd ∈ result.fds) ∧
      ∀ conn, s.nextConn ≤ conn → some conn ∉ reads := by
  have hs : UdsInv s := Machine.run_invariant (P := UdsInv) (V := fun _ => True)
    (fun t result t' _ ht h => (selectServerTask_reads ht h).1) (fun _ _ => trivial)
    (udsInv_task h₀) hrun
  obtain ⟨-, reads, hrecvs, honce, hready⟩ := selectServerTask_reads hs hturn
  refine ⟨reads, hrecvs, honce, hready, ?_⟩
  intro conn hconn hmem
  obtain ⟨k, hk, heq, -⟩ := hready _ hmem
  have hlt : k.conn < s.nextConn := hs.old k hk
  rw [← Option.some.inj heq] at hlt
  exact absurd hlt (by omega)

/-- The first of two clients has left; its descriptor is used again in the turn that
reads the second. -/
theorem uds_reads_ready_reused : ∃ s₀ s s', udsTcpServerTask 5 = some s₀ ∧
    udsTask.run s₀ [.ready {5} ⟨fun _ => some 6, fun _ => 0⟩, .ready {5} ⟨fun _ => some 7, fun _ => 0⟩,
      .ready {6} ⟨fun _ => none, fun _ => 0⟩] = some s ∧
    selectServerTask (.ready {5, 7} ⟨fun _ => some 6, fun _ => 3⟩) s = some s' ∧
    ∃ reads, s'.recvs = s.recvs ++ reads ∧ reads.Nodup ∧
      (∀ c ∈ reads, ∃ k ∈ s.sockets, c = some k.conn ∧ k.fd ∈ ({5, 7} : Finset Int)) ∧
      ∀ conn, s.nextConn ≤ conn → some conn ∉ reads := by
  refine ⟨_, _, _, rfl, rfl, rfl, ?_⟩
  exact uds_reads_ready 5 _ _ _ rfl [.ready {5} ⟨fun _ => some 6, fun _ => 0⟩,
    .ready {5} ⟨fun _ => some 7, fun _ => 0⟩, .ready {6} ⟨fun _ => none, fun _ => 0⟩] rfl
    (.ready {5, 7} ⟨fun _ => some 6, fun _ => 3⟩) rfl

end X50
