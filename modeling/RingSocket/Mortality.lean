import RingSocket.Tcp

/-!
# The mortality state machine of `handle_tcp_io`

`handle_tcp_io` is the TCP layer's handler.  On a new peer it hands the peer to the TLS or
HTTP layer; on a peer another layer has given up on, it runs the bidirectional shutdown —
`shutdown(fd, SHUT_WR)`, then `read()` until the peer's FIN — and once that reaches `DEAD`
it closes the descriptor, zeroes the slot and returns it to the free list.

## Main Definitions

* `TcpEnv` — what one call is answered: the status of `init_tls_session` (defined outside
  src/), whether `shutdown()` succeeds, and the results of the drain's `read()`s.
* `TcpCall` — the calls a step makes, in order: the trace the run's safety is stated over.
* `writeBidirectionalTcpShutdown`, `readBidirectionalTcpShutdown`, `handleTcpIoSwitch`
  (the `switch`, which ends in a `return` or a `break`), `handleTcpIo`.
* `TcpEvent` — a call of `handle_tcp_io`, or another layer escalating a `LIVE` peer.
* `runSteps` — the steps of a run on one slot, which ends when the slot is freed or a step
  fails with `RS_FATAL` (the process exits).
* `StepSafe`, `TraceSafe` — what one step, and the calls of a whole run, must satisfy.
* `RunInv` — the phase of the slot and the shape of the trace so far.

## Design Notes

`handleTcpIo_cases` says once what a call can do, for every slot; `StepSafe` follows from it
for every held slot with an open descriptor and a peer that is not yet `DEAD`.  `DEAD` is
where the switch breaks (`handleTcpIoSwitch_brk_of_dead`), so a step that reaches it always
closes and frees the slot (`handleTcpIo_of_dead`), and no held slot is ever `DEAD`.  Only the
trace properties need the phases of `RunInv`: `RunInv.step` keeps them, and `RunInv.steps` and
`RunInv.traceSafe_run` carry them over a run by induction on its events.  A run stops at the
first `RS_FATAL`, since the process exits there, and after the step that frees the slot
(`runFinal_of_mem_runSteps`), so the `close()` of that step is the run's only one.

Safety alone would allow a slot that is never released.  `handleTcpIo_shutdown` says what a
call does to a peer being shut down, and `shutdown_run_final` gives the slot a whole run of
such calls leaves: freed by the first drain that reaches the peer's FIN, waiting before it.
-/

namespace RingSocket

/-- What the TLS library and the kernel answer during one call of `handle_tcp_io`: the
status `init_tls_session` returns, whether `shutdown(fd, SHUT_WR)` succeeds, and the
successive results of the drain's `read()`s — past the end of the list the socket has
nothing queued and `read()` fails with `EAGAIN`. -/
structure TcpEnv where
  initTlsSession : RsRet
  shutdownOk : Bool
  reads : List SysRet
  deriving DecidableEq, Repr

/-- The calls of `handle_tcp_io` a run's safety is stated over: the TLS handshake's start,
the shutdown, the drain's reads, `close()` and the return of the slot. -/
inductive TcpCall where
  | initTlsSession
  | shutdownWr (ok : Bool)
  | read (ret : SysRet)
  | close
  | freePeerSlot (peerI : Nat)
  deriving DecidableEq, Repr

/-- A slot of the worker's peer table: the peer record, whether its descriptor is open, and
whether the slot is held (not on the free list). -/
structure PeerSlot where
  peer : Peer
  fdOpen : Bool
  held : Bool
  deriving DecidableEq, Repr

/-- A slot as the acceptor hands it over. Modelled from the spec: a new peer is `LIVE`
at the TCP layer, in a zeroed slot, with its descriptor open. -/
def PeerSlot.accepted (fd : Int) (isEncrypted : Bool) : PeerSlot :=
  ⟨{ Peer.zero with socketFd := fd, isEncrypted := isEncrypted }, true, true⟩

/-- A slot after `close()`, `memset(peer, 0, ...)` and `free_peer_slot(peer_i)`. -/
def PeerSlot.freed : PeerSlot := ⟨Peer.zero, false, false⟩

/-! ## The functions -/

/-- `write_bidirectional_tcp_shutdown`. -/
def writeBidirectionalTcpShutdown (peer : Peer) (ok : Bool) : RsRet × Peer × List TcpCall :=
  if ok then (.ok, { peer with mortality := .shutdownRead }, [.shutdownWr true])
  else (.fatal, peer, [.shutdownWr false])

/-- The loop `do { rsize = read(...); } while (rsize > 0)`: the results of the reads that
returned bytes, and the result of the read that ended it. -/
def drainReads : List SysRet → List SysRet × SysRet
  | [] => ([], .error .eagain)
  | .count (n + 1) :: rs => (.count (n + 1) :: (drainReads rs).1, (drainReads rs).2)
  | r :: _ => ([], r)

/-- `read_bidirectional_tcp_shutdown`, given the result `last` of its final `read()`. -/
def readShutdownResult (peer : Peer) : SysRet → RsRet × Peer
  | .count 0 => (.closePeer, { peer with mortality := .dead })
  | .error .eagain => (.again, { peer with isWriting := false })
  | _ => (.closePeer, { peer with mortality := .dead })

/-- `read_bidirectional_tcp_shutdown`. -/
def readBidirectionalTcpShutdown (peer : Peer) (reads : List SysRet) :
    RsRet × Peer × List TcpCall :=
  let d := drainReads reads
  let r := readShutdownResult peer d.2
  (r.1, r.2, (d.1 ++ [d.2]).map .read)

/-- How the `switch` of `handle_tcp_io` is left: by a `return`, or by a `break` to the
code after it. -/
inductive SwitchExit where
  | ret (r : RsRet)
  | brk
  deriving DecidableEq, Repr

/-- The inner `switch` on the drain's status. -/
def drainExit : RsRet → SwitchExit
  | .again => .ret .ok
  | .fatal => .ret .fatal
  | _ => .brk

/-- The `switch (peer->mortality)` of `handle_tcp_io`, with its fall-throughs. -/
def handleTcpIoSwitch (peer : Peer) (env : TcpEnv) : SwitchExit × Peer × List TcpCall :=
  match peer.mortality with
  | .live =>
    if peer.isEncrypted then
      (.ret env.initTlsSession, { peer with layer := .tls }, [.initTlsSession])
    else (.ret .ok, { peer with layer := .http }, [])
  | .shutdownWrite =>
    let w := writeBidirectionalTcpShutdown peer env.shutdownOk
    if w.1 ≠ .ok then (.ret w.1, w.2.1, w.2.2) else
    let r := readBidirectionalTcpShutdown w.2.1 env.reads
    (drainExit r.1, r.2.1, w.2.2 ++ r.2.2)
  | .shutdownRead =>
    let r := readBidirectionalTcpShutdown peer env.reads
    (drainExit r.1, r.2.1, r.2.2)
  | .dead => (.brk, peer, [])

/-- `handle_tcp_io(peer, rbuf, rbuf_size, peer_i)`: the switch, then — when it breaks —
`close(fd)` (whose failure is only logged), `memset(peer, 0, ...)` and
`free_peer_slot(peer_i)`. -/
def handleTcpIo (peerI : Nat) (slot : PeerSlot) (env : TcpEnv) : RsRet × PeerSlot × List TcpCall :=
  match handleTcpIoSwitch slot.peer env with
  | (.ret r, peer, calls) => (r, { slot with peer := peer }, calls)
  | (.brk, _, calls) => (.ok, PeerSlot.freed, calls ++ [.close, .freePeerSlot peerI])


/-! ## One step -/

/-- The `shutdown()` a step issues: one, successful, when the peer was `SHUTDOWN_WRITE`. -/
def shutdownCalls (m : Mortality) : List TcpCall :=
  if m = .shutdownWrite then [.shutdownWr true] else []

/-- A list of `read()` calls. -/
def AllReads (calls : List TcpCall) : Prop := ∀ c ∈ calls, ∃ r, c = .read r

theorem allReads_map (rs : List SysRet) : AllReads (rs.map .read) := by
  intro c hc
  obtain ⟨r, -, rfl⟩ := List.mem_map.mp hc
  exact ⟨r, rfl⟩

theorem readShutdownResult_cases (peer : Peer) (last : SysRet) :
    readShutdownResult peer last = (.again, { peer with isWriting := false }) ∨
    readShutdownResult peer last = (.closePeer, { peer with mortality := .dead }) := by
  rcases last with (_ | _) | (_ | _) <;> simp [readShutdownResult]

/-- The drain of a peer in `SHUTDOWN_READ`: some reads, then a wait for the peer's FIN, or
`DEAD` and a `break`. -/
theorem handleTcpIoSwitch_drain (peer : Peer) (env : TcpEnv) (hm : peer.mortality = .shutdownRead) :
    ∃ reads, AllReads reads ∧
      (handleTcpIoSwitch peer env = (.ret .ok, { peer with isWriting := false }, reads) ∨
        handleTcpIoSwitch peer env = (.brk, { peer with mortality := .dead }, reads)) := by
  refine ⟨_, allReads_map ((drainReads env.reads).1 ++ [(drainReads env.reads).2]), ?_⟩
  rcases readShutdownResult_cases peer (drainReads env.reads).2 with h | h <;>
    simp [handleTcpIoSwitch, hm, readBidirectionalTcpShutdown, h, drainExit]

/-- A successful `shutdown()` falls through to the drain. -/
theorem handleTcpIoSwitch_shutdownWrite (peer : Peer) (env : TcpEnv)
    (hm : peer.mortality = .shutdownWrite) (hok : env.shutdownOk) :
    handleTcpIoSwitch peer env =
      ((handleTcpIoSwitch { peer with mortality := .shutdownRead } env).1,
        (handleTcpIoSwitch { peer with mortality := .shutdownRead } env).2.1,
        .shutdownWr true ::
          (handleTcpIoSwitch { peer with mortality := .shutdownRead } env).2.2) := by
  simp [handleTcpIoSwitch, hm, writeBidirectionalTcpShutdown, hok]

/-- The switch `break`s whenever it leaves the peer `DEAD`: a peer already `DEAD`, or a drain
that ended in `RS_CLOSE_PEER`. -/
theorem handleTcpIoSwitch_brk_of_dead {peer : Peer} {env : TcpEnv}
    (h : (handleTcpIoSwitch peer env).2.1.mortality = .dead) :
    (handleTcpIoSwitch peer env).1 = .brk := by
  have hdrain : ∀ p : Peer, p.mortality = .shutdownRead →
      (handleTcpIoSwitch p env).2.1.mortality = .dead → (handleTcpIoSwitch p env).1 = .brk :=
    fun p hm hd => by
      obtain ⟨_, -, hs | hs⟩ := handleTcpIoSwitch_drain p env hm <;> rw [hs] at hd ⊢
      simp [hm] at hd
  obtain ⟨fd, enc, wr, layer, m, ow⟩ := peer
  cases m with
  | live => cases enc <;> simp [handleTcpIoSwitch] at h
  | shutdownWrite =>
    cases hok : env.shutdownOk
    · simp [handleTcpIoSwitch, writeBidirectionalTcpShutdown, hok] at h
    · rw [handleTcpIoSwitch_shutdownWrite _ env rfl hok] at h ⊢
      exact hdrain _ rfl h
  | shutdownRead => exact hdrain _ rfl h
  | dead => rfl

/-- **A call whose switch reaches `DEAD` closes and frees the slot**: it returns `RS_OK`
after the switch's calls, `close()` and `free_peer_slot(peer_i)`, with the slot zeroed. -/
theorem handleTcpIo_of_dead (peerI : Nat) (slot : PeerSlot) (env : TcpEnv)
    (h : (handleTcpIoSwitch slot.peer env).2.1.mortality = .dead) :
    handleTcpIo peerI slot env =
      (.ok, PeerSlot.freed, (handleTcpIoSwitch slot.peer env).2.2 ++ [.close, .freePeerSlot peerI]) := by
  have hb := handleTcpIoSwitch_brk_of_dead h
  unfold handleTcpIo
  rcases hs : handleTcpIoSwitch slot.peer env with ⟨_ | _, peer, calls⟩
  · rw [hs] at hb; exact nomatch hb
  · rfl

/-- **Everything one call of `handle_tcp_io` can do**: hand a `LIVE` peer to the TLS or HTTP
layer; fail with `RS_FATAL` when `shutdown()` fails; wait for the drain, in
`SHUTDOWN_READ` with a read-side wait; or free the slot — after the shutdown and the drain
it was at, and only when the switch has brought the peer to `DEAD`. -/
theorem handleTcpIo_cases (peerI : Nat) (slot : PeerSlot) (env : TcpEnv) :
    (slot.peer.mortality = .live ∧
      handleTcpIo peerI slot env =
        (if slot.peer.isEncrypted then env.initTlsSession else .ok,
          { slot with peer := { slot.peer with
            layer := if slot.peer.isEncrypted then .tls else .http } },
          if slot.peer.isEncrypted then [.initTlsSession] else [])) ∨
    (slot.peer.mortality = .shutdownWrite ∧
      handleTcpIo peerI slot env = (.fatal, slot, [.shutdownWr false])) ∨
    ((slot.peer.mortality = .shutdownWrite ∨ slot.peer.mortality = .shutdownRead) ∧
      ∃ reads, AllReads reads ∧
        handleTcpIo peerI slot env =
          (.ok,
            { slot with peer := { slot.peer with mortality := .shutdownRead, isWriting := false } },
            shutdownCalls slot.peer.mortality ++ reads)) ∨
    (slot.peer.mortality ≠ .live ∧ (handleTcpIoSwitch slot.peer env).2.1.mortality = .dead ∧
      ∃ reads, AllReads reads ∧ (slot.peer.mortality = .dead → reads = []) ∧
        handleTcpIo peerI slot env =
          (.ok, PeerSlot.freed,
            shutdownCalls slot.peer.mortality ++ reads ++ [.close, .freePeerSlot peerI])) := by
  obtain ⟨⟨fd, enc, wr, layer, m, ow⟩, fdOpen, held⟩ := slot
  cases m with
  | live => left; cases enc <;> simp [handleTcpIo, handleTcpIoSwitch]
  | shutdownWrite =>
    cases hok : env.shutdownOk
    · right; left
      simp [handleTcpIo, handleTcpIoSwitch, writeBidirectionalTcpShutdown, hok]
    · right; right
      have hsw :=
        handleTcpIoSwitch_shutdownWrite ⟨fd, enc, wr, layer, .shutdownWrite, ow⟩ env rfl hok
      obtain ⟨reads, hr, h | h⟩ :=
        handleTcpIoSwitch_drain ⟨fd, enc, wr, layer, .shutdownRead, ow⟩ env rfl
      · exact .inl ⟨by simp, _, hr, by simp [handleTcpIo, hsw, h, shutdownCalls]⟩
      · exact .inr ⟨by simp, by simp [hsw, h], _, hr, by simp,
          by simp [handleTcpIo, hsw, h, shutdownCalls]⟩
  | shutdownRead =>
    right; right
    obtain ⟨reads, hr, h | h⟩ :=
      handleTcpIoSwitch_drain ⟨fd, enc, wr, layer, .shutdownRead, ow⟩ env rfl
    · exact .inl ⟨by simp, _, hr, by simp [handleTcpIo, h, shutdownCalls]⟩
    · exact .inr ⟨by simp, by simp [h], _, hr, by simp, by simp [handleTcpIo, h, shutdownCalls]⟩
  | dead =>
    right; right; right
    exact ⟨by simp, rfl, [], (fun _ h => nomatch h), fun _ => rfl,
      by simp [handleTcpIo, handleTcpIoSwitch, shutdownCalls]⟩

/-! ## Runs -/

/-- What another layer may do to a peer between two calls of `handle_tcp_io`.  Modelled from
the spec: a layer returning `RS_CLOSE_PEER` for a `LIVE` peer escalates it to
`SHUTDOWN_WRITE`, back at the TCP layer whose handler runs the shutdown; any other peer is
left alone. -/
def escalate (slot : PeerSlot) : PeerSlot :=
  if slot.peer.mortality = .live then
    { slot with peer := { slot.peer with mortality := .shutdownWrite, layer := .tcp } }
  else slot

@[simp] theorem escalate_held (slot : PeerSlot) : (escalate slot).held = slot.held := by
  unfold escalate; split <;> rfl

@[simp] theorem escalate_fdOpen (slot : PeerSlot) : (escalate slot).fdOpen = slot.fdOpen := by
  unfold escalate; split <;> rfl

/-- One event on a slot: a call of `handle_tcp_io`, or another layer returning
`RS_CLOSE_PEER` for the peer. -/
inductive TcpEvent where
  | io (env : TcpEnv)
  | closePeer
  deriving DecidableEq, Repr

/-- The status, the slot and the calls of one event. -/
def TcpEvent.apply (peerI : Nat) (slot : PeerSlot) : TcpEvent → RsRet × PeerSlot × List TcpCall
  | .io env => handleTcpIo peerI slot env
  | .closePeer => (.closePeer, escalate slot, [])

/-- The steps of a run on one slot: each event with the slot it finds.  The run goes on
while the slot is held, and ends after a step that failed with `RS_FATAL`: the process
exits. -/
def runSteps (peerI : Nat) : PeerSlot → List TcpEvent → List (PeerSlot × TcpEvent)
  | _, [] => []
  | slot, ev :: evs =>
    if slot.held then
      (slot, ev) :: if (ev.apply peerI slot).1 = .fatal then []
        else runSteps peerI (ev.apply peerI slot).2.1 evs
    else []

/-- The slot a run leaves. -/
def runFinal (peerI : Nat) : PeerSlot → List TcpEvent → PeerSlot
  | slot, [] => slot
  | slot, ev :: evs =>
    if slot.held then
      if (ev.apply peerI slot).1 = .fatal then (ev.apply peerI slot).2.1
      else runFinal peerI (ev.apply peerI slot).2.1 evs
    else slot

/-- The calls of a run, in order. -/
def runTrace (peerI : Nat) (slot : PeerSlot) (evs : List TcpEvent) : List TcpCall :=
  (runSteps peerI slot evs).flatMap fun st => (st.2.apply peerI st.1).2.2

theorem runTrace_cons (peerI : Nat) (slot : PeerSlot) (ev : TcpEvent) (evs : List TcpEvent) :
    runTrace peerI slot (ev :: evs) =
      if slot.held then
        (ev.apply peerI slot).2.2 ++ if (ev.apply peerI slot).1 = .fatal then []
          else runTrace peerI (ev.apply peerI slot).2.1 evs
      else [] := by
  unfold runTrace
  by_cases h : slot.held <;> by_cases hf : (ev.apply peerI slot).1 = .fatal <;>
    simp [runSteps, h, hf]

theorem runFinal_of_not_held (peerI : Nat) {slot : PeerSlot} (h : slot.held = false)
    (evs : List TcpEvent) : runFinal peerI slot evs = slot := by
  cases evs <;> simp [runFinal, h]

/-- A run ends with the step that frees the slot: the slot that step leaves is the run's. -/
theorem runFinal_of_mem_runSteps (peerI : Nat) {evs : List TcpEvent} :
    ∀ {slot}, ∀ st ∈ runSteps peerI slot evs, (st.2.apply peerI st.1).2.1.held = false →
      runFinal peerI slot evs = (st.2.apply peerI st.1).2.1 := by
  induction evs with
  | nil => intro _ _ hst; exact nomatch hst
  | cons ev evs ih =>
    intro slot st hst hfree
    simp only [runSteps] at hst
    split at hst
    · simp only [runFinal, ‹slot.held = true›, ↓reduceIte]
      rcases List.mem_cons.mp hst with rfl | hst
      · split
        · rfl
        · exact runFinal_of_not_held peerI hfree evs
      · split at hst
        · exact nomatch hst
        · rw [if_neg ‹_›]; exact ih st hst hfree
    · exact nomatch hst

/-! ## What one step guarantees -/

/-- What one step from a held slot guarantees, with `out` its status, slot and calls. -/
structure StepSafe (peerI : Nat) (slot : PeerSlot) (ev : TcpEvent)
    (out : RsRet × PeerSlot × List TcpCall) : Prop where
  /-- While the slot stays held, mortality never moves backwards. -/
  mono : out.2.1.held → slot.peer.mortality.rank ≤ out.2.1.peer.mortality.rank
  /-- A slot the step leaves held is never `DEAD`. -/
  alive : out.2.1.held → out.2.1.peer.mortality ≠ .dead
  /-- A step that fails with `RS_FATAL` leaves the descriptor open and the slot held. -/
  fatal : out.1 = .fatal → out.2.1.fdOpen ∧ out.2.1.held
  /-- `close()` is called exactly in the steps that free the slot. -/
  close : TcpCall.close ∈ out.2.2 ↔ ¬ out.2.1.held
  /-- Such a step is a call of `handle_tcp_io` whose switch brought the peer to `DEAD`; it
  ends with `close()` and `free_peer_slot(peer_i)`, leaving the slot zeroed and free. -/
  freed : ¬ out.2.1.held → out.2.1 = PeerSlot.freed ∧
    (∃ pre, out.2.2 = pre ++ [.close, .freePeerSlot peerI]) ∧
    ∃ env, ev = .io env ∧ (handleTcpIoSwitch slot.peer env).2.1.mortality = .dead
  /-- And every call of `handle_tcp_io` whose switch brings the peer to `DEAD` is such a step:
  it returns `RS_OK` after the switch's calls, `close()` and `free_peer_slot(peer_i)`. -/
  dead : ∀ env, ev = .io env → (handleTcpIoSwitch slot.peer env).2.1.mortality = .dead →
    out = (.ok, PeerSlot.freed,
      (handleTcpIoSwitch slot.peer env).2.2 ++ [.close, .freePeerSlot peerI])
  /-- A call that returns `RS_OK` and keeps the slot hands a `LIVE` peer to the TLS or HTTP
  layer, or leaves it in `SHUTDOWN_READ` waiting for a readable event. -/
  ok : ∀ env, ev = .io env → out.1 = .ok → out.2.1.held →
    (out.2.1.peer.mortality = .live ∧
      out.2.1.peer.layer = if slot.peer.isEncrypted then .tls else .http) ∨
    (out.2.1.peer.mortality = .shutdownRead ∧ out.2.1.peer.isWriting = false)

theorem close_not_mem_waiting (m : Mortality) {reads : List TcpCall} (hr : AllReads reads) :
    TcpCall.close ∉ shutdownCalls m ++ reads := by
  intro h
  rcases List.mem_append.mp h with h | h
  · unfold shutdownCalls at h; split at h <;> simp_all
  · obtain ⟨r, hr⟩ := hr _ h
    exact nomatch hr

theorem stepSafe_io (peerI : Nat) (slot : PeerSlot) (env : TcpEnv) (hheld : slot.held)
    (hfd : slot.fdOpen) : StepSafe peerI slot (.io env) (handleTcpIo peerI slot env) := by
  have hdead : ∀ env', TcpEvent.io env = .io env' →
      (handleTcpIoSwitch slot.peer env').2.1.mortality = .dead →
      handleTcpIo peerI slot env = (.ok, PeerSlot.freed,
        (handleTcpIoSwitch slot.peer env').2.2 ++ [.close, .freePeerSlot peerI]) := by
    rintro _ ⟨⟩; exact handleTcpIo_of_dead peerI slot env
  rcases handleTcpIo_cases peerI slot env with
    ⟨hm, h⟩ | ⟨hm, h⟩ | ⟨hm, reads, hr, h⟩ | ⟨-, hd, reads, -, -, h⟩ <;> rw [h] at hdead ⊢
  · -- a `LIVE` peer is handed on
    refine ⟨fun _ => le_rfl, fun _ => by simp [hm], fun _ => ⟨hfd, hheld⟩, ?_,
      fun h => absurd hheld h, hdead, fun _ _ _ _ => Or.inl ⟨hm, rfl⟩⟩
    cases slot.peer.isEncrypted <;> simp [hheld]
  · -- `shutdown()` failed
    exact ⟨fun _ => le_rfl, fun _ => by simp [hm], fun _ => ⟨hfd, hheld⟩, by simp [hheld],
      fun h => absurd hheld h, hdead, fun _ _ h _ => nomatch h⟩
  · -- the drain waits for the peer's FIN
    refine ⟨fun _ => ?_, fun _ => by simp, (fun h => nomatch h), ?_, fun h => absurd hheld h,
      hdead, fun _ _ _ _ => Or.inr ⟨rfl, rfl⟩⟩
    · rcases hm with hm | hm <;> simp [hm, Mortality.rank]
    · simpa [hheld] using close_not_mem_waiting slot.peer.mortality hr
  · -- the slot is freed
    exact ⟨(fun h => nomatch h), (fun h => nomatch h), (fun h => nomatch h),
      by simp [PeerSlot.freed], fun _ => ⟨rfl, ⟨_, rfl⟩, env, rfl, hd⟩, hdead,
      (fun _ _ _ h => nomatch h)⟩

theorem stepSafe_closePeer (peerI : Nat) (slot : PeerSlot) (hheld : slot.held)
    (halive : slot.peer.mortality ≠ .dead) :
    StepSafe peerI slot .closePeer (TcpEvent.closePeer.apply peerI slot) := by
  refine ⟨fun _ => ?_, fun _ => ?_, (fun h => nomatch h), by simp [TcpEvent.apply, hheld],
    fun h => absurd (by simpa [TcpEvent.apply] using hheld) h, (fun _ h => nomatch h),
    (fun _ h => nomatch h)⟩ <;>
  · simp only [TcpEvent.apply, escalate]
    split <;> simp [*, Mortality.rank]

/-! ## The trace of a run -/

/-- Whether a call is a `shutdown()`. -/
def TcpCall.isShutdown : TcpCall → Bool
  | .shutdownWr _ => true
  | _ => false

/-- Calls of `init_tls_session()` only. -/
def Inits (calls : List TcpCall) : Prop := ∀ c ∈ calls, c = .initTlsSession

/-- Calls other than `shutdown()`, `close()` and `free_peer_slot()`. -/
def Quiet (calls : List TcpCall) : Prop :=
  ∀ c ∈ calls, c.isShutdown = false ∧ c ≠ .close ∧ ∀ i, c ≠ .freePeerSlot i

theorem Inits.quiet {calls : List TcpCall} (h : Inits calls) : Quiet calls := fun c hc => by
  rw [h c hc]; exact ⟨rfl, nofun, nofun⟩

theorem AllReads.quiet {calls : List TcpCall} (h : AllReads calls) : Quiet calls := fun c hc => by
  obtain ⟨r, rfl⟩ := h c hc; exact ⟨rfl, nofun, nofun⟩

theorem Inits.append {a b : List TcpCall} (ha : Inits a) (hb : Inits b) : Inits (a ++ b) :=
  fun c hc => (List.mem_append.mp hc).elim (ha c) (hb c)

theorem AllReads.append {a b : List TcpCall} (ha : AllReads a) (hb : AllReads b) :
    AllReads (a ++ b) :=
  fun c hc => (List.mem_append.mp hc).elim (ha c) (hb c)

theorem Quiet.counts {calls : List TcpCall} (h : Quiet calls) (peerI : Nat) :
    calls.countP TcpCall.isShutdown = 0 ∧ calls.count .close = 0 ∧
      calls.count (.freePeerSlot peerI) = 0 :=
  ⟨List.countP_eq_zero.mpr fun c hc => by simp [(h c hc).1],
    List.count_eq_zero.mpr fun hc => (h _ hc).2.1 rfl,
    List.count_eq_zero.mpr fun hc => (h _ hc).2.2 peerI rfl⟩

/-- Every `read()` of a trace that starts with no read before a successful `shutdown()`
comes after that `shutdown()`. -/
theorem shutdown_mem_of_read {inits : List TcpCall} (hi : Inits inits) (rest : List TcpCall) :
    ∀ pre r post, inits ++ .shutdownWr true :: rest = pre ++ .read r :: post →
      TcpCall.shutdownWr true ∈ pre := by
  induction inits with
  | nil =>
    rintro (_ | ⟨c, pre⟩) r post h
    · exact nomatch h
    · exact (List.cons.inj h).1 ▸ List.mem_cons_self _ _
  | cons c inits ih =>
    rintro (_ | ⟨d, pre⟩) r post h
    · exact nomatch (hi c (List.mem_cons_self _ _)).symm.trans (List.cons.inj h).1
    · exact List.mem_cons_of_mem _ (ih (fun c hc => hi c (List.mem_cons_of_mem _ hc)) pre r post
        (List.cons.inj h).2)

/-- What the calls of a run that left the slot `final` satisfy. -/
structure TraceSafe (peerI : Nat) (final : PeerSlot) (trace : List TcpCall) : Prop where
  /-- A slot the run leaves held is never `DEAD`. -/
  alive : final.held → final.peer.mortality ≠ .dead
  /-- `shutdown(fd, SHUT_WR)` is issued at most once. -/
  shutdownOnce : trace.countP TcpCall.isShutdown ≤ 1
  /-- Every drain `read()` comes after a successful `shutdown()`. -/
  readAfterShutdown : ∀ pre r post, trace = pre ++ .read r :: post → .shutdownWr true ∈ pre
  /-- `close()` is called once if the run freed the slot, and never otherwise. -/
  closeOnce : trace.count .close = if final.held then 0 else 1
  /-- `free_peer_slot(peer_i)` is called as often as `close()`. -/
  freeWithClose : trace.count (.freePeerSlot peerI) = trace.count .close

/-- **The trace so far, by the phase of the slot**: some `init_tls_session()`s while the
peer is `LIVE` or `SHUTDOWN_WRITE`; then one successful `shutdown()` and the drain's reads
while it is `SHUTDOWN_READ`; then `close()` and `free_peer_slot(peer_i)` once the slot is
free.  A held slot has its descriptor open and is never `DEAD`. -/
inductive RunInv (peerI : Nat) : PeerSlot → List TcpCall → Prop
  | opening {slot inits} : slot.held → slot.fdOpen →
      slot.peer.mortality = .live ∨ slot.peer.mortality = .shutdownWrite → Inits inits →
      RunInv peerI slot inits
  | draining {slot inits reads} : slot.held → slot.fdOpen →
      slot.peer.mortality = .shutdownRead → Inits inits → AllReads reads →
      RunInv peerI slot (inits ++ .shutdownWr true :: reads)
  | freed {inits reads} : Inits inits → AllReads reads →
      RunInv peerI PeerSlot.freed
        (inits ++ .shutdownWr true :: reads ++ [.close, .freePeerSlot peerI])

theorem RunInv.fdOpen {peerI : Nat} {slot : PeerSlot} {tr : List TcpCall}
    (h : RunInv peerI slot tr) (hheld : slot.held) : slot.fdOpen := by
  cases h with
  | opening _ hfd _ _ | draining _ hfd _ _ _ => exact hfd
  | freed _ _ => exact nomatch hheld

theorem RunInv.alive {peerI : Nat} {slot : PeerSlot} {tr : List TcpCall}
    (h : RunInv peerI slot tr) (hheld : slot.held) : slot.peer.mortality ≠ .dead := by
  cases h with
  | opening _ _ hm _ => rcases hm with hm | hm <;> simp [hm]
  | draining _ _ hm _ _ => simp [hm]
  | freed _ _ => exact nomatch hheld

theorem RunInv.traceSafe {peerI : Nat} {slot : PeerSlot} {tr : List TcpCall}
    (h : RunInv peerI slot tr) : TraceSafe peerI slot tr := by
  have halive := h.alive
  cases h with
  | opening hheld _ _ hi =>
    obtain ⟨h1, h2, h3⟩ := hi.quiet.counts peerI
    refine ⟨halive, by omega, fun pre r post htr => ?_, by simp [h2, hheld], by rw [h2, h3]⟩
    exact nomatch hi (.read r) (htr ▸ List.mem_append_right _ (List.mem_cons_self _ _))
  | draining hheld _ _ hi hr =>
    obtain ⟨i1, i2, i3⟩ := hi.quiet.counts peerI
    obtain ⟨r1, r2, r3⟩ := hr.quiet.counts peerI
    exact ⟨halive, by simp [i1, r1, TcpCall.isShutdown], shutdown_mem_of_read hi _,
      by simp [i2, r2, hheld], by simp [i2, i3, r2, r3]⟩
  | freed hi hr =>
    obtain ⟨i1, i2, i3⟩ := hi.quiet.counts peerI
    obtain ⟨r1, r2, r3⟩ := hr.quiet.counts peerI
    exact ⟨halive, by simp [i1, r1, TcpCall.isShutdown], fun pre r post h =>
      shutdown_mem_of_read hi (_ ++ _) pre r post (by simpa using h),
      by simp [i2, r2, PeerSlot.freed], by simp [i2, i3, r2, r3]⟩

theorem traceSafe_failed {peerI : Nat} {final : PeerSlot} {inits : List TcpCall}
    (hi : Inits inits) (hheld : final.held) (halive : final.peer.mortality ≠ .dead) :
    TraceSafe peerI final (inits ++ [.shutdownWr false]) := by
  obtain ⟨h1, h2, h3⟩ := hi.quiet.counts peerI
  refine ⟨fun _ => halive, by simp [h1, TcpCall.isShutdown], fun pre r post htr => ?_,
    by simp [h2, hheld], by simp [h2, h3]⟩
  have hmem : TcpCall.read r ∈ inits ++ [.shutdownWr false] :=
    htr ▸ List.mem_append_right _ (List.mem_cons_self _ _)
  simp only [List.mem_append, List.mem_singleton] at hmem
  exact hmem.elim (fun h => nomatch hi _ h) (fun h => nomatch h)

/-- Once `shutdown()` has succeeded — in this step or an earlier one — the calls of a run
are some `init_tls_session()`s, that `shutdown()`, and reads. -/
theorem RunInv.drain_trace {peerI : Nat} {slot : PeerSlot} {tr reads : List TcpCall}
    (h : RunInv peerI slot tr) (hheld : slot.held) (hm : slot.peer.mortality ≠ .live)
    (hr : AllReads reads) :
    ∃ inits reads', Inits inits ∧ AllReads reads' ∧
      tr ++ (shutdownCalls slot.peer.mortality ++ reads) = inits ++ .shutdownWr true :: reads' := by
  cases h with
  | opening _ _ hm' hi =>
    rw [hm'.resolve_left hm]
    exact ⟨_, reads, hi, hr, by simp [shutdownCalls]⟩
  | draining _ _ hm' hi hr' =>
    rw [hm']
    exact ⟨_, _, hi, hr'.append hr, by simp [shutdownCalls]⟩
  | freed => exact nomatch hheld

/-- **One step keeps the invariant**, unless it fails with `RS_FATAL` after a failed
`shutdown()`, which ends the run. -/
theorem RunInv.step {peerI : Nat} {slot : PeerSlot} {tr : List TcpCall}
    (h : RunInv peerI slot tr) (hheld : slot.held) (ev : TcpEvent) :
    RunInv peerI (ev.apply peerI slot).2.1 (tr ++ (ev.apply peerI slot).2.2) ∨
      ((ev.apply peerI slot).1 = .fatal ∧ (ev.apply peerI slot).2.1.held ∧
        (ev.apply peerI slot).2.1.peer.mortality ≠ .dead ∧
        ∃ inits, Inits inits ∧ tr ++ (ev.apply peerI slot).2.2 = inits ++ [.shutdownWr false]) := by
  cases ev with
  | closePeer =>
    left
    simp only [TcpEvent.apply, List.append_nil]
    cases h with
    | opening hh hfd hm hi =>
      unfold escalate; split
      · exact .opening hh hfd (Or.inr rfl) hi
      · exact .opening hh hfd hm hi
    | draining hh hfd hm hi hr =>
      rw [escalate, if_neg (by simp [hm])]; exact .draining hh hfd hm hi hr
    | freed => exact nomatch hheld
  | io env =>
    simp only [TcpEvent.apply]
    rcases handleTcpIo_cases peerI slot env with
      ⟨hm, h'⟩ | ⟨hm, h'⟩ | ⟨hm, reads, hr, h'⟩ | ⟨hlive, -, reads, hr, -, h'⟩ <;> rw [h']
    · -- a `LIVE` peer is handed on, with or without `init_tls_session()`
      left
      have hc : Inits (if slot.peer.isEncrypted then [.initTlsSession] else []) := by
        split <;> simp [Inits]
      cases h with
      | opening hh hfd _ hi => exact .opening hh hfd (Or.inl hm) (hi.append hc)
      | draining _ _ hm' _ _ => exact nomatch hm.symm.trans hm'
      | freed => exact nomatch hheld
    · -- `shutdown()` failed: the run ends
      right
      cases h with
      | opening _ _ _ hi => exact ⟨rfl, hheld, by simp [hm], _, hi, rfl⟩
      | draining _ _ hm' _ _ => exact nomatch hm.symm.trans hm'
      | freed => exact nomatch hheld
    · -- the drain waits
      obtain ⟨inits, reads', hi, hr', htr⟩ :=
        h.drain_trace hheld (by rcases hm with hm | hm <;> simp [hm]) hr
      rw [htr]
      exact .inl (.draining hheld (h.fdOpen hheld) rfl hi hr')
    · -- the slot is freed
      obtain ⟨inits, reads', hi, hr', htr⟩ := h.drain_trace hheld hlive hr
      rw [← List.append_assoc, htr]
      exact .inl (.freed hi hr')

/-- Every step of a run from a slot in the invariant finds the slot held, and in the
invariant. -/
theorem RunInv.steps {peerI : Nat} (evs : List TcpEvent) :
    ∀ {slot tr}, RunInv peerI slot tr →
      ∀ st ∈ runSteps peerI slot evs, st.1.held ∧ ∃ tr', RunInv peerI st.1 tr' := by
  induction evs with
  | nil => intro _ _ _ _ hst; exact nomatch hst
  | cons ev evs ih =>
    intro slot tr h st hst
    simp only [runSteps] at hst
    split at hst
    · rcases List.mem_cons.mp hst with rfl | hst
      · exact ⟨‹_›, _, h⟩
      · split at hst
        · exact nomatch hst
        · exact (h.step ‹_› ev).elim (fun h' => ih h' st hst) fun hf => absurd hf.1 ‹_›
    · exact nomatch hst

/-- **The trace properties hold after every run** from a slot in the invariant. -/
theorem RunInv.traceSafe_run {peerI : Nat} (evs : List TcpEvent) :
    ∀ {slot tr}, RunInv peerI slot tr →
      TraceSafe peerI (runFinal peerI slot evs) (tr ++ runTrace peerI slot evs) := by
  induction evs with
  | nil => intro _ _ h; simpa [runFinal, runTrace, runSteps] using h.traceSafe
  | cons ev evs ih =>
    intro slot tr h
    rw [runTrace_cons]
    by_cases hheld : slot.held
    · by_cases hf : (ev.apply peerI slot).1 = .fatal
      · simp only [runFinal, hheld, hf, ↓reduceIte, List.append_nil]
        rcases h.step hheld ev with h' | ⟨-, hh, ha, inits, hi, htr⟩
        · exact h'.traceSafe
        · rw [htr]; exact traceSafe_failed hi hh ha
      · simp only [runFinal, hheld, hf, ↓reduceIte, ← List.append_assoc]
        exact (h.step hheld ev).elim ih fun h' => absurd h'.1 hf
    · simpa [runFinal, hheld] using h.traceSafe

/-! ## Every run from an accepted peer -/

/-- **Every run from an accepted peer is safe.**  Each step meets `StepSafe`, the run's calls
meet `TraceSafe`, and once a call's switch has brought the peer to `DEAD` the run has closed
the descriptor exactly once and freed the slot. -/
theorem handleTcpIo_run_safe (peerI : Nat) (fd : Int) (isEncrypted : Bool)
    (evs : List TcpEvent) :
    (∀ st ∈ runSteps peerI (PeerSlot.accepted fd isEncrypted) evs,
      StepSafe peerI st.1 st.2 (st.2.apply peerI st.1)) ∧
    TraceSafe peerI (runFinal peerI (PeerSlot.accepted fd isEncrypted) evs)
      (runTrace peerI (PeerSlot.accepted fd isEncrypted) evs) ∧
    ∀ st ∈ runSteps peerI (PeerSlot.accepted fd isEncrypted) evs, ∀ env, st.2 = .io env →
      (handleTcpIoSwitch st.1.peer env).2.1.mortality = .dead →
      runFinal peerI (PeerSlot.accepted fd isEncrypted) evs = PeerSlot.freed ∧
        (runTrace peerI (PeerSlot.accepted fd isEncrypted) evs).count .close = 1 := by
  have h0 : RunInv peerI (PeerSlot.accepted fd isEncrypted) [] :=
    .opening rfl rfl (Or.inl rfl) (fun _ h => nomatch h)
  have hsteps : ∀ st ∈ runSteps peerI (PeerSlot.accepted fd isEncrypted) evs,
      StepSafe peerI st.1 st.2 (st.2.apply peerI st.1) := fun ⟨slot, ev⟩ hst => by
    obtain ⟨hheld, _, h⟩ := h0.steps evs _ hst
    cases ev with
    | io env => exact stepSafe_io peerI slot env hheld (h.fdOpen hheld)
    | closePeer => exact stepSafe_closePeer peerI slot hheld (h.alive hheld)
  have htrace : TraceSafe peerI (runFinal peerI (PeerSlot.accepted fd isEncrypted) evs)
      (runTrace peerI (PeerSlot.accepted fd isEncrypted) evs) := by
    simpa using h0.traceSafe_run evs
  refine ⟨hsteps, htrace, fun st hst env hev hd => ?_⟩
  have hout := (hsteps st hst).dead env hev hd
  have hfinal := runFinal_of_mem_runSteps peerI st hst (by rw [hout]; rfl)
  rw [hout] at hfinal
  exact ⟨hfinal, by rw [htrace.closeOnce, hfinal]; rfl⟩

/-! ## Progress of the shutdown -/

/-- **A call on a peer being shut down**, whose `shutdown()`, if it issues one, succeeds: it
returns `RS_OK`, and it waits in `SHUTDOWN_READ` when the drain's last `read()` fails with
`EAGAIN`; otherwise it frees the slot. -/
theorem handleTcpIo_shutdown (peerI : Nat) {slot : PeerSlot} {env : TcpEnv}
    (hm : slot.peer.mortality = .shutdownWrite ∨ slot.peer.mortality = .shutdownRead)
    (hok : env.shutdownOk) :
    (handleTcpIo peerI slot env).1 = .ok ∧
    (handleTcpIo peerI slot env).2.1 =
      if (drainReads env.reads).2 = .error .eagain then
        { slot with peer := { slot.peer with mortality := .shutdownRead, isWriting := false } }
      else PeerSlot.freed := by
  obtain ⟨⟨fd, enc, wr, layer, m, ow⟩, fdOpen, held⟩ := slot
  dsimp only at hm
  rcases hm with rfl | rfl <;>
  rcases h : (drainReads env.reads).2 with (_ | _) | (_ | _) <;>
  simp [handleTcpIo, handleTcpIoSwitch, writeBidirectionalTcpShutdown, hok,
    readBidirectionalTcpShutdown, h, readShutdownResult, drainExit]

/-- **A peer given up on is released as soon as its FIN arrives.**  Along any run of calls
of `handle_tcp_io` on a held slot whose peer is being shut down, with `shutdown()`
succeeding, the slot is freed by the first call whose drain ends on the peer's FIN or on a
failure other than `EAGAIN`; while every drain ends on `EAGAIN` the peer waits in
`SHUTDOWN_READ`. -/
theorem shutdown_run_final (peerI : Nat) (slot : PeerSlot) (envs : List TcpEnv)
    (hheld : slot.held)
    (hm : slot.peer.mortality = .shutdownWrite ∨ slot.peer.mortality = .shutdownRead)
    (hok : ∀ env ∈ envs, env.shutdownOk) :
    runFinal peerI slot (envs.map .io) =
      if ∃ env ∈ envs, (drainReads env.reads).2 ≠ .error .eagain then PeerSlot.freed
      else if envs = [] then slot
      else
        { slot with peer := { slot.peer with mortality := .shutdownRead, isWriting := false } } := by
  induction envs generalizing slot with
  | nil => simp [runFinal]
  | cons env envs ih =>
    obtain ⟨hst, hs1⟩ := handleTcpIo_shutdown peerI hm (hok env (List.mem_cons_self _ _))
    simp only [List.map_cons, runFinal, hheld, TcpEvent.apply, hst, reduceCtorEq, ↓reduceIte]
    by_cases hd : (drainReads env.reads).2 = .error .eagain
    · rw [hs1, if_pos hd,
        ih _ (by simpa) (Or.inr rfl) fun e he => hok e (List.mem_cons_of_mem _ he)]
      by_cases he : envs = [] <;> simp [hd, he, hheld]
    · rw [hs1, if_neg hd, runFinal_of_not_held peerI rfl]
      simp [hd]

theorem shutdown_run_final_fin_on_second_call :
    runFinal 0 (escalate (PeerSlot.accepted 5 false))
      [.io ⟨.ok, true, [.count 3, .error .eagain]⟩, .io ⟨.ok, true, [.count 0]⟩] =
      PeerSlot.freed := by
  have h := shutdown_run_final 0 (escalate (PeerSlot.accepted 5 false))
    [⟨.ok, true, [.count 3, .error .eagain]⟩, ⟨.ok, true, [.count 0]⟩] rfl (Or.inl rfl)
    (by decide)
  simpa [drainReads] using h

end RingSocket
