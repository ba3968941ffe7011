import RingSocket.App

/-!
# The TCP layer: `read_tcp` and `write_tcp`

A worker's peer record and the two plain-TCP I/O functions of `rs_tcp.c`.  The kernel is not
modelled: every system call's result is an argument (`SysRet`), so each theorem holds for
whatever the kernel answers.

## Main Definitions

* `Peer` — the members of `union rs_peer` the TCP layer reads and writes.
* `readTcp`, `writeTcp` — the functions, one system call each.
* `WriteRun` — the successive calls `write_tcp(peer, wbuf, s)` of one message that returned
  `RS_AGAIN`, with the bytes `write()` accepted so far.

## Design Notes

`write_tcp` tests `if (errno = EAGAIN)`, an assignment: the test is the value `EAGAIN`,
which is never `0`, so every failed or empty `write()` gives `RS_AGAIN`.  The model keeps the
assignment's value as the test (`writeTcp_ok_or_again` is what follows from it).

`writeTcp_resumes` is the resumption property: across the calls of one message the ranges
`write()` accepts are consecutive pieces of the message, `old_wsize` counts them, and
`RS_OK` comes exactly when they reach its end.
-/

namespace RingSocket

/-- `errno` as the TCP layer tests it. -/
inductive Errno where
  | eagain
  | other (code : Nat)
  deriving DecidableEq, Repr

/-- The value of `EAGAIN` on Linux: what the assignment `errno = EAGAIN` evaluates to. -/
def EAGAIN : Nat := 11

/-- What one `read()` or `write()` returns: a byte count, or `-1` with `errno` set. -/
inductive SysRet where
  | count (n : Nat)
  | error (errno : Errno)
  deriving DecidableEq, Repr

/-- `enum rs_layer`. Modelled from the spec: declared outside src/, in the order the spec
lists the layers, so the zeroed value is `RS_LAYER_TCP`. -/
inductive Layer where
  | tcp
  | tls
  | http
  | ws
  deriving DecidableEq, Repr

/-- `enum rs_mortality`. Modelled from the spec: declared outside src/, in the order of the
spec's mortality sequence, so the zeroed value is `RS_MORTALITY_LIVE`. -/
inductive Mortality where
  | live
  | shutdownWrite
  | shutdownRead
  | dead
  deriving DecidableEq, Repr

/-- The position of a mortality in `LIVE < SHUTDOWN_WRITE < SHUTDOWN_READ < DEAD`. -/
def Mortality.rank : Mortality → Nat
  | .live => 0
  | .shutdownWrite => 1
  | .shutdownRead => 2
  | .dead => 3

/-- The members of `union rs_peer` that the TCP layer uses. -/
structure Peer where
  socketFd : Int
  isEncrypted : Bool
  isWriting : Bool
  layer : Layer
  mortality : Mortality
  oldWsize : Nat
  deriving DecidableEq, Repr

/-- `memset(peer, 0, sizeof(union rs_peer))`. -/
def Peer.zero : Peer := ⟨0, false, false, .tcp, .live, 0⟩

/-! ## `read_tcp` -/

/-- `read_tcp`: the status, the peer, and `*rsize`, for the result of its `read()`. -/
def readTcp (peer : Peer) : SysRet → RsRet × Peer × Nat
  | .count (rsize + 1) => (.ok, peer, rsize + 1)
  | .count 0 => (.closePeer, peer, 0)
  | .error .eagain => (.again, { peer with isWriting := false }, 0)
  | .error (.other _) => (.closePeer, peer, 0)

/-- `read_tcp` answers `RS_AGAIN` only for `EAGAIN`, and then records a read-side wait. -/
theorem readTcp_again {peer : Peer} {ret : SysRet} (h : (readTcp peer ret).1 = .again) :
    ret = .error .eagain ∧ (readTcp peer ret).2.1.isWriting = false := by
  rcases ret with (_ | _) | (_ | _) <;> simp_all [readTcp]

/-! ## `write_tcp` -/

/-- `write_tcp`: one `write()` of the unwritten suffix `wbuf[old_wsize .. wbuf_size)`.
Returns the status, the peer, and the byte range handed to `write()`. -/
def writeTcp (peer : Peer) (wbuf : List UInt8) (ret : SysRet) : RsRet × Peer × List UInt8 :=
  let remainingWsize := wbuf.length - peer.oldWsize
  let handed := wbuf.drop peer.oldWsize
  match ret with
  | .count (wsize + 1) =>
    if wsize + 1 = remainingWsize then (.ok, { peer with oldWsize := 0 }, handed)
    else (.again, { peer with oldWsize := peer.oldWsize + (wsize + 1), isWriting := true }, handed)
  | _ =>
    if EAGAIN ≠ 0 then (.again, { peer with isWriting := true }, handed)
    else (.closePeer, peer, handed)

/-- The bytes a `write()` handed `handed` accepted. -/
def accepted (handed : List UInt8) : SysRet → List UInt8
  | .count n => handed.take n
  | .error _ => []

/-- A kernel answer to a `write()` of `requested` bytes: it never accepts more. -/
def SysRet.Fits (requested : Nat) : SysRet → Prop
  | .count n => n ≤ requested
  | .error _ => True

instance (requested : Nat) : (ret : SysRet) → Decidable (ret.Fits requested)
  | .count n => inferInstanceAs (Decidable (n ≤ requested))
  | .error _ => inferInstanceAs (Decidable True)

/-- The successive calls `write_tcp(peer, wbuf, s)` of one message that returned
`RS_AGAIN`, from `old_wsize = 0`, each answered by a `write()` that fits its request: the
peer they leave and the bytes `write()` accepted, in order. -/
inductive WriteRun (wbuf : List UInt8) : Peer → List UInt8 → Prop where
  | start (peer : Peer) (h : peer.oldWsize = 0) : WriteRun wbuf peer []
  | again {peer : Peer} {sent : List UInt8} {ret : SysRet} :
      WriteRun wbuf peer sent → ret.Fits (wbuf.length - peer.oldWsize) →
      (writeTcp peer wbuf ret).1 = .again →
      WriteRun wbuf (writeTcp peer wbuf ret).2.1
        (sent ++ accepted (writeTcp peer wbuf ret).2.2 ret)

/-- The invariant of a run: `old_wsize` counts the bytes accepted, which are the message's
first `old_wsize` bytes, and some remain. -/
structure WriteInv (wbuf : List UInt8) (peer : Peer) (sent : List UInt8) : Prop where
  count : peer.oldWsize = sent.length
  taken : sent = wbuf.take peer.oldWsize
  lt : peer.oldWsize < wbuf.length

section
variable {wbuf : List UInt8} {peer : Peer} {sent : List UInt8} {ret : SysRet}

/-- A `write()` that accepts the whole rest completes the message. -/
theorem writeTcp_count_rest {k : Nat} (hk : k + 1 = wbuf.length - peer.oldWsize) :
    writeTcp peer wbuf (.count (k + 1)) =
      (.ok, { peer with oldWsize := 0 }, wbuf.drop peer.oldWsize) := by
  simp [writeTcp, hk]

/-- A `write()` that accepts part of the rest advances `old_wsize`. -/
theorem writeTcp_count_part {k : Nat} (hk : k + 1 ≠ wbuf.length - peer.oldWsize) :
    writeTcp peer wbuf (.count (k + 1)) =
      (.again, { peer with oldWsize := peer.oldWsize + (k + 1), isWriting := true },
        wbuf.drop peer.oldWsize) := by
  simp [writeTcp, hk]

/-- A `write()` that accepts nothing, or fails, is a write-side wait. -/
theorem writeTcp_stall (h : ∀ k, ret ≠ .count (k + 1)) :
    writeTcp peer wbuf ret =
      (.again, { peer with isWriting := true }, wbuf.drop peer.oldWsize) := by
  rcases ret with (_ | k) | _
  · simp [writeTcp, EAGAIN]
  · exact absurd rfl (h k)
  · simp [writeTcp, EAGAIN]

/-- One call from a state of the invariant. -/
theorem writeTcp_step (hi : WriteInv wbuf peer sent)
    (hret : ret.Fits (wbuf.length - peer.oldWsize)) :
    (writeTcp peer wbuf ret).2.2 = wbuf.drop peer.oldWsize ∧
    ((writeTcp peer wbuf ret).1 = .ok ↔
      (sent ++ accepted (writeTcp peer wbuf ret).2.2 ret).length = wbuf.length) ∧
    ((writeTcp peer wbuf ret).1 = .ok →
      sent ++ accepted (writeTcp peer wbuf ret).2.2 ret = wbuf ∧
        (writeTcp peer wbuf ret).2.1.oldWsize = 0) ∧
    ((writeTcp peer wbuf ret).1 = .again →
      WriteInv wbuf (writeTcp peer wbuf ret).2.1
        (sent ++ accepted (writeTcp peer wbuf ret).2.2 ret) ∧
      (writeTcp peer wbuf ret).2.1.isWriting = true) := by
  obtain ⟨hcount, htaken, hlt⟩ := hi
  by_cases hpos : ∃ k, ret = .count (k + 1)
  · obtain ⟨k, rfl⟩ := hpos
    have hle : k + 1 ≤ wbuf.length - peer.oldWsize := hret
    have hsent : sent ++ (wbuf.drop peer.oldWsize).take (k + 1) =
        wbuf.take (peer.oldWsize + (k + 1)) := by
      rw [htaken]
      exact (List.take_add _ _ _).symm
    by_cases hk : k + 1 = wbuf.length - peer.oldWsize
    · rw [writeTcp_count_rest hk]
      have hall : wbuf.take (peer.oldWsize + (k + 1)) = wbuf := List.take_of_length_le (by omega)
      simp [accepted, hsent, hall]
    · rw [writeTcp_count_part hk]
      have hlen : (wbuf.take (peer.oldWsize + (k + 1))).length = peer.oldWsize + (k + 1) := by
        simp; omega
      refine ⟨rfl, ⟨nofun, fun h => ?_⟩, nofun, fun _ => ?_⟩
      · simp only [accepted, hsent, hlen] at h; omega
      · exact ⟨⟨by simp [accepted, hsent, hlen], by simp [accepted, hsent], by simp; omega⟩, rfl⟩
  · rw [writeTcp_stall fun k h => hpos ⟨k, h⟩]
    have hacc : accepted (wbuf.drop peer.oldWsize) ret = [] := by
      rcases ret with (_ | k) | _
      · rfl
      · exact absurd ⟨k, rfl⟩ hpos
      · rfl
    refine ⟨rfl, ⟨nofun, fun h => ?_⟩, nofun, fun _ => ⟨⟨?_, ?_, hlt⟩, rfl⟩⟩
    · simp only [hacc, List.append_nil] at h; omega
    · simp only [hacc, List.append_nil]; exact hcount
    · simp only [hacc, List.append_nil]; exact htaken

/-- **`write_tcp` only ever returns `RS_OK` or `RS_AGAIN`**: `errno = EAGAIN` is always
true, so a failing `write()` never gives `RS_CLOSE_PEER`. -/
theorem writeTcp_ok_or_again (peer : Peer) (wbuf : List UInt8) (ret : SysRet) :
    (writeTcp peer wbuf ret).1 = .ok ∨ (writeTcp peer wbuf ret).1 = .again := by
  by_cases hpos : ∃ k, ret = .count (k + 1)
  · obtain ⟨k, rfl⟩ := hpos
    by_cases hk : k + 1 = wbuf.length - peer.oldWsize
    · simp [writeTcp_count_rest hk]
    · simp [writeTcp_count_part hk]
  · simp [writeTcp_stall fun k h => hpos ⟨k, h⟩]

/-- Every run of calls answered `RS_AGAIN` keeps the invariant. -/
theorem WriteRun.inv (hs : 0 < wbuf.length) (h : WriteRun wbuf peer sent) :
    WriteInv wbuf peer sent := by
  induction h with
  | start peer h0 => exact ⟨by simp [h0], by simp [h0], by omega⟩
  | again _ hret hagain ih => exact ((writeTcp_step ih hret).2.2.2 hagain).1

end

/-- **`write_tcp` resumes partial writes without gap or repetition.**  For a message of
`s ≥ 1` bytes: after any run of calls that returned `RS_AGAIN`, `old_wsize` is the number of
bytes `write()` accepted, those bytes are the message's first `old_wsize`, and `old_wsize < s`.
The next call hands `write()` exactly the rest of the message; if the kernel accepts no more
than asked, the call returns `RS_OK` exactly when the accepted bytes reach `s`, and then they
are the whole message and `old_wsize` is back to `0`; otherwise it returns `RS_AGAIN` with
`old_wsize < s` and `is_writing` set, and the run goes on. -/
theorem writeTcp_resumes {wbuf : List UInt8} (hs : 0 < wbuf.length) {peer : Peer}
    {sent : List UInt8} (hrun : WriteRun wbuf peer sent) {ret : SysRet}
    (hret : ret.Fits (wbuf.length - peer.oldWsize)) :
    (peer.oldWsize = sent.length ∧ sent = wbuf.take peer.oldWsize ∧
      peer.oldWsize < wbuf.length) ∧
    (writeTcp peer wbuf ret).2.2 = wbuf.drop peer.oldWsize ∧
    ((writeTcp peer wbuf ret).1 = .ok ↔
      (sent ++ accepted (writeTcp peer wbuf ret).2.2 ret).length = wbuf.length) ∧
    ((writeTcp peer wbuf ret).1 = .ok →
      sent ++ accepted (writeTcp peer wbuf ret).2.2 ret = wbuf ∧
        (writeTcp peer wbuf ret).2.1.oldWsize = 0) ∧
    ((writeTcp peer wbuf ret).1 = .again →
      (writeTcp peer wbuf ret).2.1.oldWsize < wbuf.length ∧
        (writeTcp peer wbuf ret).2.1.isWriting = true ∧
        WriteRun wbuf (writeTcp peer wbuf ret).2.1
          (sent ++ accepted (writeTcp peer wbuf ret).2.2 ret)) ∧
    ((writeTcp peer wbuf ret).1 = .ok ∨ (writeTcp peer wbuf ret).1 = .again) := by
  have hi := hrun.inv hs
  obtain ⟨hhand, hiff, hok, hagain⟩ := writeTcp_step hi hret
  refine ⟨⟨hi.count, hi.taken, hi.lt⟩, hhand, hiff, hok,
    fun h => ⟨(hagain h).1.lt, (hagain h).2, hrun.again hret h⟩,
    writeTcp_ok_or_again peer wbuf ret⟩

/-- A three-byte message whose first `write()` accepts two bytes: the call returns
`RS_AGAIN` and the run goes on with the first two bytes sent. -/
theorem writeTcp_resumes_two_of_three :
    0 < [1, 2, 3].length ∧ WriteRun [1, 2, 3] Peer.zero [] ∧
      (SysRet.count 2).Fits ([1, 2, 3].length - Peer.zero.oldWsize) ∧
      WriteRun [1, 2, 3] (writeTcp Peer.zero [1, 2, 3] (.count 2)).2.1 [1, 2] :=
  have hrun : WriteRun [1, 2, 3] Peer.zero [] := .start _ rfl
  ⟨by decide, hrun, by decide,
    ((writeTcp_resumes (by decide) hrun
      (show (SysRet.count 2).Fits ([1, 2, 3].length - Peer.zero.oldWsize) by decide)).2.2.2.2.1
        rfl).2.2⟩

end RingSocket
