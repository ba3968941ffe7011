import RingSocket.Send

/-!
# Fan-out: the seven send helpers

Every API send helper of `ringsocket_app_helper.h` is a sequence of `rs_send` calls followed
by `n->wbuf_i = 0`.  The calls never depend on what an earlier call did: they are computed
from the client ids, `worker_c` and the callback's source alone.  So each helper is modelled
as its list of calls (`…Sends`), and `fanOut` runs such a list.

## Main Definitions

* `sendAll` — run calls one after another, dropping each `void` call's status, as C does.
* `curClients` — the inner loop of the two `multi` helpers.
* `multiSends`, `everyExceptSends`, `singleSends` — the three loop shapes; each helper's
  calls are one of them at the helper's own kinds and source of the (worker, peer) pair.
* `rsToSingle`, `rsToMulti`, `rsToCur`, `rsToEvery`, `rsToEveryExceptSingle`,
  `rsToEveryExceptMulti`, `rsToEveryExceptCur`.

## Design Notes

Every fact about a fan-out's payload rests on `sendAll_frame`: no call changes the scratch
buffer or `wbuf_i`, so every call of one fan-out writes the same payload and meets the same
size check.  `peersOf` is the spec's reading of the inner loop (the peer halves of the ids
on one worker, in input order); `curClients_eq_peersOf` connects the two.
-/

namespace RingSocket

/-- Run `rs_send` calls in order.  The status each returns is dropped (`rs_send` is `void`);
`none`, a failed `RS_GUARD_APP`, ends the run. -/
def sendAll (api : RingApi) (e : Endian) : Rs → List SendCall → Option Rs
  | n, [] => some n
  | n, c :: cs => (rsSend api e n c).bind fun r => sendAll api e r.2 cs

/-- `n->wbuf_i = 0`. -/
def Rs.resetWbufI (n : Rs) : Rs := { n with wbufI := 0 }

/-- A send helper: its calls, then `n->wbuf_i = 0`. -/
def fanOut (api : RingApi) (e : Endian) (n : Rs) (sends : List SendCall) : Option Rs :=
  (sendAll api e n sends).map Rs.resetWbufI

/-! ## The calls of each helper -/

/-- The inner loop of `rs_to_multi` and `rs_to_every_except_multi` for worker `i`:
`cur_clients[0 .. cur_client_c)`, appending the peer half of every id whose worker half
is `i`. -/
def curClients (e : Endian) (i : Nat) (clientIds : List UInt64) : List UInt32 :=
  clientIds.foldl (fun cur clientId =>
    if (clientIdWorker e clientId).toNat = i then cur ++ [clientIdPeer e clientId] else cur) []

/-- The outer loop of `rs_to_multi` and `rs_to_every_except_multi`: per worker, the send
of `case 0` (if any), `case 1` and `default` of the switch on `cur_client_c`. -/
def multiSends (zero : Option RsOutboundKind) (one many : RsOutboundKind) (e : Endian)
    (workerC : Nat) (isUtf8 : Bool) (clientIds : List UInt64) (p : List UInt8) :
    List SendCall :=
  (List.range workerC).flatMap fun i =>
    let cur := curClients e i clientIds
    match cur.length with
    | 0 => zero.toList.map fun k => ⟨i, k, [], 0, isUtf8, p⟩
    | 1 => [⟨i, one, cur, 1, isUtf8, p⟩]
    | curClientC => [⟨i, many, cur, UInt32.ofNat curClientC, isUtf8, p⟩]

/-- The loop of `rs_to_every_except_single` and `rs_to_every_except_cur`: worker `w`
excludes peer `q`, every other worker sends to all. -/
def everyExceptSends (workerC w : Nat) (q : UInt32) (isUtf8 : Bool) (p : List UInt8) :
    List SendCall :=
  (List.range workerC).map fun i =>
    if i = w then ⟨i, .everyExceptSingle, [q], 1, isUtf8, p⟩ else ⟨i, .every, [], 0, isUtf8, p⟩

/-- The one call of `rs_to_single` and `rs_to_cur`. -/
def singleSends (w : Nat) (q : UInt32) (isUtf8 : Bool) (p : List UInt8) : List SendCall :=
  [⟨w, .single, [q], 1, isUtf8, p⟩]

/-- `rs_to_single`. -/
def rsToSingle (api : RingApi) (e : Endian) (n : Rs) (isUtf8 : Bool) (clientId : UInt64)
    (p : List UInt8) : Option Rs :=
  fanOut api e n (singleSends (clientIdWorker e clientId).toNat (clientIdPeer e clientId) isUtf8 p)

/-- `rs_to_multi`. -/
def rsToMulti (api : RingApi) (e : Endian) (n : Rs) (isUtf8 : Bool) (clientIds : List UInt64)
    (p : List UInt8) : Option Rs :=
  fanOut api e n (multiSends none .single .array e n.conf.workerC isUtf8 clientIds p)

/-- `rs_to_cur`. -/
def rsToCur (api : RingApi) (e : Endian) (n : Rs) (isUtf8 : Bool) (p : List UInt8) :
    Option Rs :=
  fanOut api e n (singleSends n.srcWorkerThreadI n.srcPeerI isUtf8 p)

/-- `rs_to_every`. -/
def rsToEverySends (workerC : Nat) (isUtf8 : Bool) (p : List UInt8) : List SendCall :=
  (List.range workerC).map fun i => ⟨i, .every, [], 0, isUtf8, p⟩

/-- `rs_to_every`. -/
def rsToEvery (api : RingApi) (e : Endian) (n : Rs) (isUtf8 : Bool) (p : List UInt8) :
    Option Rs :=
  fanOut api e n (rsToEverySends n.conf.workerC isUtf8 p)

/-- `rs_to_every_except_single`. -/
def rsToEveryExceptSingle (api : RingApi) (e : Endian) (n : Rs) (isUtf8 : Bool)
    (clientId : UInt64) (p : List UInt8) : Option Rs :=
  fanOut api e n (everyExceptSends n.conf.workerC (clientIdWorker e clientId).toNat
    (clientIdPeer e clientId) isUtf8 p)

/-- `rs_to_every_except_multi`. -/
def rsToEveryExceptMulti (api : RingApi) (e : Endian) (n : Rs) (isUtf8 : Bool)
    (clientIds : List UInt64) (p : List UInt8) : Option Rs :=
  fanOut api e n (multiSends (some .every) .everyExceptSingle .everyExceptArray e n.conf.workerC
    isUtf8 clientIds p)

/-- `rs_to_every_except_cur`. -/
def rsToEveryExceptCur (api : RingApi) (e : Endian) (n : Rs) (isUtf8 : Bool) (p : List UInt8) :
    Option Rs :=
  fanOut api e n (everyExceptSends n.conf.workerC n.srcWorkerThreadI n.srcPeerI isUtf8 p)

/-! ## Running calls -/

section
variable {api : RingApi} {e : Endian}

@[simp] theorem sendAll_nil (n : Rs) : sendAll api e n [] = some n := rfl

theorem sendAll_append (n : Rs) (cs ds : List SendCall) :
    sendAll api e n (cs ++ ds) = (sendAll api e n cs).bind fun m => sendAll api e m ds := by
  induction cs generalizing n with
  | nil => rfl
  | cons c cs ih =>
    simp only [List.cons_append, sendAll]
    cases rsSend api e n c <;> simp [ih]

/-- **No call of a fan-out touches the scratch buffer, `wbuf_i` or the callback's source.** -/
theorem sendAll_frame {n m : Rs} {cs : List SendCall} (h : sendAll api e n cs = some m) :
    SendFrame n m := by
  induction cs generalizing n with
  | nil => cases h; exact ⟨rfl, rfl, rfl, rfl, rfl, rfl⟩
  | cons c cs ih =>
    simp only [sendAll, Option.bind_eq_some] at h
    obtain ⟨⟨r, n'⟩, hs, hrest⟩ := h
    exact (rsSend_frame hs).trans (ih hrest)

theorem SendFrame.scratch {n m : Rs} (h : SendFrame n m) : m.scratch = n.scratch := by
  simp [Rs.scratch, h.wbuf, h.wbufI]

/-- **Oversize calls change nothing**: when every call's payload is over the limit, every
call takes the early `return RS_FATAL`. -/
theorem sendAll_oversize {n : Rs} {cs : List SendCall}
    (h : ∀ c ∈ cs, n.conf.maxWsMsgSize < n.wbufI + c.p.length) : sendAll api e n cs = some n := by
  induction cs with
  | nil => rfl
  | cons c cs ih =>
    have hc := h c (List.mem_cons_self c cs)
    simp [sendAll, rsSend, hc, ih fun c' hc' => h c' (List.mem_cons_of_mem c hc')]

theorem fanOut_wbufI {n n' : Rs} {cs : List SendCall} (h : fanOut api e n cs = some n') :
    n'.wbufI = 0 := by
  simp only [fanOut, Option.map_eq_some'] at h
  obtain ⟨m, -, rfl⟩ := h
  rfl

end

end RingSocket
