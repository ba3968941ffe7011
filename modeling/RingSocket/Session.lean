import RingSocket.Outbound
import RingSocket.Scratch

/-!
# A callback's calls, and what the workers receive

Inside a callback an app builds each message with the `rs_w_*` appends and sends it with one
of the seven `rs_to_*` helpers.  This module runs any sequence of such calls, and sets it
against what the calls are for: every worker is handed, in order, the messages addressed to
it, each made of the bytes appended since the previous send followed by the send's payload.

## Main Definitions

* `ToCall` — a call of one of the seven send helpers; `ToCall.sends` — its `rs_send` calls.
* `AppCall`, `runApp` — a callback's sequence of appends and sends.
* `Outbox` — the abstract model: the messages handed to each worker, and the bytes appended
  since the last send; `Outbox.step`, `Outbox.run`.
* `Tracks`, `Represents` — the relation between `struct rs` and an `Outbox`: the scratch
  holds the pending bytes, and each ring holds, past where the callback began, the bytes of
  the messages handed to its worker.

## Main Results

* `runApp_scratch` — over every run, whatever the allocator and the ring API do, the scratch
  buffer keeps its invariant and holds exactly the bytes appended since the last send.
* `runApp_refines` — the **refinement theorem**: on rings with room, every run writes to each
  worker's ring exactly the messages the abstract model hands that worker, in order, and the
  worker's reader gets them back, provided every message's payload size is one for which
  `rs_send` writes the minimal length field.

## Design Notes

The abstract model reads `worker_c`, `max_ws_msg_size` and the callback's source from the
state the callback began in; `Tracks` records that no call changes them.  The bytes an append
contributes are those the code stores (`WOp.bytes`); `bytes_eq_specBytes` relates them to the
spec's.  A send over `max_ws_msg_size` hands out nothing and drops the pending bytes, as the
code does.  `Represents` compares rings through `RsRing.write` from the rings the callback
began with, so the hypothesis of room is the only thing asked of the ring buffers.

The hypothesis `ToCall.workerFits` is load-bearing.  `rs_send` indexes `outbound_rings` and
`io_pairs` with its call's worker unchecked, and only `rs_to_single` (the id's worker half)
and `rs_to_cur` (the source) take that worker from outside a loop over the workers.  In the
model the rings are a function on every number, so a send to a worker past `worker_c` would
write a ring C does not have; the results about whole runs therefore ask that those two name
a worker, and show that no ring past the workers' is then written
(`runApp_outboundRings_beyond`).
-/

namespace RingSocket

/-! ## The calls of a callback -/

/-- A call of one of the seven send helpers, with the arguments the app passes. -/
inductive ToCall where
  | single (isUtf8 : Bool) (clientId : UInt64) (p : List UInt8)
  | multi (isUtf8 : Bool) (clientIds : List UInt64) (p : List UInt8)
  | cur (isUtf8 : Bool) (p : List UInt8)
  | every (isUtf8 : Bool) (p : List UInt8)
  | everyExceptSingle (isUtf8 : Bool) (clientId : UInt64) (p : List UInt8)
  | everyExceptMulti (isUtf8 : Bool) (clientIds : List UInt64) (p : List UInt8)
  | everyExceptCur (isUtf8 : Bool) (p : List UInt8)

/-- The helper the call names. -/
def ToCall.run (api : RingApi) (e : Endian) (n : Rs) : ToCall → Option Rs
  | .single u c p => rsToSingle api e n u c p
  | .multi u cs p => rsToMulti api e n u cs p
  | .cur u p => rsToCur api e n u p
  | .every u p => rsToEvery api e n u p
  | .everyExceptSingle u c p => rsToEveryExceptSingle api e n u c p
  | .everyExceptMulti u cs p => rsToEveryExceptMulti api e n u cs p
  | .everyExceptCur u p => rsToEveryExceptCur api e n u p

/-- The `rs_send` calls the helper makes. -/
def ToCall.sends (e : Endian) (n : Rs) : ToCall → List SendCall
  | .single u c p => singleSends (clientIdWorker e c).toNat (clientIdPeer e c) u p
  | .multi u cs p => multiSends none .single .array e n.conf.workerC u cs p
  | .cur u p => singleSends n.srcWorkerThreadI n.srcPeerI u p
  | .every u p => rsToEverySends n.conf.workerC u p
  | .everyExceptSingle u c p =>
    everyExceptSends n.conf.workerC (clientIdWorker e c).toNat (clientIdPeer e c) u p
  | .everyExceptMulti u cs p =>
    multiSends (some .every) .everyExceptSingle .everyExceptArray e n.conf.workerC u cs p
  | .everyExceptCur u p => everyExceptSends n.conf.workerC n.srcWorkerThreadI n.srcPeerI u p

/-- The id lists passed to the two `multi` helpers hold fewer than `2 ^ 32` ids, so that
`cur_client_c` fits the `uint32_t` `recipient_c` it is passed as. -/
def ToCall.idsFit : ToCall → Bool
  | .multi _ cs _ | .everyExceptMulti _ cs _ => decide (cs.length < 2 ^ 32)
  | _ => true

/-- A call of an app callback: an append to the scratch buffer, or a send. -/
inductive AppCall where
  | append (op : WOp)
  | send (t : ToCall)

def AppCall.idsFit : AppCall → Bool
  | .append _ => true
  | .send t => t.idsFit

/-- The worker a helper names by number is one of the `worker_c` workers: the worker half of
`rs_to_single`'s id, and the callback's source for `rs_to_cur`.  `rs_send` indexes
`outbound_rings` and `io_pairs` with it unchecked; the other helpers loop over the workers
themselves. -/
def ToCall.workerFits (e : Endian) (n : Rs) : ToCall → Bool
  | .single _ c _ => decide ((clientIdWorker e c).toNat < n.conf.workerC)
  | .cur _ _ => decide (n.srcWorkerThreadI < n.conf.workerC)
  | _ => true

def AppCall.workerFits (e : Endian) (n : Rs) : AppCall → Bool
  | .append _ => true
  | .send t => t.workerFits e n

/-- The call itself. -/
def AppCall.run (alloc : Alloc) (api : RingApi) (e : Endian) (n : Rs) : AppCall → Option Rs
  | .append op => op.run alloc e n
  | .send t => t.run api e n

/-- A callback's calls in order; `none` once one of them ends the process. -/
def runApp (alloc : Alloc) (api : RingApi) (e : Endian) : Rs → List AppCall → Option Rs
  | n, [] => some n
  | n, call :: calls => (call.run alloc api e n).bind (runApp alloc api e · calls)

theorem ToCall.run_eq (api : RingApi) (e : Endian) (n : Rs) (t : ToCall) :
    t.run api e n = fanOut api e n (t.sends e n) := by
  cases t <;> rfl

/-- The calls depend on the state only through `worker_c` and the callback's source. -/
theorem ToCall.sends_congr (e : Endian) {n n0 : Rs} (t : ToCall) (hconf : n.conf = n0.conf)
    (hw : n.srcWorkerThreadI = n0.srcWorkerThreadI) (hp : n.srcPeerI = n0.srcPeerI) :
    t.sends e n = t.sends e n0 := by
  cases t <;> simp [ToCall.sends, hconf, hw, hp]

/-- The calls of the two `multi` loops are consistent for either pair of kinds. -/
theorem consistent_of_mem_multiSends {zero : Option RsOutboundKind} {one many : RsOutboundKind}
    (hzero : ∀ k ∈ zero, k.hasCount = false ∧ k.fixedCount = 0)
    (hone : one.hasCount = false ∧ one.fixedCount = 1) (hmany : many.hasCount = true)
    {e : Endian} {workerC : Nat} {isUtf8 : Bool} {clientIds : List UInt64} {p : List UInt8}
    {c : SendCall} (hlen : clientIds.length < 2 ^ 32)
    (hc : c ∈ multiSends zero one many e workerC isUtf8 clientIds p) : c.Consistent := by
  suffices h : c.outboundKind.hasCount = decide (1 < c.recipients.length) ∧
      (c.outboundKind.hasCount = false → c.recipients.length = c.outboundKind.fixedCount) from
    ⟨recipientC_of_mem_multiSends hlen hc, h.1, h.2⟩
  rw [multiSends_eq_spec, List.mem_flatMap] at hc
  obtain ⟨i, -, hc⟩ := hc
  unfold multiSpec at hc
  rcases hq : peersOf e i clientIds with _ | ⟨q, _ | ⟨q', qs⟩⟩ <;> simp only [hq] at hc
  · cases zero with
    | none => cases hc
    | some k =>
      obtain rfl : c = ⟨i, k, [], 0, isUtf8, p⟩ := by simpa using hc
      obtain ⟨hk, hk'⟩ := hzero k rfl
      exact ⟨by simp [hk], fun _ => hk'.symm⟩
  · obtain rfl := List.mem_singleton.mp hc
    exact ⟨by simp [hone.1], fun _ => hone.2.symm⟩
  · obtain rfl := List.mem_singleton.mp hc
    exact ⟨by simp [hmany], fun h => absurd (hmany.symm.trans h) (by decide)⟩

/-- **Every `rs_send` call of the seven helpers is consistent**: `recipient_c` counts the
recipients, a count is written exactly for more than one, and a kind without one names as
many recipients as it allows. -/
theorem ToCall.consistent (e : Endian) (n : Rs) {t : ToCall} (ht : t.idsFit) :
    ∀ c ∈ t.sends e n, c.Consistent := by
  have hsingle : ∀ w q u p, ∀ c ∈ singleSends w q u p, c.Consistent := by
    intro w q u p c hc
    obtain rfl := List.mem_singleton.mp hc
    exact ⟨rfl, rfl, fun _ => rfl⟩
  have hexcept : ∀ W w q u p, ∀ c ∈ everyExceptSends W w q u p, c.Consistent := by
    intro W w q u p c hc
    obtain ⟨i, -, rfl⟩ := List.mem_map.mp hc
    split <;> exact ⟨rfl, rfl, fun _ => rfl⟩
  cases t with
  | single u c p => exact hsingle _ _ u p
  | cur u p => exact hsingle _ _ u p
  | every u p =>
    intro c hc
    obtain ⟨i, -, rfl⟩ := List.mem_map.mp hc
    exact ⟨rfl, rfl, fun _ => rfl⟩
  | everyExceptSingle u c p => exact hexcept _ _ _ u p
  | everyExceptCur u p => exact hexcept _ _ _ u p
  | multi u cs p =>
    exact fun c => consistent_of_mem_multiSends (by simp)
      (⟨rfl, rfl⟩ : RsOutboundKind.single.hasCount = false ∧ _)
      (rfl : RsOutboundKind.array.hasCount = true) (by simpa [ToCall.idsFit] using ht)
  | everyExceptMulti u cs p =>
    exact fun c => consistent_of_mem_multiSends
      (by simp [RsOutboundKind.hasCount, RsOutboundKind.fixedCount])
      (⟨rfl, rfl⟩ : RsOutboundKind.everyExceptSingle.hasCount = false ∧ _)
      (rfl : RsOutboundKind.everyExceptArray.hasCount = true) (by simpa [ToCall.idsFit] using ht)

theorem workerI_lt_of_mem_multiSends {zero : Option RsOutboundKind} {one many : RsOutboundKind}
    {e : Endian} {workerC : Nat} {isUtf8 : Bool} {clientIds : List UInt64} {p : List UInt8}
    {c : SendCall} (hc : c ∈ multiSends zero one many e workerC isUtf8 clientIds p) :
    c.workerI < workerC := by
  rw [multiSends_eq_spec, List.mem_flatMap] at hc
  obtain ⟨i, hi, hc⟩ := hc
  suffices h : c.workerI = i from h ▸ List.mem_range.mp hi
  unfold multiSpec at hc
  split at hc
  · obtain ⟨k, -, rfl⟩ := List.mem_map.mp hc; rfl
  · obtain rfl := List.mem_singleton.mp hc; rfl
  · obtain rfl := List.mem_singleton.mp hc; rfl

/-- **Every `rs_send` call of a helper addresses one of the workers**, once the worker the
helper names by number is one. -/
theorem ToCall.workerI_lt (e : Endian) (n : Rs) {t : ToCall} (ht : t.workerFits e n) :
    ∀ c ∈ t.sends e n, c.workerI < n.conf.workerC := by
  have hrange : ∀ f : Nat → SendCall, (∀ i, (f i).workerI = i) →
      ∀ c ∈ (List.range n.conf.workerC).map f, c.workerI < n.conf.workerC := by
    intro f hf c hc
    obtain ⟨i, hi, rfl⟩ := List.mem_map.mp hc
    exact (hf i).symm ▸ List.mem_range.mp hi
  have hexcept : ∀ w q u p, ∀ c ∈ everyExceptSends n.conf.workerC w q u p,
      c.workerI < n.conf.workerC :=
    fun w q u p => hrange _ fun i => by by_cases h : i = w <;> simp [h]
  have hsingle : ∀ w q u p, w < n.conf.workerC → ∀ c ∈ singleSends w q u p,
      c.workerI < n.conf.workerC := fun w q u p hw c hc => (List.mem_singleton.mp hc) ▸ hw
  cases t with
  | single u c p => exact hsingle _ _ u p (by simpa [ToCall.workerFits] using ht)
  | cur u p => exact hsingle _ _ u p (by simpa [ToCall.workerFits] using ht)
  | every u p => exact hrange _ fun _ => rfl
  | everyExceptSingle u c p => exact hexcept _ _ u p
  | everyExceptCur u p => exact hexcept _ _ u p
  | multi u cs p => exact fun c => workerI_lt_of_mem_multiSends
  | everyExceptMulti u cs p => exact fun c => workerI_lt_of_mem_multiSends

/-! ## The abstract model -/

/-- **What the sends are for**: the messages each worker has been handed, in order, and the
bytes appended since the last send. -/
structure Outbox where
  delivered : Nat → List OutboundRecord
  pending : List UInt8

/-- The messages the calls `cs` hand worker `w`, with `pending` appended before them: every
call to `w` within `max_ws_msg_size` hands it `pending` followed by the call's payload. -/
def handOut (maxWsMsgSize : Nat) (pending : List UInt8) (cs : List SendCall) (w : Nat) :
    List OutboundRecord :=
  (cs.filter fun c => c.workerI = w ∧ pending.length + c.p.length ≤ maxWsMsgSize).map
    fun c => ⟨c.outboundKind, c.recipients, c.isUtf8, pending ++ c.p⟩

theorem handOut_cons (maxWsMsgSize : Nat) (pending : List UInt8) (c : SendCall)
    (cs : List SendCall) (w : Nat) :
    handOut maxWsMsgSize pending (c :: cs) w =
      (if c.workerI = w ∧ pending.length + c.p.length ≤ maxWsMsgSize then
        [⟨c.outboundKind, c.recipients, c.isUtf8, pending ++ c.p⟩] else []) ++
      handOut maxWsMsgSize pending cs w := by
  by_cases h : c.workerI = w ∧ pending.length + c.p.length ≤ maxWsMsgSize <;>
    simp [handOut, List.filter_cons, h]

/-- One call in the abstract model.  `n0`, the state the callback began in, supplies
`worker_c`, `max_ws_msg_size` and the callback's source. -/
def Outbox.step (e : Endian) (n0 : Rs) (o : Outbox) : AppCall → Outbox
  | .append op => { o with pending := o.pending ++ op.bytes e }
  | .send t =>
    ⟨fun w => o.delivered w ++ handOut n0.conf.maxWsMsgSize o.pending (t.sends e n0) w, []⟩

/-- A callback's calls in the abstract model. -/
def Outbox.run (e : Endian) (n0 : Rs) : Outbox → List AppCall → Outbox
  | o, [] => o
  | o, call :: calls => Outbox.run e n0 (o.step e n0 call) calls

/-- The abstract state at the start of a callback: nothing handed out yet, and whatever the
scratch buffer holds pending. -/
def Outbox.start (n : Rs) : Outbox := ⟨fun _ => [], n.scratch⟩

@[simp] theorem Outbox.run_nil (e : Endian) (n0 : Rs) (o : Outbox) : Outbox.run e n0 o [] = o :=
  rfl

@[simp] theorem Outbox.run_cons (e : Endian) (n0 : Rs) (o : Outbox) (call : AppCall)
    (calls : List AppCall) :
    Outbox.run e n0 o (call :: calls) = Outbox.run e n0 (o.step e n0 call) calls := rfl

/-- Messages once handed out stay handed out: a run only appends to each worker's list. -/
theorem Outbox.run_delivered (e : Endian) (n0 : Rs) (calls : List AppCall) :
    ∀ (o : Outbox) (w : Nat), ∃ more, (Outbox.run e n0 o calls).delivered w = o.delivered w ++ more := by
  induction calls with
  | nil => exact fun o w => ⟨[], by simp⟩
  | cons call calls ih =>
    intro o w
    obtain ⟨more, hmore⟩ := ih (o.step e n0 call) w
    cases call with
    | append op => exact ⟨more, hmore⟩
    | send t => exact ⟨_, by rw [Outbox.run_cons, hmore, Outbox.step, List.append_assoc]⟩

/-! ## The scratch buffer over a callback -/

/-- `n` is where a callback that began in `n0` has got to with abstract state `o`: the
configuration and the source are `n0`'s, and the scratch buffer keeps its invariant and
holds the pending bytes. -/
structure Tracks (n0 : Rs) (o : Outbox) (n : Rs) : Prop where
  wbufOk : n.WbufOk
  conf : n.conf = n0.conf
  srcWorkerThreadI : n.srcWorkerThreadI = n0.srcWorkerThreadI
  srcPeerI : n.srcPeerI = n0.srcPeerI
  pending : n.scratch = o.pending

theorem SendFrame.wbufOk {n m : Rs} (h : SendFrame n m) (hn : n.WbufOk) : m.WbufOk :=
  ⟨fun bs hb => by rw [h.wbufSize]; exact hn.length bs (h.wbuf ▸ hb),
    by rw [h.wbufI, h.wbufSize]; exact hn.le,
    fun hb => by rw [h.wbufI]; exact hn.none (h.wbuf ▸ hb)⟩

/-- **One append**: it keeps the invariant, extends the scratch bytes by what it stores, and
touches neither the rings, the configuration nor the source. -/
theorem WOp.run_spec {alloc : Alloc} {e : Endian} {n n' : Rs} {op : WOp}
    (hm : 1 ≤ n.conf.reallocMultiplier) (hn : n.WbufOk) (h : op.run alloc e n = some n') :
    n'.WbufOk ∧ n'.scratch = n.scratch ++ op.bytes e ∧ n'.conf = n.conf ∧
      n'.outboundRings = n.outboundRings ∧ n'.srcWorkerThreadI = n.srcWorkerThreadI ∧
      n'.srcPeerI = n.srcPeerI := by
  rw [WOp.run_eq] at h
  obtain ⟨n1, h1, rfl⟩ := Option.map_eq_some'.mp h
  obtain ⟨bs, rfl, hroom, hs⟩ := rsCheckAppWsize_cases hm hn h1
  obtain ⟨hok, hsc⟩ := putBytes_spec hroom
  exact ⟨hok, hsc.trans (by rw [hs]), rfl, rfl, rfl, rfl⟩

/-- **One send**: whatever the ring API does, a helper that returns leaves `wbuf_i = 0`
over the same buffer, and the configuration and the source as they were. -/
theorem ToCall.run_tracks {api : RingApi} {e : Endian} {n n' : Rs} {t : ToCall}
    (hn : n.WbufOk) (h : t.run api e n = some n') :
    n'.WbufOk ∧ n'.scratch = [] ∧ n'.conf = n.conf ∧ n'.srcWorkerThreadI = n.srcWorkerThreadI ∧
      n'.srcPeerI = n.srcPeerI := by
  rw [ToCall.run_eq, fanOut] at h
  obtain ⟨n1, h1, rfl⟩ := Option.map_eq_some'.mp h
  have hf := sendAll_frame h1
  exact ⟨(hf.wbufOk hn).resetWbufI, by simp [Rs.scratch, Rs.resetWbufI], hf.conf,
    hf.srcWorkerThreadI, hf.srcPeerI⟩

/-- A helper writes no ring but those of the workers its calls address. -/
theorem ToCall.run_outboundRings_of_ne {api : RingApi} {e : Endian} {n n' : Rs} {t : ToCall}
    (h : t.run api e n = some n') {w : Nat} (hw : ∀ c ∈ t.sends e n, c.workerI ≠ w) :
    n'.outboundRings w = n.outboundRings w := by
  rw [ToCall.run_eq, fanOut] at h
  obtain ⟨n1, h1, rfl⟩ := Option.map_eq_some'.mp h
  exact sendAll_outboundRings_of_ne h1 hw

/-- Every call keeps the relation. -/
theorem AppCall.run_tracks {alloc : Alloc} {api : RingApi} {e : Endian} {n0 n n' : Rs}
    {o : Outbox} {call : AppCall} (hm : 1 ≤ n0.conf.reallocMultiplier) (ht : Tracks n0 o n)
    (h : call.run alloc api e n = some n') : Tracks n0 (o.step e n0 call) n' := by
  cases call with
  | append op =>
    obtain ⟨hok, hs, hconf, -, hw, hp⟩ := WOp.run_spec (ht.conf ▸ hm) ht.wbufOk h
    exact ⟨hok, hconf.trans ht.conf, hw.trans ht.srcWorkerThreadI, hp.trans ht.srcPeerI,
      by rw [hs, ht.pending]; rfl⟩
  | send t =>
    obtain ⟨hok, hs, hconf, hw, hp⟩ := ToCall.run_tracks ht.wbufOk h
    exact ⟨hok, hconf.trans ht.conf, hw.trans ht.srcWorkerThreadI, hp.trans ht.srcPeerI, hs⟩

/-- A ring API whose every call succeeds. -/
def RingApi.NeverFails (api : RingApi) : Prop :=
  (∀ pair ring k, (api.rsPrepareRingWrite pair ring k).isSome) ∧
    ∀ queue ioPairs writer threadI isWrite,
      (api.rsEnqueueRingUpdate queue ioPairs writer threadI isWrite).isSome

theorem rsSend_isSome {api : RingApi} (hapi : api.NeverFails) (e : Endian) (n : Rs)
    (c : SendCall) : (rsSend api e n c).isSome := by
  unfold rsSend
  split
  · rfl
  · dsimp only
    split
    · next h => exact absurd h (Option.ne_none_iff_isSome.mpr (hapi.1 _ _ _))
    · split
      · next h => exact absurd h (Option.ne_none_iff_isSome.mpr (hapi.2 _ _ _ _ _))
      · rfl

theorem sendAll_isSome {api : RingApi} (hapi : api.NeverFails) (e : Endian) (cs : List SendCall) :
    ∀ n, (sendAll api e n cs).isSome := by
  induction cs with
  | nil => exact fun _ => rfl
  | cons c cs ih =>
    intro n
    obtain ⟨⟨r, n1⟩, h1⟩ := Option.isSome_iff_exists.mp (rsSend_isSome hapi e n c)
    simpa [sendAll, h1] using ih n1

theorem WOp.run_isSome {alloc : Alloc} (ha : alloc.NeverFails) (e : Endian) (n : Rs)
    (op : WOp) : (op.run alloc e n).isSome := by
  rw [WOp.run_eq, rsWBytes, Option.isSome_map']
  exact rsCheckAppWsize_isSome ha n _

theorem AppCall.run_isSome {alloc : Alloc} {api : RingApi} (ha : alloc.NeverFails)
    (hapi : api.NeverFails) (e : Endian) (n : Rs) :
    ∀ call : AppCall, (call.run alloc api e n).isSome
  | .append op => WOp.run_isSome ha e n op
  | .send t => by
    rw [AppCall.run, ToCall.run_eq, fanOut, Option.isSome_map']
    exact sendAll_isSome hapi e _ n

/-- With an allocator and a ring API whose calls succeed, every run returns. -/
theorem runApp_isSome {alloc : Alloc} {api : RingApi} (ha : alloc.NeverFails)
    (hapi : api.NeverFails) (e : Endian) (calls : List AppCall) :
    ∀ n, (runApp alloc api e n calls).isSome := by
  induction calls with
  | nil => exact fun _ => rfl
  | cons call calls ih =>
    intro n
    obtain ⟨n1, h1⟩ := Option.isSome_iff_exists.mp (AppCall.run_isSome ha hapi e n call)
    simpa [runApp, h1] using ih n1

/-- Every run that returns keeps `Tracks`. -/
theorem runApp_tracks {alloc : Alloc} {api : RingApi} {e : Endian} {n0 : Rs}
    (hm : 1 ≤ n0.conf.reallocMultiplier) (calls : List AppCall) :
    ∀ {o : Outbox} {m n' : Rs}, Tracks n0 o m → runApp alloc api e m calls = some n' →
      Tracks n0 (Outbox.run e n0 o calls) n' := by
  induction calls with
  | nil => rintro o m n' ht ⟨⟩; exact ht
  | cons call calls ih =>
    intro o m n' ht h
    obtain ⟨m1, h1, h2⟩ := Option.bind_eq_some.mp h
    exact ih (AppCall.run_tracks hm ht h1) h2

/-- **No run writes a ring past the workers'** when every helper that names a worker by
number names one of them: an append writes no ring, and a send only its calls' workers'. -/
theorem runApp_outboundRings_beyond {alloc : Alloc} {api : RingApi} {e : Endian} {n0 : Rs}
    (hm : 1 ≤ n0.conf.reallocMultiplier) {w : Nat} (hw : n0.conf.workerC ≤ w)
    (calls : List AppCall) (hwk : ∀ call ∈ calls, call.workerFits e n0) :
    ∀ {o : Outbox} {m n' : Rs}, Tracks n0 o m → runApp alloc api e m calls = some n' →
      n'.outboundRings w = m.outboundRings w := by
  induction calls with
  | nil => rintro o m n' - ⟨⟩; rfl
  | cons call calls ih =>
    intro o m n' ht h
    obtain ⟨m1, h1, h2⟩ := Option.bind_eq_some.mp h
    rw [ih (fun c hc => hwk c (List.mem_cons_of_mem _ hc)) (AppCall.run_tracks hm ht h1) h2]
    cases call with
    | append op => exact congrFun (WOp.run_spec (ht.conf ▸ hm) ht.wbufOk h1).2.2.2.1 w
    | send t =>
      refine ToCall.run_outboundRings_of_ne h1 fun c hc => ?_
      rw [t.sends_congr e ht.conf ht.srcWorkerThreadI ht.srcPeerI] at hc
      have := t.workerI_lt e n0 (hwk _ (List.mem_cons_self _ _)) c hc
      omega

/-- **The scratch buffer over a whole callback.**  For every allocator and every ring API,
from any state of the scratch buffer's invariant with `realloc_multiplier ≥ 1`: every run of
appends and sends whose helpers name only workers, by id or as the source, that returns keeps
the invariant, leaves the configuration and the source as they were, leaves in the scratch
buffer exactly the bytes appended since the last send (after the bytes it began with, if
there was no send), and writes no ring past the workers'; with an allocator and a ring API
whose calls succeed, every run returns. -/
theorem runApp_scratch (alloc : Alloc) (api : RingApi) (e : Endian) (n : Rs) (calls : List AppCall)
    (hm : 1 ≤ n.conf.reallocMultiplier) (hn : n.WbufOk)
    (hwk : ∀ call ∈ calls, call.workerFits e n) :
    (∀ n', runApp alloc api e n calls = some n' →
      n'.WbufOk ∧ n'.conf = n.conf ∧ n'.srcWorkerThreadI = n.srcWorkerThreadI ∧
        n'.srcPeerI = n.srcPeerI ∧ n'.scratch = (Outbox.run e n (Outbox.start n) calls).pending ∧
        ∀ w, n.conf.workerC ≤ w → n'.outboundRings w = n.outboundRings w) ∧
    (alloc.NeverFails → api.NeverFails → (runApp alloc api e n calls).isSome) := by
  refine ⟨fun n' h => ?_, fun ha hapi => runApp_isSome ha hapi e calls n⟩
  have h0 : Tracks n (Outbox.start n) n := ⟨hn, rfl, rfl, rfl, rfl⟩
  have ht := runApp_tracks hm calls h0 h
  exact ⟨ht.wbufOk, ht.conf, ht.srcWorkerThreadI, ht.srcPeerI, ht.pending,
    fun w hw => runApp_outboundRings_beyond hm hw calls hwk h0 h⟩

/-- A callback that appends a byte, answers the current client, and appends two more. -/
theorem runApp_scratch_answer_cur :
    1 ≤ (2 : ℚ) ∧
      Rs.WbufOk
        { conf := ⟨2, 16, 2, 64⟩, wbuf := none, wbufSize := 0, wbufI := 0, srcWorkerThreadI := 1,
          srcPeerI := 7, outboundRings := fun _ => ⟨[], 0⟩,
          ioPairs := fun _ => ⟨⟨0, 0⟩, ⟨0, 0⟩⟩, ringUpdateQueue := [] } ∧
      (runApp Alloc.zeroing ⟨fun pair ring _ => some (pair, ring), fun q io _ _ _ => some (q, io)⟩
        .little
        { conf := ⟨2, 16, 2, 64⟩, wbuf := none, wbufSize := 0, wbufI := 0, srcWorkerThreadI := 1,
          srcPeerI := 7, outboundRings := fun _ => ⟨[], 0⟩,
          ioPairs := fun _ => ⟨⟨0, 0⟩, ⟨0, 0⟩⟩, ringUpdateQueue := [] }
        [.append (.uint8 1), .send (.cur false []), .append (.uint16Hton 2)]).isSome :=
  ⟨by norm_num, ⟨fun _ h => (by cases h), (by decide), fun _ => rfl⟩,
    (runApp_scratch Alloc.zeroing
      ⟨fun pair ring _ => some (pair, ring), fun q io _ _ _ => some (q, io)⟩ .little _
      [.append (.uint8 1), .send (.cur false []), .append (.uint16Hton 2)] (by norm_num)
      ⟨fun _ h => (by cases h), (by decide), fun _ => rfl⟩ (by decide)).2 Alloc.zeroing_neverFails
      ⟨fun _ _ _ => rfl, fun _ _ _ _ _ => rfl⟩⟩

/-! ## The rings over a callback -/

/-- **The representation relation**: beyond `Tracks`, each ring holds, past where it stood
when the callback began, the bytes of the messages handed to its worker, each a record the
grammar can carry. -/
structure Represents (e : Endian) (n0 : Rs) (o : Outbox) (n : Rs) extends Tracks n0 o n :
    Prop where
  rings : ∀ w, n.outboundRings w = (n0.outboundRings w).write ((o.delivered w).flatMap (·.encode e))
  wellFormed : ∀ w, ∀ r ∈ o.delivered w, r.WellFormed

/-- What a run asks of its messages: the workers' rings have room for all of them, and each
has a payload size for which `rs_send` writes the minimal length field. -/
structure Fits (e : Endian) (n0 : Rs) (o : Outbox) : Prop where
  band : ∀ w, ∀ r ∈ o.delivered w, GoodBand r.payload.length
  room : ∀ w < n0.conf.workerC,
    (n0.outboundRings w).writer + ((o.delivered w).flatMap (·.encode e)).length <
      (n0.outboundRings w).buf.length

/-- What a whole run asks, it asks of every state on the way. -/
theorem Fits.of_run {e : Endian} {n0 : Rs} {o : Outbox} {calls : List AppCall}
    (h : Fits e n0 (Outbox.run e n0 o calls)) : Fits e n0 o := by
  refine ⟨fun w r hr => ?_, fun w hw => ?_⟩
  · obtain ⟨more, hmore⟩ := Outbox.run_delivered e n0 calls o w
    exact h.band w r (hmore ▸ List.mem_append_left more hr)
  · obtain ⟨more, hmore⟩ := Outbox.run_delivered e n0 calls o w
    have := h.room w hw
    rw [hmore, List.flatMap_append, List.length_append] at this
    omega

theorem mem_handOut {maxWsMsgSize : Nat} {pending : List UInt8} {cs : List SendCall} {w : Nat}
    {r : OutboundRecord} (hr : r ∈ handOut maxWsMsgSize pending cs w) :
    ∃ c ∈ cs, r = ⟨c.outboundKind, c.recipients, c.isUtf8, pending ++ c.p⟩ := by
  obtain ⟨c, hc, rfl⟩ := List.mem_map.mp hr
  exact ⟨c, (List.mem_filter.mp hc).1, rfl⟩

/-- In the good bands, what the calls write to a ring is the records of the messages they
hand its worker. -/
theorem sentBytes_eq_handOut (e : Endian) {n : Rs} (hs : n.scratch.length = n.wbufI)
    (w : Nat) (cs : List SendCall) (hc : ∀ c ∈ cs, c.Consistent)
    (hband : ∀ r ∈ handOut n.conf.maxWsMsgSize n.scratch cs w, GoodBand r.payload.length) :
    sentBytes e n cs w = (handOut n.conf.maxWsMsgSize n.scratch cs w).flatMap (·.encode e) := by
  induction cs with
  | nil => rfl
  | cons c cs ih =>
    rw [handOut_cons, hs] at hband
    rw [sentBytes_cons, handOut_cons, List.flatMap_append,
      ih (fun c' h => hc c' (List.mem_cons_of_mem c h)) fun r hr =>
        hband r (List.mem_append_right _ hr), hs]
    split_ifs at hband ⊢ with hp
    · rw [List.flatMap_singleton, rsSendRecord_eq_encode (hc c (List.mem_cons_self c cs)) e hs
        (by simpa [hs] using hband _ (List.mem_append_left _ (List.mem_singleton_self _)))]
      rfl
    · rfl

/-- **One append keeps the representation**: the rings and the messages handed out are
untouched, and the pending bytes grow by what the append stores. -/
theorem WOp.run_represents {alloc : Alloc} {e : Endian} {n0 n n' : Rs} {o : Outbox} {op : WOp}
    (hm : 1 ≤ n0.conf.reallocMultiplier) (hr : Represents e n0 o n)
    (h : op.run alloc e n = some n') : Represents e n0 (o.step e n0 (.append op)) n' := by
  obtain ⟨hok, hs, hconf, hrings, hw, hp⟩ := WOp.run_spec (hr.conf ▸ hm) hr.wbufOk h
  exact ⟨⟨hok, hconf.trans hr.conf, hw.trans hr.srcWorkerThreadI, hp.trans hr.srcPeerI,
    by rw [hs, hr.pending]; rfl⟩, fun w => hrings ▸ hr.rings w, hr.wellFormed⟩

/-- **One send keeps the representation**: on rings with room for what the abstract step
hands out, a helper that names only workers returns, and each worker's ring has received the
records of exactly the messages handed to it, after those it held. -/
theorem ToCall.run_represents {api : RingApi} (hapi : api.InPlace) {e : Endian} {n0 n : Rs}
    {o : Outbox} {t : ToCall} (hr : Represents e n0 o n) (hfit : t.idsFit)
    (hwk : t.workerFits e n0) (hfits : Fits e n0 (o.step e n0 (.send t))) :
    ∃ n', t.run api e n = some n' ∧ Represents e n0 (o.step e n0 (.send t)) n' := by
  have hs := hr.wbufOk.length_scratch
  have hcs : t.sends e n = t.sends e n0 := t.sends_congr e hr.conf hr.srcWorkerThreadI hr.srcPeerI
  have hcons := ToCall.consistent e n hfit
  have hlt : ∀ c ∈ t.sends e n, c.workerI < n0.conf.workerC := hcs ▸ t.workerI_lt e n0 hwk
  have hnew : ∀ w, handOut n.conf.maxWsMsgSize n.scratch (t.sends e n) w =
      handOut n0.conf.maxWsMsgSize o.pending (t.sends e n0) w := fun w => by
    rw [hcs, hr.conf, hr.pending]
  have hsent : ∀ w, sentBytes e n (t.sends e n) w =
      (handOut n0.conf.maxWsMsgSize o.pending (t.sends e n0) w).flatMap (·.encode e) :=
    fun w => (hnew w) ▸ sentBytes_eq_handOut e hs w _ hcons fun r hm =>
      hfits.band w r (List.mem_append_right _ ((hnew w) ▸ hm))
  have hroom : ∀ w < n0.conf.workerC, (n0.outboundRings w).writer +
      ((o.delivered w).flatMap (·.encode e)).length + (sentBytes e n (t.sends e n) w).length <
        (n0.outboundRings w).buf.length := fun w hw => by
    have := hfits.room w hw
    simp only [Outbox.step, List.flatMap_append, List.length_append] at this
    rw [hsent]
    omega
  obtain ⟨n1, hsend, -, hrings, -⟩ :=
    sendAll_rings hapi e _ hcons (hr.conf ▸ hlt) hs fun w hw => by
      have := hroom w (hr.conf ▸ hw)
      rw [hr.rings w, RsRing.write_writer, RsRing.length_write_buf (by omega)]
      omega
  have hrun : t.run api e n = some n1.resetWbufI := by rw [ToCall.run_eq, fanOut, hsend]; rfl
  obtain ⟨hok, hsc, hconf, hw, hp⟩ := ToCall.run_tracks hr.wbufOk hrun
  refine ⟨_, hrun, ⟨hok, hconf.trans hr.conf, hw.trans hr.srcWorkerThreadI,
    hp.trans hr.srcPeerI, hsc⟩, ?_, ?_⟩
  · intro w
    show n1.outboundRings w = _
    rw [hrings w, hr.rings w]
    by_cases hw : w < n0.conf.workerC
    · have := hroom w hw
      rw [RsRing.write_write (by omega), hsent]
      simp [Outbox.step, List.flatMap_append]
    · have hnil : sentBytes e n (t.sends e n) w = [] :=
        sentBytes_of_not_addressed e n fun c hc => by have := hlt c hc; omega
      simp [Outbox.step, List.flatMap_append, ← hsent w, hnil]
  · intro w r hm
    rcases List.mem_append.mp hm with hm | hm
    · exact hr.wellFormed w r hm
    · obtain ⟨c, hc, rfl⟩ := mem_handOut hm
      have hband := hfits.band w _ (List.mem_append_right (o.delivered w) hm)
      exact (hcons c (hcs ▸ hc)).wellFormed (by dsimp only [GoodBand] at hband; omega)

/-- **Every run keeps the representation** while the rings have room for what it hands out,
and with an allocator that never fails it returns. -/
theorem runApp_represents (alloc : Alloc) {api : RingApi} (hapi : api.InPlace) {e : Endian}
    {n0 : Rs} (hm : 1 ≤ n0.conf.reallocMultiplier) (calls : List AppCall)
    (hfit : ∀ call ∈ calls, call.idsFit) (hwk : ∀ call ∈ calls, call.workerFits e n0) :
    ∀ {o : Outbox} {m : Rs}, Represents e n0 o m → Fits e n0 (Outbox.run e n0 o calls) →
      (∀ n', runApp alloc api e m calls = some n' →
        Represents e n0 (Outbox.run e n0 o calls) n') ∧
      (alloc.NeverFails → (runApp alloc api e m calls).isSome) := by
  induction calls with
  | nil => exact fun hr _ => ⟨fun n' h => Option.some.inj h ▸ hr, fun _ => rfl⟩
  | cons call calls ih =>
    intro o m hr hfits
    have ih' := @ih (fun c h => hfit c (List.mem_cons_of_mem call h))
      fun c h => hwk c (List.mem_cons_of_mem call h)
    cases call with
    | append op =>
      refine ⟨fun n' h => ?_, fun ha => ?_⟩
      · obtain ⟨m1, h1, h2⟩ := Option.bind_eq_some.mp h
        exact (ih' (WOp.run_represents hm hr h1) hfits).1 n' h2
      · obtain ⟨m1, h1⟩ := Option.isSome_iff_exists.mp (WOp.run_isSome ha e m op)
        simpa [runApp, AppCall.run, h1] using (ih' (WOp.run_represents hm hr h1) hfits).2 ha
    | send t =>
      obtain ⟨m1, h1, hr1⟩ := ToCall.run_represents hapi hr (hfit _ (List.mem_cons_self _ _))
        (hwk _ (List.mem_cons_self _ _)) (@Fits.of_run _ _ _ calls hfits)
      simpa only [runApp, AppCall.run, h1, Option.some_bind] using ih' hr1 hfits

/-- **The refinement theorem.**  For every allocator, every ring API whose reserve keeps a
ring with room in place, and every callback started from a state of the scratch buffer's
invariant with `realloc_multiplier ≥ 1`, whose `multi` calls pass fewer than `2 ^ 32` ids
and whose helpers name only workers, by id or as the source: if the workers' rings have room
for the messages the abstract model hands out, and each of those has a payload size for which
`rs_send` writes the minimal length field, then every run that returns has written to each
worker's ring, at the writer it began with, exactly the bytes of the messages handed to that
worker, which the worker's reader gets back in order, and no ring past the workers'; and with
an allocator that never fails, every run returns. -/
theorem runApp_refines (alloc : Alloc) {api : RingApi} (hapi : api.InPlace) (e : Endian)
    (n : Rs) (calls : List AppCall) (hm : 1 ≤ n.conf.reallocMultiplier) (hn : n.WbufOk)
    (hfit : ∀ call ∈ calls, call.idsFit) (hwk : ∀ call ∈ calls, call.workerFits e n)
    (hfits : Fits e n (Outbox.run e n (Outbox.start n) calls)) :
    (∀ n', runApp alloc api e n calls = some n' →
      (∀ w, ∃ bs, n'.outboundRings w = (n.outboundRings w).write bs ∧
        readRecords e bs = some ((Outbox.run e n (Outbox.start n) calls).delivered w)) ∧
      ∀ w, n.conf.workerC ≤ w → n'.outboundRings w = n.outboundRings w) ∧
    (alloc.NeverFails → (runApp alloc api e n calls).isSome) := by
  have h0 : Represents e n (Outbox.start n) n :=
    ⟨⟨hn, rfl, rfl, rfl, rfl⟩, fun w => by simp [Outbox.start], fun _ _ hr => nomatch hr⟩
  obtain ⟨hr, hsome⟩ := runApp_represents alloc hapi hm calls hfit hwk h0 hfits
  exact ⟨fun n' h => ⟨fun w => ⟨_, (hr n' h).rings w, readRecords_encode e ((hr n' h).wellFormed w)⟩,
    fun w hw => runApp_outboundRings_beyond hm hw calls hwk h0.toTracks h⟩, hsome⟩

/-- A 126-byte message built by one append and sent to every client of the one worker: the
ring of 140 bytes has room for its 131-byte record. -/
theorem runApp_refines_one_message :
    Fits .little
      { conf := ⟨1, 200, 2, 64⟩, wbuf := none, wbufSize := 0, wbufI := 0, srcWorkerThreadI := 0,
        srcPeerI := 0, outboundRings := fun _ => ⟨List.replicate 140 0, 0⟩,
        ioPairs := fun _ => ⟨⟨0, 0⟩, ⟨0, 0⟩⟩, ringUpdateQueue := [] }
      (Outbox.run .little
        { conf := ⟨1, 200, 2, 64⟩, wbuf := none, wbufSize := 0, wbufI := 0, srcWorkerThreadI := 0,
          srcPeerI := 0, outboundRings := fun _ => ⟨List.replicate 140 0, 0⟩,
          ioPairs := fun _ => ⟨⟨0, 0⟩, ⟨0, 0⟩⟩, ringUpdateQueue := [] }
        ⟨fun _ => [], []⟩ [.append (.p (List.replicate 126 7)), .send (.every true [])]) ∧
      (runApp Alloc.zeroing ⟨fun pair ring _ => some (pair, ring), fun q io _ _ _ => some (q, io)⟩
        .little
        { conf := ⟨1, 200, 2, 64⟩, wbuf := none, wbufSize := 0, wbufI := 0, srcWorkerThreadI := 0,
          srcPeerI := 0, outboundRings := fun _ => ⟨List.replicate 140 0, 0⟩,
          ioPairs := fun _ => ⟨⟨0, 0⟩, ⟨0, 0⟩⟩, ringUpdateQueue := [] }
        [.append (.p (List.replicate 126 7)), .send (.every true [])]).isSome := by
  have hdel : ∀ w, (Outbox.run .little
        { conf := ⟨1, 200, 2, 64⟩, wbuf := none, wbufSize := 0, wbufI := 0, srcWorkerThreadI := 0,
          srcPeerI := 0, outboundRings := fun _ => ⟨List.replicate 140 0, 0⟩,
          ioPairs := fun _ => ⟨⟨0, 0⟩, ⟨0, 0⟩⟩, ringUpdateQueue := [] }
        ⟨fun _ => [], []⟩ [.append (.p (List.replicate 126 7)), .send (.every true [])]).delivered w =
      if w = 0 then [⟨.every, [], true, List.replicate 126 7⟩] else [] := fun w => by
    have h1 : List.range 1 = [0] := rfl
    simp only [Outbox.run, Outbox.step, handOut, ToCall.sends, rsToEverySends, WOp.bytes,
      List.nil_append, h1, List.map_cons, List.map_nil, List.filter_cons, List.filter_nil,
      List.length_replicate, List.length_nil, List.append_nil, Nat.add_zero]
    by_cases hw : w = 0
    · subst hw; simp only [if_true]; rfl
    · simp [Ne.symm hw, hw]
  have hfits : Fits .little
      { conf := ⟨1, 200, 2, 64⟩, wbuf := none, wbufSize := 0, wbufI := 0, srcWorkerThreadI := 0,
        srcPeerI := 0, outboundRings := fun _ => ⟨List.replicate 140 0, 0⟩,
        ioPairs := fun _ => ⟨⟨0, 0⟩, ⟨0, 0⟩⟩, ringUpdateQueue := [] }
      (Outbox.run .little
        { conf := ⟨1, 200, 2, 64⟩, wbuf := none, wbufSize := 0, wbufI := 0, srcWorkerThreadI := 0,
          srcPeerI := 0, outboundRings := fun _ => ⟨List.replicate 140 0, 0⟩,
          ioPairs := fun _ => ⟨⟨0, 0⟩, ⟨0, 0⟩⟩, ringUpdateQueue := [] }
        ⟨fun _ => [], []⟩ [.append (.p (List.replicate 126 7)), .send (.every true [])]) := by
    refine ⟨fun w r hr => ?_, fun w _ => ?_⟩ <;> rw [hdel w] at *
    · split_ifs at hr
      · obtain rfl := List.mem_singleton.mp hr
        simp [GoodBand]
      · cases hr
    · split_ifs
      · simp [OutboundRecord.encode, countField, RsOutboundKind.hasCount, wsLength]
      · simp
  exact ⟨hfits, (@runApp_refines Alloc.zeroing
    ⟨fun pair ring _ => some (pair, ring), fun q io _ _ _ => some (q, io)⟩
    ⟨fun pair _ _ _ => ⟨pair, rfl⟩, fun _ _ _ _ _ => rfl⟩ .little _ _ (by norm_num)
    ⟨fun _ h => (by cases h), (by decide), fun _ => rfl⟩ (by decide) (by decide) hfits).2
    Alloc.zeroing_neverFails⟩

end RingSocket
