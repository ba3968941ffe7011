import RingSocket.Bytes

/-!
# The app thread's view of RingSocket

The data an app thread's helper functions (`ringsocket_app_helper.h`) read and write: the
status codes of `rs_ret`, the configuration, the outbound rings and the `io_pairs` cells
shared with the workers, the ring update queue, and the per-callback state `struct rs` with
its scratch buffer.  Client ids are packed and unpacked here too.

## Main Definitions

* `RsRet` — `rs_ret`.
* `Rs` — the members of `struct rs` that the helpers use.
* `RingApi` — `rs_prepare_ring_write` and `rs_enqueue_ring_update`, which live in
  `ringsocket_ring.h` and `ringsocket_queue.h`, outside the sources modelled here.  They are
  parameters of every send, and their types say what they may touch: the ring and its
  `io_pair` cells, and the update queue with the `io_pairs` it flushes to.
* `rsGetClientId`, `clientIdWorker`, `clientIdPeer` — the id as a `uint32_t` pair seen
  through a `uint64_t`, and the two `uint32_t` reads the send helpers make of it.

## Design Notes

Sizes (`size_t`) are natural numbers: no modelled size comes near `SIZE_MAX`.  Pointers into
a ring are offsets into its current buffer.  `realloc_multiplier` is a `double` in the
configuration; it is taken as an exact rational here, the product with a size truncated as
the conversion back to `size_t` does.

A client id is read back as two `uint32_t`s by every send helper; `rsGetClientId_bijective`
says the packing loses only the high bits of the worker index, so ids can stand for the pairs.
-/

namespace RingSocket

/-- `rs_ret`: the status every internal call returns. -/
inductive RsRet where
  | ok
  | closePeer
  | fatal
  | again
  deriving DecidableEq, Repr

/-- The members of `struct rs_conf` that the modelled code reads. -/
structure RsConf where
  workerC : Nat
  maxWsMsgSize : Nat
  reallocMultiplier : ℚ
  outboundRingBufSize : Nat
  deriving DecidableEq

/-- `enum rs_outbound_kind`. Modelled from the spec: the enum is declared outside src/; its
values are those of C enumerators declared in the order the spec lists the kinds. -/
inductive RsOutboundKind where
  | single
  | array
  | every
  | everyExceptSingle
  | everyExceptArray
  deriving DecidableEq, Repr

/-- The kind byte `(uint8_t) outbound_kind`. -/
def RsOutboundKind.toUInt8 : RsOutboundKind → UInt8
  | .single => 0
  | .array => 1
  | .every => 2
  | .everyExceptSingle => 3
  | .everyExceptArray => 4

/-- One direction of an `io_pair`: the published writer and reader cursors. -/
structure RsRingPair where
  writer : Nat
  reader : Nat
  deriving DecidableEq, Repr

/-- `struct rs_thread_io_pairs`: the cells this app shares with one worker thread. -/
structure RsThreadIoPairs where
  inbound : RsRingPair
  outbound : RsRingPair
  deriving DecidableEq, Repr

/-- `struct rs_ring` as the send path uses it: the bytes of its current buffer and the
writer cursor, an offset into that buffer. -/
structure RsRing where
  buf : List UInt8
  writer : Nat
  deriving DecidableEq, Repr

/-- One pending entry of the ring update queue: a writer position to publish to a thread. -/
structure RsRingUpdate where
  writer : Nat
  threadI : Nat
  isWrite : Bool
  deriving DecidableEq, Repr

/-- The ring and queue functions a send calls.  A `none` result is a failure that
`RS_GUARD_APP` turns into the end of the app thread. -/
structure RingApi where
  /-- `rs_prepare_ring_write(&io_pair->outbound, ring, msg_size)`: make `msg_size`
  contiguous bytes writable at the writer, wrapping or growing the ring. -/
  rsPrepareRingWrite : RsRingPair → RsRing → Nat → Option (RsRingPair × RsRing)
  /-- `rs_enqueue_ring_update(queue, io_pairs, ..., writer, thread_i, is_write)`: queue the
  publication of a new writer position, flushing the queue to `io_pairs` when it is full. -/
  rsEnqueueRingUpdate : List RsRingUpdate → (Nat → RsThreadIoPairs) → Nat → Nat → Bool →
    Option (List RsRingUpdate × (Nat → RsThreadIoPairs))

/-- The members of `struct rs` the app helpers use: the scratch buffer `*wbuf` (`none` is
`NULL`), its size `*wbuf_size` and fill `wbuf_i`, the source of the current callback, and
the app's outbound side of every (worker, app) pair. -/
structure Rs where
  conf : RsConf
  wbuf : Option (List UInt8)
  wbufSize : Nat
  wbufI : Nat
  srcWorkerThreadI : Nat
  srcPeerI : UInt32
  outboundRings : Nat → RsRing
  ioPairs : Nat → RsThreadIoPairs
  ringUpdateQueue : List RsRingUpdate

/-- The scratch bytes a send puts in front of the user payload: `(*wbuf)[0 .. wbuf_i)`. -/
def Rs.scratch (n : Rs) : List UInt8 := (n.wbuf.getD []).take n.wbufI

/-! ## Client ids -/

/-- `rs_get_client_id`: the `uint64_t` read from the memory of the `uint32_t` array
`{src_worker_thread_i, src_peer_i}`. -/
def rsGetClientId (e : Endian) (n : Rs) : UInt64 :=
  loadU64 e (storeU32 e (UInt32.ofNat n.srcWorkerThreadI) ++ storeU32 e n.srcPeerI)

/-- `*u32` for `uint32_t * u32 = (uint32_t *) &client_id`: the worker half. -/
def clientIdWorker (e : Endian) (clientId : UInt64) : UInt32 := loadU32 e (storeU64 e clientId)

/-- `*(u32 + 1)`: the peer half. -/
def clientIdPeer (e : Endian) (clientId : UInt64) : UInt32 :=
  loadU32 e ((storeU64 e clientId).drop 4)

/-- The memory of a client id is the memory of the pair it was read from. -/
theorem storeU64_rsGetClientId (e : Endian) (n : Rs) :
    storeU64 e (rsGetClientId e n) =
      storeU32 e (UInt32.ofNat n.srcWorkerThreadI) ++ storeU32 e n.srcPeerI :=
  storeU64_loadU64 e (by simp)

/-- **Unpacking gives back the worker that `rs_get_client_id` packed**, on either host. -/
@[simp] theorem clientIdWorker_rsGetClientId (e : Endian) (n : Rs) :
    clientIdWorker e (rsGetClientId e n) = UInt32.ofNat n.srcWorkerThreadI := by
  rw [clientIdWorker, storeU64_rsGetClientId, loadU32_storeU32]

/-- **Unpacking gives back the peer that `rs_get_client_id` packed**, on either host. -/
@[simp] theorem clientIdPeer_rsGetClientId (e : Endian) (n : Rs) :
    clientIdPeer e (rsGetClientId e n) = n.srcPeerI := by
  rw [clientIdPeer, storeU64_rsGetClientId, List.drop_left' (length_storeU32 e _),
    ← List.append_nil (storeU32 e n.srcPeerI), loadU32_storeU32]

/-- **A client id is exactly its (worker, peer) pair**, on either host: two callbacks get the
same id exactly when they come from the same worker, as a `uint32_t`, and the same peer; and
every 64-bit id is the id of the pair the send helpers unpack from it. -/
theorem rsGetClientId_bijective (e : Endian) (n n' : Rs) (clientId : UInt64) :
    (rsGetClientId e n = rsGetClientId e n' ↔
      UInt32.ofNat n.srcWorkerThreadI = UInt32.ofNat n'.srcWorkerThreadI ∧
        n.srcPeerI = n'.srcPeerI) ∧
    rsGetClientId e
        { n with
          srcWorkerThreadI := (clientIdWorker e clientId).toNat
          srcPeerI := clientIdPeer e clientId } =
      clientId := by
  refine ⟨⟨fun h => ?_, fun ⟨hw, hp⟩ => by rw [rsGetClientId, rsGetClientId, hw, hp]⟩,
    ?_⟩
  · have hw := congrArg (clientIdWorker e) h
    have hp := congrArg (clientIdPeer e) h
    simp only [clientIdWorker_rsGetClientId, clientIdPeer_rsGetClientId] at hw hp
    exact ⟨hw, hp⟩
  · have hb := length_storeU64 e clientId
    have hw : UInt32.ofNat (clientIdWorker e clientId).toNat = clientIdWorker e clientId :=
      UInt32.toNat.inj (UInt32.toNat_ofNat_of_lt (clientIdWorker e clientId).toNat_lt_size)
    have h1 : storeU32 e (clientIdWorker e clientId) = (storeU64 e clientId).take 4 := by
      rw [← storeU32_loadU32 e (by simp [hb] : ((storeU64 e clientId).take 4).length = 4)]
      simp [clientIdWorker, loadU32, List.take_take]
    have h2 : storeU32 e (clientIdPeer e clientId) = (storeU64 e clientId).drop 4 :=
      storeU32_loadU32 e (by simp [hb])
    rw [rsGetClientId, hw, h1, h2, List.take_append_drop, loadU64_storeU64]

end RingSocket
