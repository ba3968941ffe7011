import RingSocket.Record

/-!
# `rs_send`: one outbound record

`rs_send` checks the payload against `max_ws_msg_size`, reserves `msg_size` bytes in the
target worker's outbound ring, writes the record there byte by byte, and queues the new
writer position for publication.

## Main Definitions

* `SendCall` — the arguments of one call.
* `rsSendMsgSize` — the reservation; `rsSendLengthField` — the WebSocket length field the
  code writes, whose band is chosen by `msg_size`; `rsSendRecord` — every byte written.
* `rsSend` — the whole function, over a `RingApi`.

## Design Notes

`rs_send` is declared `void` but its size check does `return RS_FATAL`: the model returns
the status it computes, and the callers (`RingSocket.FanOut`) drop it as C does.  A failure
of `rs_prepare_ring_write` or `rs_enqueue_ring_update` goes through `RS_GUARD_APP`, which is
defined outside src/; as the spec has a fatal status end the process, it is `none` here.

`rsSendRecord_eq` sets the written bytes against the grammar of `RingSocket.Record`: for the
calls the fan-out functions make they are the record the grammar gives, except for the
length field.  `rsSendLengthField_eq_wsLength` says in which bands that field is the minimal
one anyway, and `rsSend_record_parses` concludes that there the reader gets the record back.
`rsSend_omits_length_byte` and `rsSend_single_overruns` evaluate the code where the length
field and the reservation part from what they are meant to be.
-/

namespace RingSocket

/-- The arguments of one call `rs_send(n, worker_i, outbound_kind, recipients, recipient_c,
is_utf8, p, size)`; the user payload `p[0 .. size)` is the list `p`. -/
structure SendCall where
  workerI : Nat
  outboundKind : RsOutboundKind
  recipients : List UInt32
  recipientC : UInt32
  isUtf8 : Bool
  p : List UInt8
  deriving DecidableEq, Repr

/-- `msg_size`: the payload plus a WebSocket header of 2, 4 or 10 bytes by the payload's
band, plus the kind byte. -/
def rsSendMsgSize (payloadSize : Nat) : Nat :=
  (if payloadSize > 65535 then payloadSize + 10
    else if payloadSize > 125 then payloadSize + 4
    else payloadSize + 2) + 1

/-- The `do ... while (--recipient_c)` loop: `recipient_c` host-order `uint32_t`s. -/
def writeRecipients (e : Endian) : Nat → List UInt32 → List UInt8
  | c + 1, r :: rs => storeU32 e r ++ writeRecipients e c rs
  | _, _ => []

/-- The routing header after the kind byte: a count when `recipient_c > 1`, then the
recipients, or nothing at all when `recipient_c` is `0`. -/
def rsSendRecipientField (e : Endian) (c : SendCall) : List UInt8 :=
  if c.recipientC ≠ 0 then
    (if c.recipientC > 1 then storeU32 e c.recipientC else []) ++
      writeRecipients e c.recipientC.toNat c.recipients
  else []

/-- The bytes after the opcode byte and before the payload.  Both tests read `msg_size`,
not `payload_size`, and there is no branch for the one-byte form. -/
def rsSendLengthField (e : Endian) (msgSize payloadSize : Nat) : List UInt8 :=
  if msgSize > 65535 then 127 :: storeU64 e (rsNtoh64 e (UInt64.ofNat payloadSize))
  else if msgSize > 125 then 126 :: storeU16 e (rsNtoh16 e (UInt16.ofNat payloadSize))
  else []

/-- Every byte `rs_send` writes from `ring->writer` on, in order. -/
def rsSendRecord (e : Endian) (n : Rs) (c : SendCall) : List UInt8 :=
  let payloadSize := n.wbufI + c.p.length
  c.outboundKind.toUInt8 :: rsSendRecipientField e c ++
    (if c.isUtf8 then 0x81 else 0x82) ::
      rsSendLengthField e (rsSendMsgSize payloadSize) payloadSize ++ n.scratch ++ c.p

/-- Write `bytes` at the writer and advance it past them. -/
def RsRing.write (ring : RsRing) (bytes : List UInt8) : RsRing where
  buf := ring.buf.take ring.writer ++ bytes ++ ring.buf.drop (ring.writer + bytes.length)
  writer := ring.writer + bytes.length

/-- `rs_send`.  `some (RS_FATAL, n)` is the early `return RS_FATAL` of the size check;
`none` is a failed `RS_GUARD_APP`. -/
def rsSend (api : RingApi) (e : Endian) (n : Rs) (c : SendCall) : Option (RsRet × Rs) :=
  if n.wbufI + c.p.length > n.conf.maxWsMsgSize then some (.fatal, n) else
  let msgSize := rsSendMsgSize (n.wbufI + c.p.length)
  match api.rsPrepareRingWrite (n.ioPairs c.workerI).outbound (n.outboundRings c.workerI)
      msgSize with
  | none => none
  | some (pair, ring) =>
    let ring := ring.write (rsSendRecord e n c)
    let ioPairs := Function.update n.ioPairs c.workerI
      { n.ioPairs c.workerI with outbound := pair }
    match api.rsEnqueueRingUpdate n.ringUpdateQueue ioPairs ring.writer c.workerI true with
    | none => none
    | some (queue, ioPairs) =>
      some (.ok, { n with outboundRings := Function.update n.outboundRings c.workerI ring,
                          ioPairs := ioPairs, ringUpdateQueue := queue })

/-! ## What one call does -/

section
variable {api : RingApi} {e : Endian} {n n' : Rs} {c : SendCall} {r : RsRet}

/-- **The two ways `rs_send` returns**: the size check fails and nothing changes, or the
record is written at the writer of the ring `rs_prepare_ring_write` handed back and its end
is queued for publication. -/
theorem rsSend_cases (h : rsSend api e n c = some (r, n')) :
    (n.conf.maxWsMsgSize < n.wbufI + c.p.length ∧ r = .fatal ∧ n' = n) ∨
    (n.wbufI + c.p.length ≤ n.conf.maxWsMsgSize ∧ r = .ok ∧
      ∃ pair ring queue io,
        api.rsPrepareRingWrite (n.ioPairs c.workerI).outbound (n.outboundRings c.workerI)
          (rsSendMsgSize (n.wbufI + c.p.length)) = some (pair, ring) ∧
        api.rsEnqueueRingUpdate n.ringUpdateQueue
          (Function.update n.ioPairs c.workerI { n.ioPairs c.workerI with outbound := pair })
          (ring.write (rsSendRecord e n c)).writer c.workerI true = some (queue, io) ∧
        n' = { n with
          outboundRings := Function.update n.outboundRings c.workerI
            (ring.write (rsSendRecord e n c)),
          ioPairs := io, ringUpdateQueue := queue }) := by
  dsimp only [rsSend] at h
  split at h
  · simp_all
  · right
    refine ⟨by omega, ?_⟩
    split at h
    · cases h
    · split at h
      · cases h
      · rename_i pair ring hprep _ queue io henq
        simp only [Option.some.injEq, Prod.mk.injEq] at h
        exact ⟨h.1.symm, pair, ring, queue, io, hprep, henq, h.2.symm⟩

/-- What a send leaves alone: the configuration, the scratch buffer and the source of the
callback.  A send only writes rings, `io_pairs` and the update queue. -/
structure SendFrame (n n' : Rs) : Prop where
  conf : n'.conf = n.conf
  wbuf : n'.wbuf = n.wbuf
  wbufSize : n'.wbufSize = n.wbufSize
  wbufI : n'.wbufI = n.wbufI
  srcWorkerThreadI : n'.srcWorkerThreadI = n.srcWorkerThreadI
  srcPeerI : n'.srcPeerI = n.srcPeerI

theorem SendFrame.refl (n : Rs) : SendFrame n n := ⟨rfl, rfl, rfl, rfl, rfl, rfl⟩

theorem SendFrame.trans {n₁ n₂ n₃ : Rs} (h₁ : SendFrame n₁ n₂) (h₂ : SendFrame n₂ n₃) :
    SendFrame n₁ n₃ :=
  ⟨h₂.1.trans h₁.1, h₂.2.trans h₁.2, h₂.3.trans h₁.3, h₂.4.trans h₁.4, h₂.5.trans h₁.5,
    h₂.6.trans h₁.6⟩

theorem rsSend_frame (h : rsSend api e n c = some (r, n')) : SendFrame n n' := by
  rcases rsSend_cases h with ⟨-, -, rfl⟩ | ⟨-, -, _, _, _, _, -, -, rfl⟩ <;>
    exact ⟨rfl, rfl, rfl, rfl, rfl, rfl⟩

end

/-! ## The bytes against the grammar -/

/-- A call as the fan-out functions make it: `recipient_c` counts the recipients, a count is
written exactly for the array kinds, and the other kinds carry the recipients they name. -/
structure SendCall.Consistent (c : SendCall) : Prop where
  recipientC : c.recipientC.toNat = c.recipients.length
  hasCount : c.outboundKind.hasCount = decide (1 < c.recipients.length)
  fixedCount : c.outboundKind.hasCount = false → c.recipients.length = c.outboundKind.fixedCount

/-- The record a call is meant to write: its scratch bytes then its user payload. -/
def SendCall.record (n : Rs) (c : SendCall) : OutboundRecord :=
  ⟨c.outboundKind, c.recipients, c.isUtf8, n.scratch ++ c.p⟩

theorem writeRecipients_length (e : Endian) (rs : List UInt32) :
    writeRecipients e rs.length rs = rs.flatMap (storeU32 e) := by
  induction rs with
  | nil => rfl
  | cons r rs ih => simp [writeRecipients, ih]

theorem rsSendRecipientField_eq {c : SendCall} (hc : c.Consistent) (e : Endian) (n : Rs) :
    rsSendRecipientField e c = countField e (c.record n) ++ c.recipients.flatMap (storeU32 e) := by
  have hne : c.recipientC ≠ 0 ↔ c.recipients.length ≠ 0 := by
    rw [← hc.recipientC]
    exact not_congr ⟨fun h => by simp [h], fun h => UInt32.toNat.inj (by simpa using h)⟩
  have hgt : 1 < c.recipientC ↔ 1 < c.recipients.length :=
    (UInt32.lt_def.trans BitVec.lt_def).trans (by rw [← hc.recipientC]; rfl)
  have hcount : storeU32 e c.recipientC = storeU32 e (UInt32.ofNat c.recipients.length) := by
    rw [← hc.recipientC, UInt32.toNat.inj (UInt32.toNat_ofNat_of_lt c.recipientC.toNat_lt_size)]
  unfold rsSendRecipientField countField SendCall.record
  rw [hc.hasCount, hc.recipientC, writeRecipients_length]
  by_cases h0 : c.recipients.length = 0
  · have hz : c.recipientC = 0 := by_contra fun h => hne.mp h h0
    simp [h0, hz, List.length_eq_zero.mp h0]
  · by_cases h1 : 1 < c.recipients.length
    · simp [hne.mpr h0, hgt.mpr h1, h1, hcount]
    · simp [hne.mpr h0, mt hgt.mp h1, h1]

/-- **What `rs_send` writes, field by field**: the record of the grammar, with the code's
length field in place of the minimal one. -/
theorem rsSendRecord_eq {c : SendCall} (hc : c.Consistent) (e : Endian) (n : Rs) :
    rsSendRecord e n c =
      c.outboundKind.toUInt8 :: (countField e (c.record n) ++ c.recipients.flatMap (storeU32 e) ++
        opcodeByte c.isUtf8 :: (rsSendLengthField e (rsSendMsgSize (n.wbufI + c.p.length))
          (n.wbufI + c.p.length) ++ (n.scratch ++ c.p))) := by
  rw [rsSendRecord, rsSendRecipientField_eq hc e n]
  simp [opcodeByte]

/-- Where the code's length field is the minimal one: a payload of 126 to 65530 bytes, or
of more than 65535. -/
theorem rsSendLengthField_eq_wsLength (e : Endian) {payloadSize : Nat}
    (h : 126 ≤ payloadSize ∧ payloadSize ≤ 65530 ∨ 65535 < payloadSize ∧ payloadSize < 2 ^ 64) :
    rsSendLengthField e (rsSendMsgSize payloadSize) payloadSize = wsLength payloadSize := by
  rcases h with ⟨h₁, h₂⟩ | ⟨h₁, h₂⟩
  · have hlt : payloadSize < UInt16.size := by change payloadSize < 65536; omega
    have := storeU16_rsNtoh16 e (UInt16.ofNat payloadSize)
    rw [UInt16.toNat_ofNat_of_lt hlt] at this
    simp only [rsSendLengthField, rsSendMsgSize, wsLength, this,
      if_neg (show ¬ payloadSize > 65535 by omega), if_pos (show payloadSize > 125 by omega),
      if_neg (show ¬ payloadSize ≤ 125 by omega), if_pos (show payloadSize ≤ 65535 by omega),
      if_neg (show ¬ payloadSize + 4 + 1 > 65535 by omega),
      if_pos (show payloadSize + 4 + 1 > 125 by omega)]
  · have hlt : payloadSize < UInt64.size := h₂
    have := storeU64_rsNtoh64 e (UInt64.ofNat payloadSize)
    rw [UInt64.toNat_ofNat_of_lt hlt] at this
    simp only [rsSendLengthField, rsSendMsgSize, wsLength, this,
      if_pos (show payloadSize > 65535 by omega), if_neg (show ¬ payloadSize ≤ 125 by omega),
      if_neg (show ¬ payloadSize ≤ 65535 by omega),
      if_pos (show payloadSize + 10 + 1 > 65535 by omega)]

/-- **In those bands the grammar's reader gets back what was sent** — the kind, the
recipients, the frame type, and the scratch bytes followed by the user payload — and stops
exactly where `rs_send` stopped writing. -/
theorem rsSend_record_parses {c : SendCall} (hc : c.Consistent) (e : Endian) {n : Rs}
    (hs : n.scratch.length = n.wbufI)
    (hP : 126 ≤ n.wbufI + c.p.length ∧ n.wbufI + c.p.length ≤ 65530 ∨
      65535 < n.wbufI + c.p.length ∧ n.wbufI + c.p.length < 2 ^ 64) (rest : List UInt8) :
    OutboundRecord.parse e (rsSendRecord e n c ++ rest) = some (c.record n, rest) := by
  have hwf : (c.record n).WellFormed := by
    refine ⟨?_, by simp [SendCall.record, hs]; omega⟩
    show if c.outboundKind.hasCount then c.recipients.length < 2 ^ 32
      else c.recipients.length = c.outboundKind.fixedCount
    split
    · rw [← hc.recipientC]; exact c.recipientC.toNat_lt_size
    · rename_i hk
      exact hc.fixedCount (Bool.eq_false_iff.mpr hk)
  have hlen : (n.scratch ++ c.p).length = n.wbufI + c.p.length := by simp [hs]
  have := parse_encode e hwf rest
  rw [OutboundRecord.encode] at this
  rw [rsSendRecord_eq hc, rsSendLengthField_eq_wsLength e hP]
  simpa [SendCall.record, hlen] using this

/-- **`rs_send` writes no length byte for a short payload.**  Spec scenario 3, worker 0:
a binary `"AB"` to peer 7 as `SINGLE`.  The grammar puts the length `0x02` after `0x82`;
the code writes nothing there, as it does for every payload of at most 122 bytes, and uses
the 3-byte form for 123 to 125 bytes and the 9-byte form for 65531 to 65535 bytes. -/
theorem rsSend_omits_length_byte (n : Rs) :
    rsSendRecord .little { n with wbufI := 0 } ⟨0, .single, [7], 1, false, [0x41, 0x42]⟩ =
      [0, 7, 0, 0, 0, 0x82, 0x41, 0x42] ∧
    OutboundRecord.encode .little ⟨.single, [7], false, [0x41, 0x42]⟩ =
      [0, 7, 0, 0, 0, 0x82, 0x02, 0x41, 0x42] := by
  refine ⟨?_, by decide⟩
  simp [rsSendRecord, rsSendRecipientField, rsSendLengthField, rsSendMsgSize, Rs.scratch,
    writeRecipients]
  decide

/-- **A recipient is written past the reservation.**  With no scratch bytes and an empty
payload, `rs_send` to one recipient asks `rs_prepare_ring_write` for 3 bytes and writes 6:
`msg_size` counts the kind byte and the WebSocket header but none of the recipient bytes. -/
theorem rsSend_single_overruns (e : Endian) (n : Rs) (w : Nat) (q : UInt32) (isUtf8 : Bool) :
    rsSendMsgSize (0 + 0) = 3 ∧
      (rsSendRecord e { n with wbufI := 0 } ⟨w, .single, [q], 1, isUtf8, []⟩).length = 6 := by
  refine ⟨rfl, ?_⟩
  simp [rsSendRecord, rsSendRecipientField, rsSendLengthField, rsSendMsgSize, Rs.scratch,
    writeRecipients]

end RingSocket
