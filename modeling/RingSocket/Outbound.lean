import RingSocket.Routing

/-!
# What the send path leaves in the outbound rings

`rs_send` asks `rs_prepare_ring_write` for `msg_size` bytes at the writer of the target
worker's outbound ring, writes its record there, and queues the new writer for publication.
This module follows those bytes into the rings, and reads them back as the worker does.

## Main Definitions

* `RingApi.InPlace` — a ring API whose reserve, when the ring has room at its writer, hands
  the ring back as it is, and whose queueing succeeds.
* `sentBytes` — the bytes a list of `rs_send` calls writes to one worker's ring.
* `readRecords` — a worker's reading of its outbound ring, record after record.

## Main Results

* `rsSend_fits_reservation_iff` — by how many bytes a record differs from the `msg_size`
  reserved for it, for every call the fan-outs make: it stays within the reservation exactly
  for an `EVERY` call whose payload is outside the bands 123..125 and 65531..65535.
* `sendAll_rings` — on rings with room, a run of calls to the workers returns, and each ring
  receives the records of the calls addressed to it, in call order, and nothing else.
* `readRecords_encode` — the reader gets back every sequence of well-formed records from
  their bytes laid end to end.

## Design Notes

`rs_prepare_ring_write` lives in `ringsocket_ring.h`, outside src/.  The spec's reserve
returns the current writer when `writer + n ≤ buffer_end`; `RingApi.InPlace` asks exactly
that of a `RingApi`, and says nothing of how a ring without room is wrapped or grown.  The
ring's buffer is a list: a write past its end would lengthen it, where C would write past
the buffer.  `sendAll_rings` therefore asks for room for every byte written, not only for the
reservations, which `rsSend_fits_reservation_iff` shows to be too small.
-/

namespace RingSocket

/-! ## The record against its reservation -/

theorem length_flatMap_storeU32 (e : Endian) (rs : List UInt32) :
    (rs.flatMap (storeU32 e)).length = 4 * rs.length := by
  induction rs with
  | nil => rfl
  | cons r rs ih => simp only [List.flatMap_cons, List.length_append, length_storeU32, ih,
      List.length_cons]; omega

theorem length_rsSendLengthField (e : Endian) (msgSize payloadSize : Nat) :
    (rsSendLengthField e msgSize payloadSize).length =
      if msgSize > 65535 then 9 else if msgSize > 125 then 3 else 0 := by
  unfold rsSendLengthField
  split_ifs <;> simp [length_storeU64, length_storeU16]

/-- The bytes of a record: kind, routing header, opcode, length field, scratch and payload. -/
theorem length_rsSendRecord {c : SendCall} (hc : c.Consistent) (e : Endian) {n : Rs}
    (hs : n.scratch.length = n.wbufI) :
    (rsSendRecord e n c).length =
      2 + 4 * (c.recipients.length + if c.outboundKind.hasCount then 1 else 0) +
        (rsSendLengthField e (rsSendMsgSize (n.wbufI + c.p.length))
          (n.wbufI + c.p.length)).length + (n.wbufI + c.p.length) := by
  rw [rsSendRecord_eq hc]
  simp only [countField, SendCall.record, List.length_cons, List.length_append,
    length_flatMap_storeU32, hs]
  split <;> simp only [length_storeU32, List.length_nil] <;> omega

/-- The reservation and the length field in each payload band: the band of the length field
is chosen from `msg_size`, which is 3, 5 or 11 bytes more than the payload. -/
theorem rsSendMsgSize_bands (e : Endian) (P : Nat) :
    (P ≤ 122 ∧ rsSendMsgSize P = P + 3 ∧ (rsSendLengthField e (rsSendMsgSize P) P).length = 0) ∨
    (123 ≤ P ∧ P ≤ 125 ∧ rsSendMsgSize P = P + 3 ∧
      (rsSendLengthField e (rsSendMsgSize P) P).length = 3) ∨
    (126 ≤ P ∧ P ≤ 65530 ∧ rsSendMsgSize P = P + 5 ∧
      (rsSendLengthField e (rsSendMsgSize P) P).length = 3) ∨
    (65531 ≤ P ∧ P ≤ 65535 ∧ rsSendMsgSize P = P + 5 ∧
      (rsSendLengthField e (rsSendMsgSize P) P).length = 9) ∨
    (65535 < P ∧ rsSendMsgSize P = P + 11 ∧ (rsSendLengthField e (rsSendMsgSize P) P).length = 9) := by
  rw [length_rsSendLengthField]
  unfold rsSendMsgSize
  rcases (by omega : P ≤ 122 ∨ (123 ≤ P ∧ P ≤ 125) ∨ (126 ≤ P ∧ P ≤ 65530) ∨
      (65531 ≤ P ∧ P ≤ 65535) ∨ 65535 < P) with h | h | h | h | h <;>
    simp (disch := omega) only [if_pos, if_neg, if_true, h, and_self, and_true, true_and,
      and_false, false_and, true_or, or_true, false_or, or_false]

/-- A record is never more than one byte shorter than its reservation. -/
theorem rsSendMsgSize_le {c : SendCall} (hc : c.Consistent) (e : Endian) {n : Rs}
    (hs : n.scratch.length = n.wbufI) :
    rsSendMsgSize (n.wbufI + c.p.length) ≤ (rsSendRecord e n c).length + 1 := by
  rw [length_rsSendRecord hc e hs]
  rcases rsSendMsgSize_bands e (n.wbufI + c.p.length) with h | h | h | h | h <;> omega

/-- **How far `rs_send` writes past its reservation.**  For every call the fan-outs make,
with `P = wbuf_i + size`, the record exceeds the `msg_size` handed to
`rs_prepare_ring_write` by 4 bytes per recipient, 4 more for the count of an array kind, 2
more for `P` in 123..125 and 6 more for `P` in 65531..65535 (the header band is chosen from
`msg_size`), and falls one byte short for `P ≤ 122` (no length byte is written).  So the
record stays within its reservation exactly for a call with no recipient — an `EVERY` call —
whose payload is outside those two bands. -/
theorem rsSend_fits_reservation_iff {c : SendCall} (hc : c.Consistent) (e : Endian) {n : Rs}
    (hs : n.scratch.length = n.wbufI) :
    (rsSendRecord e n c).length + (if n.wbufI + c.p.length ≤ 122 then 1 else 0) =
        rsSendMsgSize (n.wbufI + c.p.length) +
          4 * (c.recipients.length + if c.outboundKind.hasCount then 1 else 0) +
          (if 123 ≤ n.wbufI + c.p.length ∧ n.wbufI + c.p.length ≤ 125 then 2
            else if 65531 ≤ n.wbufI + c.p.length ∧ n.wbufI + c.p.length ≤ 65535 then 6 else 0) ∧
      ((rsSendRecord e n c).length ≤ rsSendMsgSize (n.wbufI + c.p.length) ↔
        c.recipients = [] ∧ ¬ (123 ≤ n.wbufI + c.p.length ∧ n.wbufI + c.p.length ≤ 125) ∧
          ¬ (65531 ≤ n.wbufI + c.p.length ∧ n.wbufI + c.p.length ≤ 65535)) := by
  have hk : c.recipients.length = 0 → (if c.outboundKind.hasCount then 1 else 0) = 0 :=
    fun h => by simp [hc.hasCount, h]
  rw [length_rsSendRecord hc e hs, ← List.length_eq_zero]
  generalize (if c.outboundKind.hasCount then 1 else 0) = k at hk ⊢
  generalize c.recipients.length = r at hk ⊢
  have hb := rsSendMsgSize_bands e (n.wbufI + c.p.length)
  generalize n.wbufI + c.p.length = P at hb ⊢
  rcases hb with
    ⟨h, hm, hL⟩ | ⟨h, h', hm, hL⟩ | ⟨h, h', hm, hL⟩ | ⟨h, h', hm, hL⟩ |
      ⟨h, hm, hL⟩ <;>
    rw [hL, hm] <;> simp (disch := omega) only [if_pos, if_neg] <;> omega

theorem rsSend_fits_reservation_iff_every :
    SendCall.Consistent ⟨0, .every, [], 0, true, []⟩ ∧
      (Rs.scratch
        { conf := ⟨1, 16, 1, 64⟩, wbuf := none, wbufSize := 0, wbufI := 0,
          srcWorkerThreadI := 0, srcPeerI := 0, outboundRings := fun _ => ⟨[], 0⟩,
          ioPairs := fun _ => ⟨⟨0, 0⟩, ⟨0, 0⟩⟩, ringUpdateQueue := [] }).length = 0 ∧
      ((rsSendRecord .little
          { conf := ⟨1, 16, 1, 64⟩, wbuf := none, wbufSize := 0, wbufI := 0,
            srcWorkerThreadI := 0, srcPeerI := 0, outboundRings := fun _ => ⟨[], 0⟩,
            ioPairs := fun _ => ⟨⟨0, 0⟩, ⟨0, 0⟩⟩, ringUpdateQueue := [] }
          ⟨0, .every, [], 0, true, []⟩).length ≤ rsSendMsgSize (0 + 0) ↔
        ([] : List UInt32) = [] ∧ ¬ (123 ≤ 0 + 0 ∧ 0 + 0 ≤ 125) ∧
          ¬ (65531 ≤ 0 + 0 ∧ 0 + 0 ≤ 65535)) :=
  ⟨⟨rfl, rfl, fun _ => rfl⟩, rfl, (@rsSend_fits_reservation_iff ⟨0, .every, [], 0, true, []⟩
    ⟨rfl, rfl, fun _ => rfl⟩ .little
    { conf := ⟨1, 16, 1, 64⟩, wbuf := none, wbufSize := 0, wbufI := 0,
      srcWorkerThreadI := 0, srcPeerI := 0, outboundRings := fun _ => ⟨[], 0⟩,
      ioPairs := fun _ => ⟨⟨0, 0⟩, ⟨0, 0⟩⟩, ringUpdateQueue := [] } rfl).2⟩

/-! ## Where the record is the grammar's -/

/-- The payload sizes whose length field `rs_send` writes in the minimal form: 126 to 65530
bytes, or more than 65535. -/
def GoodBand (payloadSize : Nat) : Prop :=
  126 ≤ payloadSize ∧ payloadSize ≤ 65530 ∨ 65535 < payloadSize ∧ payloadSize < 2 ^ 64

instance (payloadSize : Nat) : Decidable (GoodBand payloadSize) :=
  inferInstanceAs (Decidable (_ ∨ _))

/-- A call as the fan-outs make it names as many recipients as its kind allows. -/
theorem SendCall.Consistent.wellFormed {c : SendCall} (hc : c.Consistent) {payload : List UInt8}
    (h : payload.length < 2 ^ 64) :
    (⟨c.outboundKind, c.recipients, c.isUtf8, payload⟩ : OutboundRecord).WellFormed := by
  refine ⟨?_, h⟩
  show if c.outboundKind.hasCount then c.recipients.length < 2 ^ 32
    else c.recipients.length = c.outboundKind.fixedCount
  split
  · rw [← hc.recipientC]; exact c.recipientC.toNat_lt_size
  · exact hc.fixedCount (Bool.eq_false_iff.mpr ‹_›)

/-- In those bands `rs_send` writes the grammar's record of its call. -/
theorem rsSendRecord_eq_encode {c : SendCall} (hc : c.Consistent) (e : Endian) {n : Rs}
    (hs : n.scratch.length = n.wbufI) (hP : GoodBand (n.wbufI + c.p.length)) :
    rsSendRecord e n c = (c.record n).encode e := by
  rw [rsSendRecord_eq hc, rsSendLengthField_eq_wsLength e hP]
  simp [OutboundRecord.encode, SendCall.record, hs]

/-! ## Writing into a ring -/

namespace RsRing

@[simp] theorem write_writer (r : RsRing) (bs : List UInt8) :
    (r.write bs).writer = r.writer + bs.length := rfl

@[simp] theorem write_nil (r : RsRing) : r.write [] = r := by
  simp [write]

theorem length_write_buf {r : RsRing} {bs : List UInt8} (h : r.writer + bs.length ≤ r.buf.length) :
    (r.write bs).buf.length = r.buf.length := by
  simp only [write, List.length_append, List.length_take, List.length_drop]
  omega

/-- Two writes in a row are one write of both. -/
theorem write_write {r : RsRing} (h : r.writer ≤ r.buf.length) (a b : List UInt8) :
    (r.write a).write b = r.write (a ++ b) := by
  have hx : (r.buf.take r.writer ++ a).length = r.writer + a.length := by simp; omega
  simp only [write, mk.injEq, List.length_append, ← Nat.add_assoc, and_true]
  rw [List.take_left' hx, List.drop_append_eq_append_drop, List.drop_eq_nil_of_le (by omega),
    List.nil_append, hx, List.drop_drop, Nat.add_sub_cancel_left]
  simp only [List.append_assoc]

end RsRing

/-! ## A run of sends on rings with room -/

/-- Modelled from the spec (§4.1: "if `writer + n ≤ buffer_end`, return the current
`writer`"): a reserve that finds `msg_size` bytes of room at the writer hands the ring back as
it is, and queueing a new writer for publication succeeds. -/
structure RingApi.InPlace (api : RingApi) : Prop where
  prepare : ∀ pair ring k, ring.writer + k ≤ ring.buf.length →
    ∃ pair', api.rsPrepareRingWrite pair ring k = some (pair', ring)
  enqueue : ∀ queue ioPairs writer threadI isWrite,
    (api.rsEnqueueRingUpdate queue ioPairs writer threadI isWrite).isSome

/-- The bytes the calls `cs`, made from `n`, write to worker `w`'s ring: the record of every
call to `w` that passes the size check, in call order. -/
def sentBytes (e : Endian) (n : Rs) (cs : List SendCall) (w : Nat) : List UInt8 :=
  (cs.filter fun c => c.workerI = w ∧ n.wbufI + c.p.length ≤ n.conf.maxWsMsgSize).flatMap
    (rsSendRecord e n)

/-- What a send writes depends on the state only through what a send leaves alone. -/
theorem rsSendRecord_congr (e : Endian) {n n' : Rs} (h : SendFrame n n') :
    rsSendRecord e n' = rsSendRecord e n := by
  funext c
  simp only [rsSendRecord, h.wbufI, h.scratch]

theorem sentBytes_congr (e : Endian) {n n' : Rs} (h : SendFrame n n') :
    sentBytes e n' = sentBytes e n := by
  funext cs w
  simp only [sentBytes, h.wbufI, h.conf, rsSendRecord_congr e h]

theorem sentBytes_cons (e : Endian) (n : Rs) (c : SendCall) (cs : List SendCall) (w : Nat) :
    sentBytes e n (c :: cs) w =
      (if c.workerI = w ∧ n.wbufI + c.p.length ≤ n.conf.maxWsMsgSize then rsSendRecord e n c
        else []) ++ sentBytes e n cs w := by
  by_cases h : c.workerI = w ∧ n.wbufI + c.p.length ≤ n.conf.maxWsMsgSize <;>
    simp [sentBytes, List.filter_cons, h]

theorem sentBytes_of_not_addressed (e : Endian) (n : Rs) {cs : List SendCall} {w : Nat}
    (h : ∀ c ∈ cs, c.workerI ≠ w) : sentBytes e n cs w = [] := by
  rw [sentBytes, List.filter_eq_nil_iff.mpr fun c hc hp => h c hc (of_decide_eq_true hp).1]
  rfl

/-- **A send writes no ring but its worker's**, whatever the ring API does. -/
theorem rsSend_outboundRings_of_ne {api : RingApi} {e : Endian} {n n' : Rs} {c : SendCall}
    {r : RsRet} (h : rsSend api e n c = some (r, n')) {w : Nat} (hw : c.workerI ≠ w) :
    n'.outboundRings w = n.outboundRings w := by
  rcases rsSend_cases h with ⟨-, -, rfl⟩ | ⟨-, -, _, _, _, _, -, -, rfl⟩
  · rfl
  · exact Function.update_noteq (Ne.symm hw) _ _

theorem sendAll_outboundRings_of_ne {api : RingApi} {e : Endian} {n n' : Rs} {cs : List SendCall}
    (h : sendAll api e n cs = some n') {w : Nat} (hw : ∀ c ∈ cs, c.workerI ≠ w) :
    n'.outboundRings w = n.outboundRings w := by
  induction cs generalizing n with
  | nil => cases h; rfl
  | cons c cs ih =>
    simp only [sendAll, Option.bind_eq_some] at h
    obtain ⟨⟨r, n1⟩, h1, h2⟩ := h
    rw [ih h2 fun c' hc' => hw c' (List.mem_cons_of_mem c hc'),
      rsSend_outboundRings_of_ne h1 (hw c (List.mem_cons_self c cs))]

/-- **One send on a ring with room**, with a ring API that reserves in place: the call
returns `RS_OK` and writes its record at the writer of its worker's ring, and changes no
other ring. -/
theorem rsSend_inPlace {api : RingApi} (hapi : api.InPlace) (e : Endian) {n : Rs}
    {c : SendCall} (hc : c.Consistent) (hs : n.scratch.length = n.wbufI)
    (hsize : n.wbufI + c.p.length ≤ n.conf.maxWsMsgSize)
    (hroom : (n.outboundRings c.workerI).writer + (rsSendRecord e n c).length <
      (n.outboundRings c.workerI).buf.length) :
    ∃ n', rsSend api e n c = some (.ok, n') ∧ SendFrame n n' ∧
      n'.outboundRings = Function.update n.outboundRings c.workerI
        ((n.outboundRings c.workerI).write (rsSendRecord e n c)) := by
  obtain ⟨pair, hprep⟩ := hapi.prepare (n.ioPairs c.workerI).outbound
    (n.outboundRings c.workerI) (rsSendMsgSize (n.wbufI + c.p.length))
    (by have := rsSendMsgSize_le hc e hs; omega)
  obtain ⟨⟨queue, io⟩, henq⟩ := Option.isSome_iff_exists.mp (hapi.enqueue n.ringUpdateQueue
    (Function.update n.ioPairs c.workerI { n.ioPairs c.workerI with outbound := pair })
    ((n.outboundRings c.workerI).write (rsSendRecord e n c)).writer c.workerI true)
  exact ⟨{ n with
      outboundRings := Function.update n.outboundRings c.workerI
        ((n.outboundRings c.workerI).write (rsSendRecord e n c))
      ioPairs := io, ringUpdateQueue := queue },
    by simp only [rsSend, if_neg (Nat.not_lt.mpr hsize), hprep, henq],
    ⟨rfl, rfl, rfl, rfl, rfl, rfl⟩, rfl⟩

/-- **A run of sends on rings with room**: for calls addressed to the `worker_c` workers, it
returns, leaves the scratch buffer, `wbuf_i` and the configuration alone, and each worker's
ring has received, at its writer, the records of the calls addressed to it that pass the size
check, in call order, and nothing else; no ring past the workers' is touched.  `rs_send`
indexes `outbound_rings` with the call's worker unchecked, so the calls must name workers. -/
theorem sendAll_rings {api : RingApi} (hapi : api.InPlace) (e : Endian) (cs : List SendCall)
    (hc : ∀ c ∈ cs, c.Consistent) {n : Rs} (hwk : ∀ c ∈ cs, c.workerI < n.conf.workerC)
    (hs : n.scratch.length = n.wbufI)
    (hroom : ∀ w < n.conf.workerC, (n.outboundRings w).writer + (sentBytes e n cs w).length <
      (n.outboundRings w).buf.length) :
    ∃ n', sendAll api e n cs = some n' ∧ SendFrame n n' ∧
      (∀ w, n'.outboundRings w = (n.outboundRings w).write (sentBytes e n cs w)) ∧
      ∀ w, n.conf.workerC ≤ w → n'.outboundRings w = n.outboundRings w := by
  suffices h : ∃ n', sendAll api e n cs = some n' ∧ SendFrame n n' ∧
      ∀ w, n'.outboundRings w = (n.outboundRings w).write (sentBytes e n cs w) by
    obtain ⟨n', hrun, hf, hr⟩ := h
    exact ⟨n', hrun, hf, hr, fun w hw => sendAll_outboundRings_of_ne hrun fun c hc => by
      have := hwk c hc; omega⟩
  induction cs generalizing n with
  | nil => exact ⟨n, rfl, SendFrame.refl n, fun w => by simp [sentBytes]⟩
  | cons c cs ih =>
    have hc' : ∀ c' ∈ cs, c'.Consistent := fun c' h => hc c' (List.mem_cons_of_mem c h)
    have hwk' : ∀ c' ∈ cs, c'.workerI < n.conf.workerC :=
      fun c' h => hwk c' (List.mem_cons_of_mem c h)
    by_cases hsize : n.wbufI + c.p.length ≤ n.conf.maxWsMsgSize
    · have hroomc := hroom c.workerI (hwk c (List.mem_cons_self c cs))
      rw [sentBytes_cons, if_pos ⟨rfl, hsize⟩, List.length_append] at hroomc
      obtain ⟨n1, h1, hf1, hr1⟩ :=
        rsSend_inPlace hapi e (hc c (List.mem_cons_self c cs)) hs hsize (by omega)
      have hs1 : n1.scratch.length = n1.wbufI := by rw [hf1.scratch, hf1.wbufI, hs]
      obtain ⟨n', hrun, hframe, hrings⟩ := ih hc' (hf1.conf ▸ hwk') hs1 fun w hw => by
        rw [hr1, sentBytes_congr e hf1]
        by_cases hw' : c.workerI = w
        · subst hw'
          rw [Function.update_same, RsRing.write_writer, RsRing.length_write_buf (by omega)]
          omega
        · simpa [Function.update_noteq (Ne.symm hw'), sentBytes_cons, hw'] using
            hroom w (hf1.conf ▸ hw)
      refine ⟨n', by simp [sendAll, h1, hrun], hf1.trans hframe, fun w => ?_⟩
      rw [hrings w, hr1, sentBytes_congr e hf1, sentBytes_cons]
      by_cases hw : c.workerI = w
      · subst hw
        rw [Function.update_same, if_pos ⟨rfl, hsize⟩, RsRing.write_write (by omega)]
      · rw [Function.update_noteq (Ne.symm hw), if_neg fun h => hw h.1, List.nil_append]
    · obtain ⟨n', hrun, hframe, hrings⟩ :=
        ih hc' hwk' hs fun w hw => by simpa [sentBytes_cons, hsize] using hroom w hw
      exact ⟨n', by simp [sendAll, rsSend, Nat.lt_of_not_le hsize, hrun], hframe,
        fun w => by simpa [sentBytes_cons, hsize] using hrings w⟩

/-- One `EVERY` call with an empty payload, on a ring of eight bytes: its two bytes fit. -/
theorem sendAll_rings_every_worker :
    (∀ w < 1, (sentBytes .little
          { conf := ⟨1, 16, 1, 64⟩, wbuf := none, wbufSize := 0, wbufI := 0,
            srcWorkerThreadI := 0, srcPeerI := 0, outboundRings := fun _ => ⟨List.replicate 8 0, 0⟩,
            ioPairs := fun _ => ⟨⟨0, 0⟩, ⟨0, 0⟩⟩, ringUpdateQueue := [] }
          (rsToEverySends 1 true []) w).length < 8) ∧
      (sendAll ⟨fun pair ring _ => some (pair, ring), fun q io _ _ _ => some (q, io)⟩ .little
        { conf := ⟨1, 16, 1, 64⟩, wbuf := none, wbufSize := 0, wbufI := 0,
          srcWorkerThreadI := 0, srcPeerI := 0, outboundRings := fun _ => ⟨List.replicate 8 0, 0⟩,
          ioPairs := fun _ => ⟨⟨0, 0⟩, ⟨0, 0⟩⟩, ringUpdateQueue := [] }
        (rsToEverySends 1 true [])).isSome := by
  have hroom : ∀ w < 1, (sentBytes .little
          { conf := ⟨1, 16, 1, 64⟩, wbuf := none, wbufSize := 0, wbufI := 0,
            srcWorkerThreadI := 0, srcPeerI := 0, outboundRings := fun _ => ⟨List.replicate 8 0, 0⟩,
            ioPairs := fun _ => ⟨⟨0, 0⟩, ⟨0, 0⟩⟩, ringUpdateQueue := [] }
          (rsToEverySends 1 true []) w).length < 8 := fun w hw => by
    obtain rfl : w = 0 := by omega
    decide
  obtain ⟨n', h, -⟩ := @sendAll_rings ⟨fun pair ring _ => some (pair, ring),
    fun q io _ _ _ => some (q, io)⟩ ⟨fun pair _ _ _ => ⟨pair, rfl⟩, fun _ _ _ _ _ => rfl⟩ .little
    (rsToEverySends 1 true []) (fun c hc => by
      obtain ⟨i, -, rfl⟩ := List.mem_map.mp hc
      exact ⟨rfl, rfl, fun _ => rfl⟩)
    { conf := ⟨1, 16, 1, 64⟩, wbuf := none, wbufSize := 0, wbufI := 0,
      srcWorkerThreadI := 0, srcPeerI := 0, outboundRings := fun _ => ⟨List.replicate 8 0, 0⟩,
      ioPairs := fun _ => ⟨⟨0, 0⟩, ⟨0, 0⟩⟩, ringUpdateQueue := [] }
    (fun c hc => by
      obtain ⟨i, hi, rfl⟩ := List.mem_map.mp hc
      exact List.mem_range.mp hi) rfl
    (fun w hw => by simpa using hroom w hw)
  exact ⟨hroom, h ▸ rfl⟩

/-! ## Reading a ring -/

/-- A worker's reading of its outbound ring: records one after another until the bytes run
out, at most `fuel` of them.  Modelled from the spec: the worker's reader is outside src/. -/
def readRecordsAux (e : Endian) : Nat → List UInt8 → Option (List OutboundRecord)
  | _, [] => some []
  | 0, _ :: _ => none
  | fuel + 1, b :: bs => do
    let (r, rest) ← OutboundRecord.parse e (b :: bs)
    let rs ← readRecordsAux e fuel rest
    pure (r :: rs)

/-- The records in `bs`; every record takes at least one byte. -/
def readRecords (e : Endian) (bs : List UInt8) : Option (List OutboundRecord) :=
  readRecordsAux e bs.length bs

theorem readRecordsAux_encode (e : Endian) (rs : List OutboundRecord)
    (hwf : ∀ r ∈ rs, r.WellFormed) :
    ∀ fuel, rs.length ≤ fuel → readRecordsAux e fuel (rs.flatMap (·.encode e)) = some rs := by
  induction rs with
  | nil => intro fuel _; cases fuel <;> rfl
  | cons r rs ih =>
    rintro (_ | fuel) hfuel
    · simp at hfuel
    · have hr := parse_encode e (hwf r (List.mem_cons_self r rs)) (rs.flatMap (·.encode e))
      have ih' := ih (fun r' h => hwf r' (List.mem_cons_of_mem r h)) fuel (by simpa using hfuel)
      obtain ⟨b, bs, hb⟩ : ∃ b bs, r.encode e ++ rs.flatMap (·.encode e) = b :: bs :=
        ⟨_, _, rfl⟩
      rw [hb] at hr
      rw [List.flatMap_cons, hb, readRecordsAux, hr]
      simp [ih']

theorem length_le_length_flatMap_encode (e : Endian) (rs : List OutboundRecord) :
    rs.length ≤ (rs.flatMap (·.encode e)).length := by
  induction rs with
  | nil => rfl
  | cons r rs ih =>
    have : 0 < (r.encode e).length := List.length_pos.mpr (List.cons_ne_nil _ _)
    rw [List.flatMap_cons, List.length_append, List.length_cons]
    omega

/-- **The worker's reader gets every sequence of well-formed records back** from their bytes
laid end to end, in order, with nothing left over. -/
theorem readRecords_encode (e : Endian) {rs : List OutboundRecord} (hwf : ∀ r ∈ rs, r.WellFormed) :
    readRecords e (rs.flatMap (·.encode e)) = some rs :=
  readRecordsAux_encode e rs hwf _ (length_le_length_flatMap_encode e rs)

end RingSocket
