import RingSocket.FanOut

/-!
# Routing: who each fan-out addresses

The fan-out helpers of `RingSocket.FanOut` against the spec's routing table.

* `multiSends_eq_spec` — the two `multi` loops make, worker by worker, the calls the spec
  describes (`multiSpec`): the inner loop collects exactly the peers of one worker, in input
  order, and the switch picks the kind by their number.
* `count_addressed_multiSends` — every (worker, peer) pair of the input is addressed as many
  times as it occurs in it, and no other pair is.
* `rsToMulti_routes` — the two `multi` helpers, as the spec states them.
* `routing_variants_agree` — `to_single`, `to_multi` of one id and `to_cur` make the same
  calls, as do their three `every_except` counterparts, and `to_every_except_multi` of no id
  is `to_every`.
* `fanOut_oversize` — an oversize payload: every call fails its size check, so no ring is
  written, and only `wbuf_i` changes.
-/

namespace RingSocket

/-! ## The inner loop -/

/-- The peer halves of the ids on worker `i`, in input order: the spec's reading of the
inner loop. -/
def peersOf (e : Endian) (i : Nat) (clientIds : List UInt64) : List UInt32 :=
  clientIds.filterMap fun clientId =>
    if (clientIdWorker e clientId).toNat = i then some (clientIdPeer e clientId) else none

/-- The (worker, peer) pair a client id names. -/
def clientIdPair (e : Endian) (clientId : UInt64) : Nat × UInt32 :=
  ((clientIdWorker e clientId).toNat, clientIdPeer e clientId)

theorem foldl_curClients (e : Endian) (i : Nat) (clientIds : List UInt64) (acc : List UInt32) :
    clientIds.foldl (fun cur clientId =>
      if (clientIdWorker e clientId).toNat = i then cur ++ [clientIdPeer e clientId] else cur) acc
      = acc ++ peersOf e i clientIds := by
  induction clientIds generalizing acc with
  | nil => simp [peersOf]
  | cons c cs ih =>
    by_cases h : (clientIdWorker e c).toNat = i <;> simp [peersOf, h, ih]

theorem curClients_eq_peersOf (e : Endian) (i : Nat) (clientIds : List UInt64) :
    curClients e i clientIds = peersOf e i clientIds :=
  foldl_curClients e i clientIds []

theorem length_peersOf_le (e : Endian) (i : Nat) (clientIds : List UInt64) :
    (peersOf e i clientIds).length ≤ clientIds.length :=
  List.length_filterMap_le _ _

/-- The peers of worker `i`, paired with `i`, are the input's pairs on worker `i`. -/
theorem map_peersOf (e : Endian) (i : Nat) (clientIds : List UInt64) :
    (peersOf e i clientIds).map (i, ·) =
      (clientIds.map (clientIdPair e)).filter (fun x => x.1 = i) := by
  induction clientIds with
  | nil => rfl
  | cons c cs ih =>
    by_cases h : (clientIdWorker e c).toNat = i <;>
      simp_all [peersOf, clientIdPair, List.filter_cons]

/-! ## Worker by worker -/

/-- What the spec asks of worker `i`: the `zero` kind (if any) when no id is on it, the
`one` kind to its single peer, or the `many` kind to all its peers in input order. -/
def multiSpec (zero : Option RsOutboundKind) (one many : RsOutboundKind) (e : Endian)
    (isUtf8 : Bool) (clientIds : List UInt64) (p : List UInt8) (i : Nat) : List SendCall :=
  match peersOf e i clientIds with
  | [] => zero.toList.map fun k => ⟨i, k, [], 0, isUtf8, p⟩
  | [q] => [⟨i, one, [q], 1, isUtf8, p⟩]
  | qs => [⟨i, many, qs, UInt32.ofNat qs.length, isUtf8, p⟩]

theorem multiSends_eq_spec (zero : Option RsOutboundKind) (one many : RsOutboundKind)
    (e : Endian) (workerC : Nat) (isUtf8 : Bool) (clientIds : List UInt64) (p : List UInt8) :
    multiSends zero one many e workerC isUtf8 clientIds p =
      (List.range workerC).flatMap (multiSpec zero one many e isUtf8 clientIds p) := by
  unfold multiSends multiSpec
  congr 1
  funext i
  rw [curClients_eq_peersOf]
  rcases peersOf e i clientIds with _ | ⟨q, _ | ⟨q', qs⟩⟩ <;> rfl

/-- The (worker, peer) pairs a list of calls addresses. -/
def addressed (sends : List SendCall) : List (Nat × UInt32) :=
  sends.flatMap fun c => c.recipients.map (c.workerI, ·)

theorem addressed_multiSpec (zero : Option RsOutboundKind) (one many : RsOutboundKind)
    (e : Endian) (isUtf8 : Bool) (clientIds : List UInt64) (p : List UInt8) (i : Nat) :
    addressed (multiSpec zero one many e isUtf8 clientIds p i) =
      (peersOf e i clientIds).map (i, ·) := by
  unfold multiSpec
  rcases peersOf e i clientIds with _ | ⟨q, _ | ⟨q', qs⟩⟩ <;>
    cases zero <;> simp [addressed]

/-- Splitting a list by the first component over the workers below `w` keeps the elements
whose first component is below `w`. -/
theorem count_flatMap_range_filter {β : Type} [DecidableEq β] (L : List (Nat × β))
    (x : Nat × β) (w : Nat) :
    ((List.range w).flatMap fun i => L.filter fun y => y.1 = i).count x =
      if x.1 < w then L.count x else 0 := by
  induction w with
  | zero => simp
  | succ w ih =>
    rw [List.range_succ, List.flatMap_append, List.count_append, ih]
    by_cases hx : x.1 = w
    · have : L.count x = (L.filter fun y => y.1 = w).count x :=
        (List.count_filter (by simpa using hx)).symm
      simp [hx, ← this]
    · have : (L.filter fun y => y.1 = w).count x = 0 :=
        List.count_eq_zero.mpr fun hm => hx (by simpa using (List.mem_filter.mp hm).2)
      simp [this, hx]
      split_ifs <;> omega

/-- **Every pair of the input is addressed as many times as it occurs, and no other pair
is** — when every id's worker half is a worker. -/
theorem count_addressed_multiSends (zero : Option RsOutboundKind) (one many : RsOutboundKind)
    (e : Endian) (workerC : Nat) (isUtf8 : Bool) {clientIds : List UInt64} (p : List UInt8)
    (hW : ∀ c ∈ clientIds, (clientIdWorker e c).toNat < workerC) (x : Nat × UInt32) :
    (addressed (multiSends zero one many e workerC isUtf8 clientIds p)).count x =
      (clientIds.map (clientIdPair e)).count x := by
  have hflat : addressed (multiSends zero one many e workerC isUtf8 clientIds p) =
      (List.range workerC).flatMap fun i =>
        (clientIds.map (clientIdPair e)).filter fun y => y.1 = i := by
    rw [multiSends_eq_spec, addressed, List.flatMap_assoc]
    congr 1
    funext i
    rw [← map_peersOf, ← addressed_multiSpec zero one many e isUtf8 clientIds p, addressed]
  rw [hflat, count_flatMap_range_filter]
  split_ifs with hx
  · rfl
  · refine (List.count_eq_zero.mpr fun hm => hx ?_).symm
    obtain ⟨c, hc, rfl⟩ := List.mem_map.mp hm
    exact hW c hc

/-- The calls of a fan-out all carry its user payload and frame type. -/
def CarriesPayload (sends : List SendCall) (isUtf8 : Bool) (p : List UInt8) : Prop :=
  ∀ c ∈ sends, c.p = p ∧ c.isUtf8 = isUtf8

theorem carriesPayload_multiSends (zero : Option RsOutboundKind) (one many : RsOutboundKind)
    (e : Endian) (workerC : Nat) (isUtf8 : Bool) (clientIds : List UInt64) (p : List UInt8) :
    CarriesPayload (multiSends zero one many e workerC isUtf8 clientIds p) isUtf8 p := by
  intro c hc
  rw [multiSends_eq_spec, List.mem_flatMap] at hc
  obtain ⟨i, -, hc⟩ := hc
  unfold multiSpec at hc
  split at hc <;> cases zero <;> simp_all

theorem carriesPayload_everyExceptSends (workerC w : Nat) (q : UInt32) (isUtf8 : Bool)
    (p : List UInt8) : CarriesPayload (everyExceptSends workerC w q isUtf8 p) isUtf8 p := by
  intro c hc
  obtain ⟨i, -, rfl⟩ := List.mem_map.mp hc
  split <;> simp

theorem carriesPayload_rsToEverySends (workerC : Nat) (isUtf8 : Bool) (p : List UInt8) :
    CarriesPayload (rsToEverySends workerC isUtf8 p) isUtf8 p := by
  intro c hc
  obtain ⟨i, -, rfl⟩ := List.mem_map.mp hc
  simp

theorem carriesPayload_singleSends (w : Nat) (q : UInt32) (isUtf8 : Bool) (p : List UInt8) :
    CarriesPayload (singleSends w q isUtf8 p) isUtf8 p := by
  simp [CarriesPayload, singleSends]

/-- A `multi` call counts its recipients exactly when there are fewer than `2 ^ 32` ids. -/
theorem recipientC_of_mem_multiSends {zero : Option RsOutboundKind} {one many : RsOutboundKind}
    {e : Endian} {workerC : Nat} {isUtf8 : Bool} {clientIds : List UInt64} {p : List UInt8}
    {c : SendCall} (hlen : clientIds.length < 2 ^ 32)
    (hc : c ∈ multiSends zero one many e workerC isUtf8 clientIds p) :
    c.recipientC.toNat = c.recipients.length := by
  rw [multiSends_eq_spec, List.mem_flatMap] at hc
  obtain ⟨i, -, hc⟩ := hc
  have hle := length_peersOf_le e i clientIds
  unfold multiSpec at hc
  rcases hq : peersOf e i clientIds with _ | ⟨q, _ | ⟨q', qs⟩⟩ <;> rw [hq] at hc hle
  · cases zero <;> simp_all
  · simp_all
  · simp only [List.mem_singleton] at hc
    subst hc
    have hsize : (q :: q' :: qs).length < UInt32.size := by
      simp only [List.length_cons] at hle ⊢
      change _ < 2 ^ 32
      omega
    exact UInt32.toNat_ofNat_of_lt hsize

/-- What a fan-out guarantees about every one of its calls: run from the state the earlier
calls left, it writes the fan-out's scratch bytes followed by `p`, as text or binary as
asked. -/
def SamePayload (api : RingApi) (e : Endian) (n : Rs) (isUtf8 : Bool) (p : List UInt8)
    (sends : List SendCall) : Prop :=
  ∀ pre c suf m, sends = pre ++ c :: suf → sendAll api e n pre = some m →
    m.scratch ++ c.p = n.scratch ++ p ∧ c.isUtf8 = isUtf8

theorem samePayload_of_carries {api : RingApi} {e : Endian} {n : Rs} {isUtf8 : Bool}
    {p : List UInt8} {sends : List SendCall}
    (h : CarriesPayload sends isUtf8 p) : SamePayload api e n isUtf8 p sends := by
  intro pre c suf m hsplit hrun
  have hc := h c (by simp [hsplit])
  rw [(sendAll_frame hrun).scratch, hc.1]
  exact ⟨rfl, hc.2⟩

/-- **`rs_to_multi` and `rs_to_every_except_multi` route as the spec says.**  For ids whose
worker halves are workers, fewer than `2 ^ 32` of them: each helper runs, worker by worker in
ascending order, the calls of `multiSpec` (no call, `SINGLE` or `ARRAY` for `rs_to_multi`;
`EVERY`, `EVERY_EXCEPT_SINGLE` or `EVERY_EXCEPT_ARRAY` for the other), each call's `recipient_c`
counts its recipients, every input pair is addressed as often as it occurs and no other
pair is, every call writes the same payload, and `wbuf_i` is `0` on return. -/
theorem rsToMulti_routes (api : RingApi) (e : Endian) (n : Rs) (isUtf8 : Bool)
    (clientIds : List UInt64) (p : List UInt8)
    (hW : ∀ c ∈ clientIds, (clientIdWorker e c).toNat < n.conf.workerC)
    (hlen : clientIds.length < 2 ^ 32) :
    (rsToMulti api e n isUtf8 clientIds p = fanOut api e n
        ((List.range n.conf.workerC).flatMap (multiSpec none .single .array e isUtf8 clientIds p)) ∧
     rsToEveryExceptMulti api e n isUtf8 clientIds p = fanOut api e n
        ((List.range n.conf.workerC).flatMap
          (multiSpec (some .every) .everyExceptSingle .everyExceptArray e isUtf8 clientIds p))) ∧
    (multiSends none .single .array e n.conf.workerC isUtf8 clientIds p =
      (List.range n.conf.workerC).flatMap (multiSpec none .single .array e isUtf8 clientIds p) ∧
     multiSends (some .every) .everyExceptSingle .everyExceptArray e n.conf.workerC isUtf8
        clientIds p =
      (List.range n.conf.workerC).flatMap
        (multiSpec (some .every) .everyExceptSingle .everyExceptArray e isUtf8 clientIds p)) ∧
    (∀ c ∈ multiSends none .single .array e n.conf.workerC isUtf8 clientIds p ++
        multiSends (some .every) .everyExceptSingle .everyExceptArray e n.conf.workerC isUtf8
          clientIds p,
      c.recipientC.toNat = c.recipients.length) ∧
    (∀ x, (addressed (multiSends none .single .array e n.conf.workerC isUtf8 clientIds p)).count x
        = (clientIds.map (clientIdPair e)).count x) ∧
    (∀ x, (addressed (multiSends (some .every) .everyExceptSingle .everyExceptArray e
        n.conf.workerC isUtf8 clientIds p)).count x = (clientIds.map (clientIdPair e)).count x) ∧
    SamePayload api e n isUtf8 p
      (multiSends none .single .array e n.conf.workerC isUtf8 clientIds p) ∧
    SamePayload api e n isUtf8 p (multiSends (some .every) .everyExceptSingle .everyExceptArray e
      n.conf.workerC isUtf8 clientIds p) ∧
    (∀ n', rsToMulti api e n isUtf8 clientIds p = some n' → n'.wbufI = 0) ∧
    (∀ n', rsToEveryExceptMulti api e n isUtf8 clientIds p = some n' → n'.wbufI = 0) := by
  refine ⟨⟨by rw [rsToMulti, multiSends_eq_spec], by rw [rsToEveryExceptMulti, multiSends_eq_spec]⟩,
    ⟨multiSends_eq_spec .., multiSends_eq_spec ..⟩, ?_,
    count_addressed_multiSends _ _ _ e _ isUtf8 p hW,
    count_addressed_multiSends _ _ _ e _ isUtf8 p hW,
    samePayload_of_carries (carriesPayload_multiSends _ _ _ _ _ _ _ _),
    samePayload_of_carries (carriesPayload_multiSends _ _ _ _ _ _ _ _),
    fun _ h => fanOut_wbufI h, fun _ h => fanOut_wbufI h⟩
  intro c hc
  rcases List.mem_append.mp hc with hc | hc <;> exact recipientC_of_mem_multiSends hlen hc

/-- Spec scenario 3 on a little-endian host with two workers: `cid_a = pack(0, 7)` and
`cid_b = pack(1, 3)`; `rs_to_multi` makes one `SINGLE` call per worker. -/
theorem rsToMulti_routes_scenario :
    (∀ c ∈ [(30064771072 : UInt64), 12884901889], (clientIdWorker .little c).toNat < 2) ∧
    [(30064771072 : UInt64), 12884901889].length < 2 ^ 32 ∧
    multiSends none .single .array .little 2 false [30064771072, 12884901889] [0x41, 0x42] =
      [⟨0, .single, [7], 1, false, [0x41, 0x42]⟩, ⟨1, .single, [3], 1, false, [0x41, 0x42]⟩] := by
  have hW : ∀ c ∈ [(30064771072 : UInt64), 12884901889], (clientIdWorker .little c).toNat < 2 := by
    decide
  refine ⟨hW, by decide, (rsToMulti_routes
    ⟨fun pair ring _ => some (pair, ring), fun q io _ _ _ => some (q, io)⟩ .little
    { conf := ⟨2, 16, 1, 64⟩, wbuf := none, wbufSize := 0, wbufI := 0, srcWorkerThreadI := 0,
      srcPeerI := 7, outboundRings := fun _ => ⟨[], 0⟩, ioPairs := fun _ => ⟨⟨0, 0⟩, ⟨0, 0⟩⟩,
      ringUpdateQueue := [] }
    false _ _ hW (by decide)).2.1.1.trans (by decide)⟩

/-! ## The variants agree -/

theorem peersOf_singleton (e : Endian) (i : Nat) (c : UInt64) :
    peersOf e i [c] = if (clientIdWorker e c).toNat = i then [clientIdPeer e c] else [] := by
  by_cases h : (clientIdWorker e c).toNat = i <;> simp [peersOf, h]

/-- Of a loop over the workers, only worker `w`'s calls remain when every other worker
makes none. -/
theorem flatMap_range_only {α : Type} (f : Nat → List α) {w workerC : Nat} (hw : w < workerC) :
    (List.range workerC).flatMap (fun i => if i = w then f i else []) = f w := by
  induction workerC with
  | zero => omega
  | succ k ih =>
    rw [List.range_succ, List.flatMap_append]
    by_cases hk : w = k
    · subst hk
      have : (List.range w).flatMap (fun i => if i = w then f i else []) = [] :=
        List.flatMap_eq_nil_iff.mpr fun i hi => if_neg (List.mem_range.mp hi).ne
      simp [this]
    · simp [ih (by omega), Ne.symm hk]

theorem multiSends_single (e : Endian) {workerC : Nat} (isUtf8 : Bool) {c : UInt64}
    (p : List UInt8) (hw : (clientIdWorker e c).toNat < workerC) :
    multiSends none .single .array e workerC isUtf8 [c] p =
      singleSends (clientIdWorker e c).toNat (clientIdPeer e c) isUtf8 p := by
  rw [multiSends_eq_spec]
  refine Eq.trans ?_ (flatMap_range_only (fun i => singleSends i (clientIdPeer e c) isUtf8 p) hw)
  congr 1
  funext i
  by_cases h : i = (clientIdWorker e c).toNat
  · subst h; simp [multiSpec, peersOf_singleton, singleSends]
  · have h' : ¬ (clientIdWorker e c).toNat = i := fun h' => h h'.symm
    simp [multiSpec, peersOf_singleton, h, h']

theorem multiSends_everyExceptSingle (e : Endian) (workerC : Nat) (isUtf8 : Bool) (c : UInt64)
    (p : List UInt8) :
    multiSends (some .every) .everyExceptSingle .everyExceptArray e workerC isUtf8 [c] p =
      everyExceptSends workerC (clientIdWorker e c).toNat (clientIdPeer e c) isUtf8 p := by
  rw [multiSends_eq_spec, everyExceptSends, List.map_eq_flatMap]
  congr 1
  funext i
  by_cases h : i = (clientIdWorker e c).toNat
  · subst h; simp [multiSpec, peersOf_singleton]
  · have h' : ¬ (clientIdWorker e c).toNat = i := fun h' => h h'.symm
    simp [multiSpec, peersOf_singleton, h, h']

theorem multiSends_every (e : Endian) (workerC : Nat) (isUtf8 : Bool) (p : List UInt8) :
    multiSends (some .every) .everyExceptSingle .everyExceptArray e workerC isUtf8 [] p =
      rsToEverySends workerC isUtf8 p := by
  rw [multiSends_eq_spec, rsToEverySends, List.map_eq_flatMap]
  rfl

/-- **The routing variants agree.**  For an app state whose source is worker `w < worker_c`
and any peer, with `c` the id `rs_get_client_id` packs: unpacking `c` gives back the pair;
`rs_to_single(c)`, `rs_to_multi([c])` and `rs_to_cur` make the same one `SINGLE` call and
leave the same state; `rs_to_every_except_single(c)`, `rs_to_every_except_multi([c])` and
`rs_to_every_except_cur` make the same calls and leave the same state; and
`rs_to_every_except_multi([])` is `rs_to_every`.  On either host. -/
theorem routing_variants_agree (api : RingApi) (e : Endian) (n : Rs) (isUtf8 : Bool)
    (p : List UInt8) (hw : n.srcWorkerThreadI < n.conf.workerC)
    (hw32 : n.srcWorkerThreadI < 2 ^ 32) :
    ((clientIdWorker e (rsGetClientId e n)).toNat = n.srcWorkerThreadI ∧
      clientIdPeer e (rsGetClientId e n) = n.srcPeerI) ∧
    (singleSends (clientIdWorker e (rsGetClientId e n)).toNat
        (clientIdPeer e (rsGetClientId e n)) isUtf8 p =
        singleSends n.srcWorkerThreadI n.srcPeerI isUtf8 p ∧
      multiSends none .single .array e n.conf.workerC isUtf8 [rsGetClientId e n] p =
        singleSends n.srcWorkerThreadI n.srcPeerI isUtf8 p) ∧
    (rsToSingle api e n isUtf8 (rsGetClientId e n) p = rsToCur api e n isUtf8 p ∧
      rsToMulti api e n isUtf8 [rsGetClientId e n] p = rsToCur api e n isUtf8 p) ∧
    (everyExceptSends n.conf.workerC (clientIdWorker e (rsGetClientId e n)).toNat
        (clientIdPeer e (rsGetClientId e n)) isUtf8 p =
        everyExceptSends n.conf.workerC n.srcWorkerThreadI n.srcPeerI isUtf8 p ∧
      multiSends (some .every) .everyExceptSingle .everyExceptArray e n.conf.workerC isUtf8
          [rsGetClientId e n] p =
        everyExceptSends n.conf.workerC n.srcWorkerThreadI n.srcPeerI isUtf8 p) ∧
    (rsToEveryExceptSingle api e n isUtf8 (rsGetClientId e n) p =
        rsToEveryExceptCur api e n isUtf8 p ∧
      rsToEveryExceptMulti api e n isUtf8 [rsGetClientId e n] p =
        rsToEveryExceptCur api e n isUtf8 p) ∧
    (multiSends (some .every) .everyExceptSingle .everyExceptArray e n.conf.workerC isUtf8 [] p =
        rsToEverySends n.conf.workerC isUtf8 p ∧
      rsToEveryExceptMulti api e n isUtf8 [] p = rsToEvery api e n isUtf8 p) := by
  have hwk : (clientIdWorker e (rsGetClientId e n)).toNat = n.srcWorkerThreadI := by
    rw [clientIdWorker_rsGetClientId]
    exact UInt32.toNat_ofNat_of_lt hw32
  have hpk := clientIdPeer_rsGetClientId e n
  have hsingle := multiSends_single e isUtf8 p (hwk ▸ hw)
  have hexcept := multiSends_everyExceptSingle e n.conf.workerC isUtf8 (rsGetClientId e n) p
  rw [hwk, hpk] at hsingle hexcept
  refine ⟨⟨hwk, hpk⟩, ⟨by rw [hwk, hpk], hsingle⟩, ⟨?_, ?_⟩, ⟨by rw [hwk, hpk], hexcept⟩,
    ⟨?_, ?_⟩, multiSends_every .., ?_⟩
  · simp only [rsToSingle, rsToCur, hwk, hpk]
  · simp only [rsToMulti, rsToCur, hsingle]
  · simp only [rsToEveryExceptSingle, rsToEveryExceptCur, hwk, hpk]
  · simp only [rsToEveryExceptMulti, rsToEveryExceptCur, hexcept]
  · simp only [rsToEveryExceptMulti, rsToEvery, multiSends_every]

/-- Worker 1 of two, peer 7, little-endian host: `rs_to_every_except_multi` on the id
`rs_get_client_id` packs makes the calls of `rs_to_every_except_cur` — `EVERY` to worker 0,
and `EVERY_EXCEPT_SINGLE` leaving out peer 7 to worker 1. -/
theorem routing_variants_agree_worker_one :
    (1 : Nat) < 2 ∧ (1 : Nat) < 2 ^ 32 ∧
    multiSends (some .every) .everyExceptSingle .everyExceptArray .little 2 false
        [rsGetClientId .little
          { conf := ⟨2, 16, 1, 64⟩, wbuf := none, wbufSize := 0, wbufI := 0, srcWorkerThreadI := 1,
            srcPeerI := 7, outboundRings := fun _ => ⟨[], 0⟩, ioPairs := fun _ => ⟨⟨0, 0⟩, ⟨0, 0⟩⟩,
            ringUpdateQueue := [] }] [0x41] =
      [⟨0, .every, [], 0, false, [0x41]⟩, ⟨1, .everyExceptSingle, [7], 1, false, [0x41]⟩] :=
  ⟨by decide, by decide, (routing_variants_agree
    ⟨fun pair ring _ => some (pair, ring), fun q io _ _ _ => some (q, io)⟩ .little
    { conf := ⟨2, 16, 1, 64⟩, wbuf := none, wbufSize := 0, wbufI := 0, srcWorkerThreadI := 1,
      srcPeerI := 7, outboundRings := fun _ => ⟨[], 0⟩, ioPairs := fun _ => ⟨⟨0, 0⟩, ⟨0, 0⟩⟩,
      ringUpdateQueue := [] }
    false [0x41] (by decide) (by decide)).2.2.2.1.2.trans (by decide)⟩

/-! ## Oversize payloads -/

section
variable {api : RingApi} {e : Endian} {n : Rs} {isUtf8 : Bool} {p : List UInt8}

theorem fanOut_of_oversize {sends : List SendCall} (hc : CarriesPayload sends isUtf8 p)
    (h : n.conf.maxWsMsgSize < n.wbufI + p.length) : fanOut api e n sends = some n.resetWbufI := by
  rw [fanOut, sendAll_oversize fun c hm => (hc c hm).1 ▸ h]
  rfl

/-- What each call of a fan-out meets: within the limit, the size check passes. -/
def PassesSizeCheck (api : RingApi) (e : Endian) (n : Rs) (sends : List SendCall) : Prop :=
  ∀ pre c suf m, sends = pre ++ c :: suf → sendAll api e n pre = some m →
    m.wbufI + c.p.length ≤ m.conf.maxWsMsgSize

theorem passesSizeCheck_of_carries {sends : List SendCall} (hc : CarriesPayload sends isUtf8 p)
    (h : n.wbufI + p.length ≤ n.conf.maxWsMsgSize) : PassesSizeCheck api e n sends := by
  intro pre c suf m hsplit hrun
  have hf := sendAll_frame hrun
  rw [hf.wbufI, hf.conf, (hc c (by simp [hsplit])).1]
  exact h

end

/-- **An oversize send writes nothing.**  When the scratch bytes and the user payload
together exceed `max_ws_msg_size`, each of the seven helpers leaves every ring, every
`io_pair` and the update queue as they were, and the scratch buffer too: every `rs_send`
it makes returns at its size check.  Only `wbuf_i` changes, to `0`. -/
theorem fanOut_oversize (api : RingApi) (e : Endian) (n : Rs) (isUtf8 : Bool)
    (clientId : UInt64) (clientIds : List UInt64) (p : List UInt8)
    (h : n.conf.maxWsMsgSize < n.wbufI + p.length) :
    rsToSingle api e n isUtf8 clientId p = some n.resetWbufI ∧
    rsToMulti api e n isUtf8 clientIds p = some n.resetWbufI ∧
    rsToCur api e n isUtf8 p = some n.resetWbufI ∧
    rsToEvery api e n isUtf8 p = some n.resetWbufI ∧
    rsToEveryExceptSingle api e n isUtf8 clientId p = some n.resetWbufI ∧
    rsToEveryExceptMulti api e n isUtf8 clientIds p = some n.resetWbufI ∧
    rsToEveryExceptCur api e n isUtf8 p = some n.resetWbufI :=
  ⟨fanOut_of_oversize (carriesPayload_singleSends _ _ _ _) h,
    fanOut_of_oversize (carriesPayload_multiSends _ _ _ _ _ _ _ _) h,
    fanOut_of_oversize (carriesPayload_singleSends _ _ _ _) h,
    fanOut_of_oversize (carriesPayload_rsToEverySends _ _ _) h,
    fanOut_of_oversize (carriesPayload_everyExceptSends _ _ _ _ _) h,
    fanOut_of_oversize (carriesPayload_multiSends _ _ _ _ _ _ _ _) h,
    fanOut_of_oversize (carriesPayload_everyExceptSends _ _ _ _ _) h⟩

theorem fanOut_oversize_scenario :
    16 < 10 + (List.replicate 7 (0 : UInt8)).length ∧
      rsToEvery ⟨fun pair ring _ => some (pair, ring), fun q io _ _ _ => some (q, io)⟩ .little
        { conf := ⟨2, 16, 1, 64⟩, wbuf := none, wbufSize := 0, wbufI := 10, srcWorkerThreadI := 0,
          srcPeerI := 7, outboundRings := fun _ => ⟨[], 0⟩, ioPairs := fun _ => ⟨⟨0, 0⟩, ⟨0, 0⟩⟩,
          ringUpdateQueue := [] } false (List.replicate 7 0) =
        some (Rs.resetWbufI
        { conf := ⟨2, 16, 1, 64⟩, wbuf := none, wbufSize := 0, wbufI := 10, srcWorkerThreadI := 0,
          srcPeerI := 7, outboundRings := fun _ => ⟨[], 0⟩, ioPairs := fun _ => ⟨⟨0, 0⟩, ⟨0, 0⟩⟩,
          ringUpdateQueue := [] }) :=
  ⟨by decide, (fanOut_oversize
    ⟨fun pair ring _ => some (pair, ring), fun q io _ _ _ => some (q, io)⟩ .little
        { conf := ⟨2, 16, 1, 64⟩, wbuf := none, wbufSize := 0, wbufI := 10, srcWorkerThreadI := 0,
          srcPeerI := 7, outboundRings := fun _ => ⟨[], 0⟩, ioPairs := fun _ => ⟨⟨0, 0⟩, ⟨0, 0⟩⟩,
          ringUpdateQueue := [] } false 0 [] (List.replicate 7 0) (by decide)).2.2.2.1⟩

/-- **Within the limit, every call of every helper passes the size check**: each helper runs
its list of calls, and no call changes `wbuf_i` or the configuration, so the check is decided
once for the whole fan-out. -/
theorem fanOut_within_limit (api : RingApi) (e : Endian) (n : Rs) (isUtf8 : Bool)
    (clientId : UInt64) (clientIds : List UInt64) (p : List UInt8)
    (h : n.wbufI + p.length ≤ n.conf.maxWsMsgSize) :
    (rsToSingle api e n isUtf8 clientId p = fanOut api e n
        (singleSends (clientIdWorker e clientId).toNat (clientIdPeer e clientId) isUtf8 p) ∧
      PassesSizeCheck api e n
        (singleSends (clientIdWorker e clientId).toNat (clientIdPeer e clientId) isUtf8 p)) ∧
    (rsToMulti api e n isUtf8 clientIds p = fanOut api e n
        (multiSends none .single .array e n.conf.workerC isUtf8 clientIds p) ∧
      PassesSizeCheck api e n
        (multiSends none .single .array e n.conf.workerC isUtf8 clientIds p)) ∧
    (rsToCur api e n isUtf8 p = fanOut api e n (singleSends n.srcWorkerThreadI n.srcPeerI isUtf8 p) ∧
      PassesSizeCheck api e n (singleSends n.srcWorkerThreadI n.srcPeerI isUtf8 p)) ∧
    (rsToEvery api e n isUtf8 p = fanOut api e n (rsToEverySends n.conf.workerC isUtf8 p) ∧
      PassesSizeCheck api e n (rsToEverySends n.conf.workerC isUtf8 p)) ∧
    (rsToEveryExceptSingle api e n isUtf8 clientId p = fanOut api e n
        (everyExceptSends n.conf.workerC (clientIdWorker e clientId).toNat
          (clientIdPeer e clientId) isUtf8 p) ∧
      PassesSizeCheck api e n (everyExceptSends n.conf.workerC (clientIdWorker e clientId).toNat
        (clientIdPeer e clientId) isUtf8 p)) ∧
    (rsToEveryExceptMulti api e n isUtf8 clientIds p = fanOut api e n
        (multiSends (some .every) .everyExceptSingle .everyExceptArray e n.conf.workerC isUtf8
          clientIds p) ∧
      PassesSizeCheck api e n (multiSends (some .every) .everyExceptSingle .everyExceptArray e
        n.conf.workerC isUtf8 clientIds p)) ∧
    (rsToEveryExceptCur api e n isUtf8 p = fanOut api e n
        (everyExceptSends n.conf.workerC n.srcWorkerThreadI n.srcPeerI isUtf8 p) ∧
      PassesSizeCheck api e n
        (everyExceptSends n.conf.workerC n.srcWorkerThreadI n.srcPeerI isUtf8 p)) :=
  ⟨⟨rfl, passesSizeCheck_of_carries (carriesPayload_singleSends _ _ _ _) h⟩,
    ⟨rfl, passesSizeCheck_of_carries (carriesPayload_multiSends _ _ _ _ _ _ _ _) h⟩,
    ⟨rfl, passesSizeCheck_of_carries (carriesPayload_singleSends _ _ _ _) h⟩,
    ⟨rfl, passesSizeCheck_of_carries (carriesPayload_rsToEverySends _ _ _) h⟩,
    ⟨rfl, passesSizeCheck_of_carries (carriesPayload_everyExceptSends _ _ _ _ _) h⟩,
    ⟨rfl, passesSizeCheck_of_carries (carriesPayload_multiSends _ _ _ _ _ _ _ _) h⟩,
    ⟨rfl, passesSizeCheck_of_carries (carriesPayload_everyExceptSends _ _ _ _ _) h⟩⟩

theorem fanOut_within_limit_scenario :
    0 + [(0x41 : UInt8)].length ≤ 16 ∧
      PassesSizeCheck ⟨fun pair ring _ => some (pair, ring), fun q io _ _ _ => some (q, io)⟩ .little
        { conf := ⟨2, 16, 1, 64⟩, wbuf := none, wbufSize := 0, wbufI := 0, srcWorkerThreadI := 0,
          srcPeerI := 7, outboundRings := fun _ => ⟨[], 0⟩, ioPairs := fun _ => ⟨⟨0, 0⟩, ⟨0, 0⟩⟩,
          ringUpdateQueue := [] } (rsToEverySends 2 false [0x41]) :=
  ⟨by decide, (fanOut_within_limit
    ⟨fun pair ring _ => some (pair, ring), fun q io _ _ _ => some (q, io)⟩ .little
        { conf := ⟨2, 16, 1, 64⟩, wbuf := none, wbufSize := 0, wbufI := 0, srcWorkerThreadI := 0,
          srcPeerI := 7, outboundRings := fun _ => ⟨[], 0⟩, ioPairs := fun _ => ⟨⟨0, 0⟩, ⟨0, 0⟩⟩,
          ringUpdateQueue := [] } false 0 [] [0x41] (by decide)).2.2.2.1.2⟩

/-- **An oversize send still resets `wbuf_i`.**  Spec scenario 4 through `rs_to_cur`:
`max_ws_msg_size = 16`, 10 scratch bytes, 7 user bytes.  `rs_send` takes its
`return RS_FATAL`, but it is `void`, so `rs_to_cur` goes on to `n->wbuf_i = 0`: the
scratch bytes are dropped and the app thread runs on. -/
theorem rsToCur_oversize_resets_wbufI (api : RingApi) (e : Endian) (n : Rs) (isUtf8 : Bool) :
    rsToCur api e { n with conf := { n.conf with maxWsMsgSize := 16 }, wbufI := 10 } isUtf8
        (List.replicate 7 0) =
      some { n with conf := { n.conf with maxWsMsgSize := 16 }, wbufI := 0 } := by
  simp [rsToCur, fanOut, singleSends, sendAll, rsSend, Rs.resetWbufI]

end RingSocket
