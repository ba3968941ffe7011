import RingSocket.FanOut

/-!
# Scratch appends

Before a send, an app writes the start of its message into the scratch buffer `*n->wbuf`
with the `rs_w_*` helpers.  Each calls `rs_check_app_wsize` — which allocates the buffer on
first use with `calloc`, and otherwise grows it with `realloc` to `realloc_multiplier` times
the size it needs — then stores its bytes at `wbuf_i` and advances `wbuf_i`.

## Main Definitions

* `Alloc` — `calloc` and `realloc` as the C standard specifies them; either may fail.
* `rsCheckAppWsize`, `Rs.putBytes` — the growth check and the store.
* `rsWBytes` — the body every helper shares; `rsWP`, `rsWUint8`, …, `rsWInt64Hton` are it
  applied to each helper's own size and bytes.
* `WOp`, `runWOps` — an app's sequence of appends.
* `WOp.bytes` — the bytes the code stores for an append; `WOp.specBytes` — the bytes the
  spec says it stores.
* `Rs.WbufOk` — the scratch buffer's invariant.

## Design Notes

`rs_w_uint64` declares its parameter `uint32_t`, so every 64-bit value an app passes —
to it, to `rs_w_uint64_hton`, or to the `int64_t` helpers — is cut to its low 32 bits before
it is stored as eight bytes.  `WOp.bytes` follows the code and keeps the cut; on every other
helper it agrees with `WOp.specBytes` (`bytes_eq_specBytes`).

A failed allocation makes `rs_check_app_wsize` return `RS_FATAL`, which `RS_GUARD_APP`
turns into the process's exit: that is `none`.  The run lemma `runWOps_appends` holds for
every allocator, and says separately that with one that never fails every run returns.
-/

namespace RingSocket

/-! ## The allocator -/

/-- **The C allocator** as `rs_check_app_wsize` uses it: `calloc(c, 1)` gives `c` zero
bytes, and `realloc(p, c)` gives `c` bytes that start with the old ones as far as both
reach; either may fail.  What `realloc` adds past the old end is left open. -/
structure Alloc where
  calloc : Nat → Option (List UInt8)
  realloc : List UInt8 → Nat → Option (List UInt8)
  calloc_eq : ∀ c bs, calloc c = some bs → bs = List.replicate c 0
  realloc_length : ∀ bs c bs', realloc bs c = some bs' → bs'.length = c
  realloc_take : ∀ bs c bs', realloc bs c = some bs' → bs'.take bs.length = bs.take c

/-- An allocator whose every call succeeds. -/
def Alloc.NeverFails (alloc : Alloc) : Prop :=
  (∀ c, (alloc.calloc c).isSome) ∧ ∀ bs c, (alloc.realloc bs c).isSome

/-- An allocator that never fails and zero-fills what `realloc` adds. -/
def Alloc.zeroing : Alloc where
  calloc c := some (List.replicate c 0)
  realloc bs c := some (bs.take c ++ List.replicate (c - bs.length) 0)
  calloc_eq := by rintro c bs ⟨⟩; rfl
  realloc_length := by rintro bs c bs' ⟨⟩; simp only [List.length_append, List.length_take,
    List.length_replicate]; omega
  realloc_take := by
    rintro bs c bs' ⟨⟩
    rcases le_total c bs.length with h | h
    · rw [List.take_of_length_le (by simp; omega)]; simp [Nat.sub_eq_zero_of_le h]
    · simp [List.take_of_length_le h]

theorem Alloc.zeroing_neverFails : Alloc.zeroing.NeverFails :=
  ⟨fun _ => rfl, fun _ _ => rfl⟩

/-! ## The growth check and the store -/

/-- The first `if` of `rs_check_app_wsize`: `RS_CALLOC(*n->wbuf, *n->wbuf_size)` when the
app has no scratch buffer yet. -/
def callocWbuf (alloc : Alloc) (n : Rs) : Option Rs :=
  match n.wbuf with
  | none => (alloc.calloc n.wbufSize).map fun bs => { n with wbuf := some bs }
  | some _ => some n

/-- The second `if` of `rs_check_app_wsize`: when `wbuf_i + incr_size` reaches `wbuf_size`,
`wbuf_size` becomes `realloc_multiplier * (wbuf_i + incr_size)` — taken exactly and
truncated, as its assignment to a `size_t` does — and `RS_REALLOC` resizes the buffer. -/
def reallocWbuf (alloc : Alloc) (n : Rs) (incrSize : Nat) : Option Rs :=
  if n.wbufI + incrSize ≥ n.wbufSize then
    let wbufSize := ⌊n.conf.reallocMultiplier * ((n.wbufI + incrSize : Nat) : ℚ)⌋₊
    match n.wbuf with
    | none => none
    | some bs => (alloc.realloc bs wbufSize).map fun bs' =>
      { n with wbuf := some bs', wbufSize := wbufSize }
  else some n

/-- `rs_check_app_wsize(n, incr_size)`; `none` is an `RS_FATAL` return. -/
def rsCheckAppWsize (alloc : Alloc) (n : Rs) (incrSize : Nat) : Option Rs :=
  (callocWbuf alloc n).bind (reallocWbuf alloc · incrSize)

/-- The store of `bytes` at `(*n->wbuf)[wbuf_i]`, then `n->wbuf_i += size`. -/
def Rs.putBytes (n : Rs) (bytes : List UInt8) (size : Nat) : Rs :=
  { n with
    wbuf := n.wbuf.map fun bs => bs.take n.wbufI ++ bytes ++ bs.drop (n.wbufI + bytes.length)
    wbufI := n.wbufI + size }

/-- The body every scratch append shares: `RS_GUARD_APP(rs_check_app_wsize(n, size))`, the
store of `bytes`, and `n->wbuf_i += size`. -/
def rsWBytes (alloc : Alloc) (n : Rs) (size : Nat) (bytes : List UInt8) : Option Rs :=
  (rsCheckAppWsize alloc n size).map (Rs.putBytes · bytes size)

/-! ## The helpers -/

/-- A C `intN_t` value. -/
def CInt (w : Nat) : Type := { i : Int // -2 ^ (w - 1) ≤ i ∧ i < 2 ^ (w - 1) }

/-- The C conversion of an integer to a `w`-bit unsigned type: its value modulo `2 ^ w`. -/
def toUnsigned (w : Nat) (i : Int) : Nat := (i % 2 ^ w).toNat

/-- `rs_w_p(n, src, size)`: `memcpy` of the `size` bytes at `src`. -/
def rsWP (alloc : Alloc) (n : Rs) (src : List UInt8) (size : Nat) : Option Rs :=
  rsWBytes alloc n size (src.take size)

/-- `rs_w_uint8(n, u8)`. -/
def rsWUint8 (alloc : Alloc) (n : Rs) (u8 : UInt8) : Option Rs :=
  rsWBytes alloc n 1 [u8]

/-- `rs_w_uint16(n, u16)`. -/
def rsWUint16 (alloc : Alloc) (e : Endian) (n : Rs) (u16 : UInt16) : Option Rs :=
  rsWBytes alloc n 2 (storeU16 e u16)

/-- `rs_w_uint32(n, u32)`. -/
def rsWUint32 (alloc : Alloc) (e : Endian) (n : Rs) (u32 : UInt32) : Option Rs :=
  rsWBytes alloc n 4 (storeU32 e u32)

/-- `rs_w_uint64(n, u64)`: its parameter is declared `uint32_t`, and the store
`*((uint64_t *) ...) = u64` widens it back with zeros. -/
def rsWUint64 (alloc : Alloc) (e : Endian) (n : Rs) (u64 : UInt32) : Option Rs :=
  rsWBytes alloc n 8 (storeU64 e u64.toUInt64)

/-- `rs_w_uint16_hton(n, u16)`. -/
def rsWUint16Hton (alloc : Alloc) (e : Endian) (n : Rs) (u16 : UInt16) : Option Rs :=
  rsWUint16 alloc e n (rsNtoh16 e u16)

/-- `rs_w_uint32_hton(n, u32)`. -/
def rsWUint32Hton (alloc : Alloc) (e : Endian) (n : Rs) (u32 : UInt32) : Option Rs :=
  rsWUint32 alloc e n (rsNtoh32 e u32)

/-- `rs_w_uint64_hton(n, u64)`: `RS_HTON64(u64)` is passed to `rs_w_uint64`'s `uint32_t`
parameter. -/
def rsWUint64Hton (alloc : Alloc) (e : Endian) (n : Rs) (u64 : UInt64) : Option Rs :=
  rsWUint64 alloc e n (rsNtoh64 e u64).toUInt32

/-- `rs_w_int8(n, i8)`. -/
def rsWInt8 (alloc : Alloc) (n : Rs) (i8 : CInt 8) : Option Rs :=
  rsWUint8 alloc n (UInt8.ofNat (toUnsigned 8 i8.1))

/-- `rs_w_int16(n, i16)`. -/
def rsWInt16 (alloc : Alloc) (e : Endian) (n : Rs) (i16 : CInt 16) : Option Rs :=
  rsWUint16 alloc e n (UInt16.ofNat (toUnsigned 16 i16.1))

/-- `rs_w_int32(n, i32)`. -/
def rsWInt32 (alloc : Alloc) (e : Endian) (n : Rs) (i32 : CInt 32) : Option Rs :=
  rsWUint32 alloc e n (UInt32.ofNat (toUnsigned 32 i32.1))

/-- `rs_w_int64(n, i64)`: the `int64_t` is converted to `rs_w_uint64`'s `uint32_t`. -/
def rsWInt64 (alloc : Alloc) (e : Endian) (n : Rs) (i64 : CInt 64) : Option Rs :=
  rsWUint64 alloc e n (UInt32.ofNat (toUnsigned 32 i64.1))

/-- `rs_w_int16_hton(n, i16)`. -/
def rsWInt16Hton (alloc : Alloc) (e : Endian) (n : Rs) (i16 : CInt 16) : Option Rs :=
  rsWUint16Hton alloc e n (UInt16.ofNat (toUnsigned 16 i16.1))

/-- `rs_w_int32_hton(n, i32)`. -/
def rsWInt32Hton (alloc : Alloc) (e : Endian) (n : Rs) (i32 : CInt 32) : Option Rs :=
  rsWUint32Hton alloc e n (UInt32.ofNat (toUnsigned 32 i32.1))

/-- `rs_w_int64_hton(n, i64)`. -/
def rsWInt64Hton (alloc : Alloc) (e : Endian) (n : Rs) (i64 : CInt 64) : Option Rs :=
  rsWUint64Hton alloc e n (UInt64.ofNat (toUnsigned 64 i64.1))

/-! ## The invariant -/

/-- **The scratch buffer's invariant**: once allocated it holds `wbuf_size` bytes, and
`wbuf_i` stays within them, at 0 while there is no buffer. -/
structure Rs.WbufOk (n : Rs) : Prop where
  length : ∀ bs, n.wbuf = some bs → bs.length = n.wbufSize
  le : n.wbufI ≤ n.wbufSize
  none : n.wbuf = none → n.wbufI = 0

/-- The state a send leaves, `wbuf_i = 0`, keeps the invariant. -/
theorem Rs.WbufOk.resetWbufI {n : Rs} (h : n.WbufOk) : n.resetWbufI.WbufOk :=
  ⟨h.length, Nat.zero_le _, fun _ => rfl⟩

theorem le_floor_mul {m : ℚ} (hm : 1 ≤ m) (k : Nat) : k ≤ ⌊m * (k : ℚ)⌋₊ :=
  Nat.le_floor (le_mul_of_one_le_left (Nat.cast_nonneg k) hm)

/-- The `calloc` of a first use leaves a buffer of `wbuf_size` bytes, under the scratch bytes. -/
theorem callocWbuf_cases {alloc : Alloc} {n n1 : Rs} (hn : n.WbufOk)
    (h : callocWbuf alloc n = some n1) :
    ∃ bs, n1 = { n with wbuf := some bs } ∧ bs.length = n.wbufSize ∧
      bs.take n.wbufI = n.scratch := by
  unfold callocWbuf at h
  split at h
  · next hw =>
    obtain ⟨bs, hc, rfl⟩ := Option.map_eq_some'.mp h
    refine ⟨bs, rfl, by simp [alloc.calloc_eq _ _ hc], ?_⟩
    simp [Rs.scratch, hw, hn.none hw]
  · next bs hw =>
    cases h
    refine ⟨bs, ?_, hn.length bs hw, by simp [Rs.scratch, hw]⟩
    cases n; simp_all

/-- The growth step leaves room for the append and keeps the bytes below `wbuf_i`. -/
theorem reallocWbuf_cases {alloc : Alloc} {n n' : Rs} {bs : List UInt8} {incrSize : Nat}
    (hm : 1 ≤ n.conf.reallocMultiplier) (hbs : n.wbuf = some bs) (hlen : bs.length = n.wbufSize)
    (hi : n.wbufI ≤ n.wbufSize) (h : reallocWbuf alloc n incrSize = some n') :
    ∃ bs', n' = { n with wbuf := some bs', wbufSize := bs'.length } ∧
      n.wbufI + incrSize ≤ bs'.length ∧ bs'.take n.wbufI = bs.take n.wbufI := by
  unfold reallocWbuf at h
  split at h
  · rw [hbs] at h
    obtain ⟨bs', hr, rfl⟩ := Option.map_eq_some'.mp h
    have hl := alloc.realloc_length _ _ _ hr
    have hroom := le_floor_mul hm (n.wbufI + incrSize)
    refine ⟨bs', by rw [hl], by omega, ?_⟩
    calc bs'.take n.wbufI = (bs'.take bs.length).take n.wbufI := by
          rw [List.take_take, min_eq_left (by omega)]
      _ = bs.take n.wbufI := by
          rw [alloc.realloc_take _ _ _ hr, List.take_take, min_eq_left (by omega)]
  · cases h
    exact ⟨bs, by cases n; simp_all, by omega, rfl⟩

/-- **What `rs_check_app_wsize` does**: it leaves a buffer of `wbuf_size` bytes with room for
the append, under the scratch bytes. -/
theorem rsCheckAppWsize_cases {alloc : Alloc} {n n' : Rs} {incrSize : Nat}
    (hm : 1 ≤ n.conf.reallocMultiplier) (hn : n.WbufOk)
    (h : rsCheckAppWsize alloc n incrSize = some n') :
    ∃ bs, n' = { n with wbuf := some bs, wbufSize := bs.length } ∧
      n.wbufI + incrSize ≤ bs.length ∧ bs.take n.wbufI = n.scratch := by
  obtain ⟨n1, h1, h2⟩ := Option.bind_eq_some.mp h
  obtain ⟨bs, rfl, hlen, hs⟩ := callocWbuf_cases hn h1
  obtain ⟨bs', rfl, hroom, hs'⟩ :=
    @reallocWbuf_cases alloc { n with wbuf := some bs } _ bs _ hm rfl hlen hn.le h2
  exact ⟨bs', rfl, hroom, hs'.trans hs⟩

/-- With an allocator that never fails, `rs_check_app_wsize` returns. -/
theorem rsCheckAppWsize_isSome {alloc : Alloc} (hf : alloc.NeverFails) (n : Rs)
    (incrSize : Nat) : (rsCheckAppWsize alloc n incrSize).isSome := by
  obtain ⟨n1, h1, bs, hbs⟩ : ∃ n1, callocWbuf alloc n = some n1 ∧ ∃ bs, n1.wbuf = some bs := by
    unfold callocWbuf
    split
    · obtain ⟨bs, hc⟩ := Option.isSome_iff_exists.mp (hf.1 n.wbufSize)
      exact ⟨_, by rw [hc]; rfl, bs, rfl⟩
    · exact ⟨n, rfl, _, ‹_›⟩
  simp only [rsCheckAppWsize, h1, Option.some_bind, reallocWbuf]
  split
  · simpa [hbs] using hf.2 bs _
  · rfl

/-- The store, into a buffer with room for it, appends its bytes to the scratch bytes. -/
theorem putBytes_spec {n : Rs} {bs bytes : List UInt8}
    (hroom : n.wbufI + bytes.length ≤ bs.length) :
    (({ n with wbuf := some bs, wbufSize := bs.length } : Rs).putBytes bytes bytes.length).WbufOk ∧
      (({ n with wbuf := some bs, wbufSize := bs.length } : Rs).putBytes bytes
        bytes.length).scratch = bs.take n.wbufI ++ bytes := by
  have hl : (bs.take n.wbufI ++ bytes).length = n.wbufI + bytes.length := by simp; omega
  refine ⟨⟨?_, hroom, nofun⟩, List.take_left' hl⟩
  rintro _ ⟨⟩
  show (bs.take n.wbufI ++ bytes ++ bs.drop (n.wbufI + bytes.length)).length = bs.length
  simp only [List.length_append, List.length_take, List.length_drop]
  omega

/-- **One scratch append**: it keeps the invariant and appends its bytes to the scratch
bytes. -/
theorem rsWBytes_spec {alloc : Alloc} {n n' : Rs} {size : Nat} {bytes : List UInt8}
    (hm : 1 ≤ n.conf.reallocMultiplier) (hn : n.WbufOk) (hsize : bytes.length = size)
    (h : rsWBytes alloc n size bytes = some n') :
    n'.WbufOk ∧ n'.conf = n.conf ∧ n'.scratch = n.scratch ++ bytes := by
  subst hsize
  obtain ⟨n1, h1, rfl⟩ := Option.map_eq_some'.mp h
  obtain ⟨bs, rfl, hroom, hs⟩ := rsCheckAppWsize_cases hm hn h1
  obtain ⟨hok, hsc⟩ := putBytes_spec hroom
  exact ⟨hok, rfl, hsc.trans (by rw [hs])⟩

/-! ## Sequences of appends -/

/-- One scratch append of the app's API, with the argument the app passes. -/
inductive WOp where
  | p (src : List UInt8)
  | uint8 (u8 : UInt8)
  | uint16 (u16 : UInt16)
  | uint32 (u32 : UInt32)
  | uint64 (u64 : UInt64)
  | uint16Hton (u16 : UInt16)
  | uint32Hton (u32 : UInt32)
  | uint64Hton (u64 : UInt64)
  | int8 (i8 : CInt 8)
  | int16 (i16 : CInt 16)
  | int32 (i32 : CInt 32)
  | int64 (i64 : CInt 64)
  | int16Hton (i16 : CInt 16)
  | int32Hton (i32 : CInt 32)
  | int64Hton (i64 : CInt 64)

/-- The call of an append.  A `uint64_t` passed to `rs_w_uint64` is converted to its
`uint32_t` parameter. -/
def WOp.run (alloc : Alloc) (e : Endian) (n : Rs) : WOp → Option Rs
  | .p src => rsWP alloc n src src.length
  | .uint8 v => rsWUint8 alloc n v
  | .uint16 v => rsWUint16 alloc e n v
  | .uint32 v => rsWUint32 alloc e n v
  | .uint64 v => rsWUint64 alloc e n v.toUInt32
  | .uint16Hton v => rsWUint16Hton alloc e n v
  | .uint32Hton v => rsWUint32Hton alloc e n v
  | .uint64Hton v => rsWUint64Hton alloc e n v
  | .int8 i => rsWInt8 alloc n i
  | .int16 i => rsWInt16 alloc e n i
  | .int32 i => rsWInt32 alloc e n i
  | .int64 i => rsWInt64 alloc e n i
  | .int16Hton i => rsWInt16Hton alloc e n i
  | .int32Hton i => rsWInt32Hton alloc e n i
  | .int64Hton i => rsWInt64Hton alloc e n i

/-- The bytes the code stores for an append. -/
def WOp.bytes (e : Endian) : WOp → List UInt8
  | .p src => src
  | .uint8 v => [v]
  | .uint16 v => storeU16 e v
  | .uint32 v => storeU32 e v
  | .uint64 v => storeU64 e v.toUInt32.toUInt64
  | .uint16Hton v => storeU16 e (rsNtoh16 e v)
  | .uint32Hton v => storeU32 e (rsNtoh32 e v)
  | .uint64Hton v => storeU64 e (rsNtoh64 e v).toUInt32.toUInt64
  | .int8 i => [UInt8.ofNat (toUnsigned 8 i.1)]
  | .int16 i => storeU16 e (UInt16.ofNat (toUnsigned 16 i.1))
  | .int32 i => storeU32 e (UInt32.ofNat (toUnsigned 32 i.1))
  | .int64 i => storeU64 e (UInt32.ofNat (toUnsigned 32 i.1)).toUInt64
  | .int16Hton i => storeU16 e (rsNtoh16 e (UInt16.ofNat (toUnsigned 16 i.1)))
  | .int32Hton i => storeU32 e (rsNtoh32 e (UInt32.ofNat (toUnsigned 32 i.1)))
  | .int64Hton i => storeU64 e (rsNtoh64 e (UInt64.ofNat (toUnsigned 64 i.1))).toUInt32.toUInt64

/-- Every append is the shared body applied to its own bytes. -/
theorem WOp.run_eq (alloc : Alloc) (e : Endian) (n : Rs) (op : WOp) :
    op.run alloc e n = rsWBytes alloc n (op.bytes e).length (op.bytes e) := by
  cases op <;> simp [WOp.run, WOp.bytes, rsWP, rsWUint8, rsWUint16, rsWUint32, rsWUint64,
    rsWUint16Hton, rsWUint32Hton, rsWUint64Hton, rsWInt8, rsWInt16, rsWInt32, rsWInt64,
    rsWInt16Hton, rsWInt32Hton, rsWInt64Hton]

/-- A sequence of appends; `none` once one of them ends the process. -/
def runWOps (alloc : Alloc) (e : Endian) : Rs → List WOp → Option Rs
  | n, [] => some n
  | n, op :: ops => (op.run alloc e n).bind (runWOps alloc e · ops)

theorem runWOps_spec {alloc : Alloc} {e : Endian} (ops : List WOp) :
    ∀ {n n' : Rs}, 1 ≤ n.conf.reallocMultiplier → n.WbufOk → runWOps alloc e n ops = some n' →
      n'.WbufOk ∧ n'.conf = n.conf ∧ n'.scratch = n.scratch ++ ops.flatMap (WOp.bytes e) := by
  induction ops with
  | nil => rintro n _ _ hn ⟨⟩; simpa using hn
  | cons op ops ih =>
    intro n n' hm hn h
    obtain ⟨n1, h1, h2⟩ := Option.bind_eq_some.mp h
    rw [WOp.run_eq] at h1
    obtain ⟨hok1, hconf1, hs1⟩ := rsWBytes_spec hm hn rfl h1
    obtain ⟨hok, hconf, hs⟩ := ih (hconf1 ▸ hm) hok1 h2
    exact ⟨hok, hconf.trans hconf1, by rw [hs, hs1, List.flatMap_cons, List.append_assoc]⟩

theorem runWOps_isSome {alloc : Alloc} {e : Endian} (hf : alloc.NeverFails) (ops : List WOp) :
    ∀ {n : Rs}, 1 ≤ n.conf.reallocMultiplier → n.WbufOk → (runWOps alloc e n ops).isSome := by
  induction ops with
  | nil => intros; rfl
  | cons op ops ih =>
    intro n hm hn
    have hs : (op.run alloc e n).isSome := by
      rw [WOp.run_eq, rsWBytes, Option.isSome_map']
      exact rsCheckAppWsize_isSome hf n _
    obtain ⟨n1, h1⟩ := Option.isSome_iff_exists.mp hs
    obtain ⟨hok1, hconf1, -⟩ := rsWBytes_spec hm hn rfl ((WOp.run_eq alloc e n op) ▸ h1)
    simpa [runWOps, h1] using @ih n1 (by rw [hconf1]; exact hm) hok1

theorem Rs.WbufOk.length_scratch {n : Rs} (hn : n.WbufOk) : n.scratch.length = n.wbufI := by
  cases hw : n.wbuf with
  | none => simp [Rs.scratch, hw, hn.none hw]
  | some bs => simp [Rs.scratch, hw, hn.length bs hw, hn.le]

/-! ## The bytes the spec asks for -/

/-- What the spec says an append stores: the raw bytes for `rs_w_p`, the `N/8` host-order
bytes of the full `N`-bit argument for `rs_w_uintN` and `rs_w_intN`, and its `N/8`
big-endian bytes for the `_hton` variants. -/
def WOp.specBytes (e : Endian) : WOp → List UInt8
  | .p src => src
  | .uint8 v => hostBytes e 1 v.toNat
  | .uint16 v => hostBytes e 2 v.toNat
  | .uint32 v => hostBytes e 4 v.toNat
  | .uint64 v => hostBytes e 8 v.toNat
  | .uint16Hton v => netBytes 2 v.toNat
  | .uint32Hton v => netBytes 4 v.toNat
  | .uint64Hton v => netBytes 8 v.toNat
  | .int8 i => hostBytes e 1 (toUnsigned 8 i.1)
  | .int16 i => hostBytes e 2 (toUnsigned 16 i.1)
  | .int32 i => hostBytes e 4 (toUnsigned 32 i.1)
  | .int64 i => hostBytes e 8 (toUnsigned 64 i.1)
  | .int16Hton i => netBytes 2 (toUnsigned 16 i.1)
  | .int32Hton i => netBytes 4 (toUnsigned 32 i.1)
  | .int64Hton i => netBytes 8 (toUnsigned 64 i.1)

/-- The appends that go through `rs_w_uint64`. -/
def WOp.is64 : WOp → Bool
  | .uint64 _ | .uint64Hton _ | .int64 _ | .int64Hton _ => true
  | _ => false

theorem hostBytes_one (e : Endian) (k : Nat) : hostBytes e 1 k = [UInt8.ofNat k] := by
  have h : UInt8.ofNat (k % 256) = UInt8.ofNat k := UInt8.toNat.inj (Nat.mod_mod k 256)
  cases e <;> simp [hostBytes, h]

theorem storeU16_ofNat (e : Endian) (k : Nat) : storeU16 e (UInt16.ofNat k) = hostBytes e 2 k :=
  hostBytes_mod e 2 k

theorem storeU32_ofNat (e : Endian) (k : Nat) : storeU32 e (UInt32.ofNat k) = hostBytes e 4 k :=
  hostBytes_mod e 4 k

theorem netBytes_mod (w n : Nat) : netBytes w (n % 256 ^ w) = netBytes w n := by
  simp only [netBytes, leBytes_mod]

theorem bytes_eq_specBytes (e : Endian) (op : WOp) (h : op.is64 = false) :
    op.bytes e = op.specBytes e := by
  cases op with
  | p => rfl
  | uint8 v => rw [WOp.bytes, WOp.specBytes, hostBytes_one, uint8_ofNat_toNat]
  | uint16 | uint32 => rfl
  | uint16Hton v => exact storeU16_rsNtoh16 e v
  | uint32Hton v => exact storeU32_rsNtoh32 e v
  | int8 i => exact (hostBytes_one e _).symm
  | int16 i => exact storeU16_ofNat e _
  | int32 i => exact storeU32_ofNat e _
  | int16Hton i => exact (storeU16_rsNtoh16 e _).trans (netBytes_mod 2 _)
  | int32Hton i => exact (storeU32_rsNtoh32 e _).trans (netBytes_mod 4 _)
  | uint64 | uint64Hton | int64 | int64Hton => exact nomatch h

theorem bytes_eq_specBytes_uint16Hton :
    (WOp.uint16Hton 0x0102).is64 = false ∧ (WOp.uint16Hton 0x0102).bytes .little = [1, 2] :=
  ⟨rfl, (bytes_eq_specBytes .little (.uint16Hton 0x0102) rfl).trans rfl⟩

theorem bytes_uint64 (e : Endian) (v : UInt64) :
    (WOp.uint64 v).bytes e = hostBytes e 8 (v.toNat % 2 ^ 32) :=
  congrArg (hostBytes e 8) (rfl : v.toUInt32.toUInt64.toNat = v.toNat % 2 ^ 32)

theorem bytes_int64 (e : Endian) (i : CInt 64) :
    (WOp.int64 i).bytes e = hostBytes e 8 (toUnsigned 32 i.1) :=
  (congrArg (hostBytes e 8) (Nat.mod_eq_of_lt (by unfold toUnsigned; omega)) :
    hostBytes e 8 (toUnsigned 32 i.1 % 2 ^ 32) = _)

theorem bytes_uint64Hton_little (v : UInt64) :
    (WOp.uint64Hton v).bytes .little = (netBytes 8 v.toNat).take 4 ++ [0, 0, 0, 0] := by
  rw [show (WOp.uint64Hton v).bytes .little =
      leBytes 8 (bswap 8 v.toNat % 2 ^ 64 % 2 ^ 32) from rfl,
    Nat.mod_eq_of_lt ((bswap_lt 8 _).trans_eq (by norm_num)), leBytes_eight_mod, netBytes,
    ← leBytes_bswap, leBytes_add 4 4, List.take_left' (length_leBytes 4 _)]

theorem bytes_uint64Hton_big (v : UInt64) :
    (WOp.uint64Hton v).bytes .big = [0, 0, 0, 0] ++ (netBytes 8 v.toNat).drop 4 := by
  rw [show (WOp.uint64Hton v).bytes .big = (leBytes 8 (v.toNat % 2 ^ 32)).reverse from rfl,
    leBytes_eight_mod, netBytes, leBytes_add 4 4]
  simp [List.drop_left' (List.length_reverse _ ▸ length_leBytes 4 _)]

/-- **What the 64-bit appends store**: `rs_w_uint64` and `rs_w_int64` store the low 32 bits
of their argument widened with zeros; `rs_w_uint64_hton` stores, on a little-endian host,
the first four big-endian bytes of its argument and then four zeros, and on a big-endian host
four zeros and then the last four. -/
theorem uint64_appends_store_low_half (e : Endian) (v : UInt64) (i : CInt 64) :
    (WOp.uint64 v).bytes e = hostBytes e 8 (v.toNat % 2 ^ 32) ∧
    (WOp.int64 i).bytes e = hostBytes e 8 (toUnsigned 32 i.1) ∧
    (WOp.uint64Hton v).bytes .little = (netBytes 8 v.toNat).take 4 ++ [0, 0, 0, 0] ∧
    (WOp.uint64Hton v).bytes .big = [0, 0, 0, 0] ++ (netBytes 8 v.toNat).drop 4 :=
  ⟨bytes_uint64 e v, bytes_int64 e i, bytes_uint64Hton_little v, bytes_uint64Hton_big v⟩

theorem rsWUint64Hton_drops_high_half (alloc : Alloc) (n : Rs) :
    (rsWUint64Hton alloc .little
        { n with wbuf := some (List.replicate 16 0), wbufSize := 16, wbufI := 0 } 1).map
        Rs.scratch = some (List.replicate 8 0) ∧
      (WOp.uint64Hton 1).specBytes .little = [0, 0, 0, 0, 0, 0, 0, 1] :=
  ⟨rfl, rfl⟩

/-! ## Every sequence of appends -/

/-- **Scratch appends from any state of the invariant**: every run of appends that returns
keeps `wbuf_i ≤ wbuf_size` and leaves the scratch bytes extended by the bytes of each
append in call order; with an allocator that never fails, every run returns. -/
theorem runWOps_appends (alloc : Alloc) (e : Endian) (n : Rs) (ops : List WOp)
    (hm : 1 ≤ n.conf.reallocMultiplier) (hn : n.WbufOk) :
    (∀ n', runWOps alloc e n ops = some n' →
      n'.wbufI ≤ n'.wbufSize ∧ n'.scratch = n.scratch ++ ops.flatMap (WOp.bytes e)) ∧
    (alloc.NeverFails → (runWOps alloc e n ops).isSome) :=
  ⟨fun _ h => (runWOps_spec ops hm hn h).elim fun hok h' => ⟨hok.le, h'.2⟩,
    fun hf => runWOps_isSome hf ops hm hn⟩

theorem runWOps_appends_first_use :
    1 ≤ (2 : ℚ) ∧
      (runWOps Alloc.zeroing .little
        { conf := ⟨1, 16, 2, 64⟩, wbuf := none, wbufSize := 0, wbufI := 0,
          srcWorkerThreadI := 0, srcPeerI := 7, outboundRings := fun _ => ⟨[], 0⟩,
          ioPairs := fun _ => ⟨⟨0, 0⟩, ⟨0, 0⟩⟩, ringUpdateQueue := [] }
        [.uint8 1, .uint32Hton 2, .p [3, 4]]).isSome :=
  ⟨by norm_num, (runWOps_appends Alloc.zeroing .little
    { conf := ⟨1, 16, 2, 64⟩, wbuf := none, wbufSize := 0, wbufI := 0,
      srcWorkerThreadI := 0, srcPeerI := 7, outboundRings := fun _ => ⟨[], 0⟩,
      ioPairs := fun _ => ⟨⟨0, 0⟩, ⟨0, 0⟩⟩, ringUpdateQueue := [] }
    [.uint8 1, .uint32Hton 2, .p [3, 4]] (by norm_num)
    ⟨(fun _ h => nomatch h), le_rfl, fun _ => rfl⟩).2
    Alloc.zeroing_neverFails⟩

/-- **A message built by appends, then sent**: from the state a send leaves, the record
`rs_send` writes after any sequence of appends parses back with the appended bytes, then
`p`, as its payload — in the payload bands where the code's length field is the minimal
one. -/
theorem appends_then_send_parses (alloc : Alloc) (e : Endian) {c : SendCall}
    (hc : c.Consistent) {n n' : Rs} (ops : List WOp) (hm : 1 ≤ n.conf.reallocMultiplier)
    (hn : n.WbufOk) (h0 : n.wbufI = 0) (hrun : runWOps alloc e n ops = some n')
    (hP : 126 ≤ (ops.flatMap (WOp.bytes e)).length + c.p.length ∧
        (ops.flatMap (WOp.bytes e)).length + c.p.length ≤ 65530 ∨
      65535 < (ops.flatMap (WOp.bytes e)).length + c.p.length ∧
        (ops.flatMap (WOp.bytes e)).length + c.p.length < 2 ^ 64)
    (rest : List UInt8) :
    OutboundRecord.parse e (rsSendRecord e n' c ++ rest) =
      some (⟨c.outboundKind, c.recipients, c.isUtf8, ops.flatMap (WOp.bytes e) ++ c.p⟩, rest) := by
  obtain ⟨hok, -, hs⟩ := runWOps_spec ops hm hn hrun
  have hs0 : n.scratch = [] := by simp [Rs.scratch, h0]
  rw [hs0, List.nil_append] at hs
  have hi : n'.wbufI = (ops.flatMap (WOp.bytes e)).length := hok.length_scratch ▸ hs ▸ rfl
  rw [rsSend_record_parses hc e hok.length_scratch (hi ▸ hP) rest, SendCall.record, hs]

theorem appends_then_send_parses_single :
    126 ≤ 1 + 125 ∧
      OutboundRecord.parse .little
        (rsSendRecord .little
          { conf := ⟨1, 200, 2, 64⟩, wbuf := some (1 :: List.replicate 15 0), wbufSize := 16,
            wbufI := 1, srcWorkerThreadI := 0, srcPeerI := 7, outboundRings := fun _ => ⟨[], 0⟩,
            ioPairs := fun _ => ⟨⟨0, 0⟩, ⟨0, 0⟩⟩, ringUpdateQueue := [] }
          ⟨0, .single, [7], 1, false, List.replicate 125 0⟩ ++ []) =
        some (⟨.single, [7], false, 1 :: List.replicate 125 0⟩, []) :=
  ⟨by decide, @appends_then_send_parses Alloc.zeroing .little
    ⟨0, .single, [7], 1, false, List.replicate 125 0⟩ ⟨rfl, rfl, fun _ => rfl⟩
    { conf := ⟨1, 200, 2, 64⟩, wbuf := some (List.replicate 16 0), wbufSize := 16,
      wbufI := 0, srcWorkerThreadI := 0, srcPeerI := 7, outboundRings := fun _ => ⟨[], 0⟩,
      ioPairs := fun _ => ⟨⟨0, 0⟩, ⟨0, 0⟩⟩, ringUpdateQueue := [] } _
    [.uint8 1] (by norm_num) ⟨fun _ h => by cases h; rfl, by decide, nofun⟩ rfl rfl
    (Or.inl ⟨by simp [WOp.bytes], by simp [WOp.bytes]⟩) []⟩

end RingSocket
