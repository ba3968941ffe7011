import RingSocket.App
import Mathlib.Data.List.Basic

/-!
# Ring initialisation and the clock

The two helpers an app thread calls outside the API.  `rs_init_rings` sets up an app
thread's side of the rings it shares with the worker threads: it allocates the `io_pairs`
array, the array of outbound rings and the array behind `inbound_readers`, gives each
outbound ring a fresh buffer, publishes each ring's start as its shared writer and reader,
copies each inbound ring's published reader into the app's cursor, and allocates the ring
update queue.  `rs_get_time_in_milliseconds` reads the
monotonic clock in milliseconds.

## Main Definitions

* `Obj`, `Field`, `Loc`, `Val`, `Mem` — a cell memory: the caller's out-parameters and the
  blocks the function allocates, numbered in allocation order, each cell an element's field.
* `rsCalloc` — `RS_CALLOC` and `RS_CACHE_ALIGNED_CALLOC`.
* `initRing` — one round of the loop; `rsInitRings`.
* `Mem.inBounds` — whether a cell belongs to an object.
* `RingReady`, `LoopInv` — a ring set up, and the memory after `k` rounds of the loop.
* `Timespec`, `rsGetTimeInMilliseconds`.

## Design Notes

Memory is a map from cells to values, with the list of the cells written so far, so that
"no other object is written" is a statement about that list.  `inbound_readers` points at the
caller's own `uint8_t *` variable, so `inbound_readers[i]` is the `i`-th pointer-sized cell
from that variable: for `i = 0` the variable itself, past it for `i ≥ 1`.  The model keeps
each such cell as a cell of its own; in C the store past the variable is undefined and may
land on whatever the caller keeps there.

`RS_ATOMIC_LOAD_RELAXED_CASTED` is not defined in src/; it is read as the
`RS_CASTED_ATOMIC_LOAD_RELAXED` the header defines, whose arguments it takes:
`val = (cast) atomic_load(store)`.  Atomicity and the compiler barriers do not change what a
single thread stores, so loads and stores are plain reads and writes of cells.

`initRing_eq` says once what a round does; `LoopInv.step` and `loop_spec` carry the loop's
invariant over every number of rounds, and `rsInitRings_cases` puts the calls together, so
the results about the whole function read their facts off it.  When the call returns at all
is a separate question: `loop_isSome_iff` answers it for the loop and `loop_queue` shows the
loop leaves the update queue alone; with `rsCalloc_bind_isSome` for each `RS_CALLOC`,
`rsInitRings_isSome_iff` reads the answer off the calls in order.
-/

namespace RingSocket

/-! ## Memory -/

/-- The objects `rs_init_rings` reaches: the caller's variables behind `io_pairs`,
`outbound_rings` and `inbound_readers`, the caller's `ring_update_queue`, and the blocks it
allocates, numbered in allocation order. -/
inductive Obj where
  | ioPairsVar
  | outboundRingsVar
  | inboundReadersVar
  | ringUpdateQueue
  | block (k : Nat)
  deriving DecidableEq, Repr

/-- The fields of the structs `rs_init_rings` writes; a pointer variable, or an element of a
byte array, is its own `self`. -/
inductive Field where
  | self
  | buf
  | writer
  | allocMultiplier
  | inboundReader
  | outboundWriter
  | outboundReader
  | size
  | queue
  deriving DecidableEq, Repr

/-- A cell: an object, an element of it, a field of that element. -/
abbrev Loc := Obj × Nat × Field

/-- What a cell holds. -/
inductive Val where
  /-- All-zero bytes: `NULL`, or `0`; what `calloc` leaves. -/
  | null
  /-- The address of element `i` of an object. -/
  | ptr (o : Obj) (i : Nat)
  | num (n : Nat)
  | real (q : ℚ)
  deriving DecidableEq

/-- The memory: each cell's value, the element count of each block allocated so far, and the
cells written, in order. -/
structure Mem where
  cells : Loc → Val
  blocks : List Nat
  writes : List Loc

/-- Memory before the call: every cell `NULL`, nothing allocated or written. -/
def Mem.empty : Mem := ⟨fun _ => .null, [], []⟩

/-- A store. -/
def Mem.write (m : Mem) (l : Loc) (v : Val) : Mem :=
  { m with cells := Function.update m.cells l v, writes := m.writes ++ [l] }

/-- A fresh block of `elemC` zeroed elements; it is the next block in allocation order. -/
def Mem.alloc (m : Mem) (elemC : Nat) : Mem :=
  { m with
    cells := fun l => if l.1 = .block m.blocks.length then .null else m.cells l
    blocks := m.blocks ++ [elemC] }

/-- Whether a cell belongs to an object: an element of an allocated block, or the caller's
variable itself. -/
def Mem.inBounds (m : Mem) : Loc → Bool
  | (.block k, i, _) => i < m.blocks.getD k 0
  | (_, i, _) => i == 0

/-- The element `i` of the array a pointer points at; `none` for a `NULL` or a non-pointer,
whose dereference is undefined. -/
def Val.elem : Val → Nat → Option (Obj × Nat)
  | .ptr o j, i => some (o, j + i)
  | _, _ => none

/-! ## The function -/

/-- `RS_CALLOC(pointer, elem_c)` and `RS_CACHE_ALIGNED_CALLOC(pointer, elem_c)`, with
`pointer` the cell `l`: `RS_FATAL` (`none`) unless it holds `NULL` or when the allocation
fails, else a zeroed block of `elem_c` elements whose address is stored in `l`.  The two
macros differ only in the alignment, which the model does not see.  `fails k` says whether
the `k`-th allocation fails. -/
def rsCalloc (fails : Nat → Bool) (m : Mem) (l : Loc) (elemC : Nat) : Option Mem :=
  if m.cells l ≠ .null then none
  else if fails m.blocks.length then none
  else some ((m.alloc elemC).write l (.ptr (.block m.blocks.length) 0))

/-- One round of the loop of `rs_init_rings`, for worker `i`. -/
def initRing (fails : Nat → Bool) (conf : RsConf) (m : Mem) (i : Nat) : Option Mem := do
  -- struct rs_ring * out_ring = *outbound_rings + i;
  let (b, bi) ← (m.cells (.outboundRingsVar, 0, .self)).elem i
  let m ← rsCalloc fails m (b, bi, .buf) conf.outboundRingBufSize
  let buf := m.cells (b, bi, .buf)
  let m := m.write (b, bi, .writer) buf
  let m := m.write (b, bi, .allocMultiplier) (.real conf.reallocMultiplier)
  -- &(*io_pairs)[i]
  let (a, ai) ← (m.cells (.ioPairsVar, 0, .self)).elem i
  let m := m.write (a, ai, .outboundWriter) buf
  let m := m.write (a, ai, .outboundReader) buf
  -- inbound_readers[i] = (uint8_t *) (*io_pairs)[i].inbound.reader
  some (m.write (.inboundReadersVar, i, .self) (m.cells (a, ai, .inboundReader)))

/-- `struct rs_app`, as far as `rs_init_rings` reads it.  Modelled from the spec: the struct
is declared outside src/. -/
structure RsApp where
  updateQueueSize : Nat

/-- `rs_init_rings(conf, app, io_pairs, outbound_rings, inbound_readers,
ring_update_queue)`; `none` is an `RS_FATAL` return. -/
def rsInitRings (fails : Nat → Bool) (conf : RsConf) (app : RsApp) (m : Mem) : Option Mem := do
  let m ← rsCalloc fails m (.ioPairsVar, 0, .self) conf.workerC
  let m ← rsCalloc fails m (.outboundRingsVar, 0, .self) conf.workerC
  let m ← rsCalloc fails m (.inboundReadersVar, 0, .self) conf.workerC
  let m ← (List.range conf.workerC).foldlM (initRing fails conf) m
  let m := m.write (.ringUpdateQueue, 0, .size) (.num app.updateQueueSize)
  rsCalloc fails m (.ringUpdateQueue, 0, .queue) app.updateQueueSize

/-! ## Stores and allocations -/

@[simp] theorem Mem.write_cells (m : Mem) (l l' : Loc) (v : Val) :
    (m.write l v).cells l' = if l' = l then v else m.cells l' :=
  Function.update_apply _ _ _ _

@[simp] theorem Mem.write_blocks (m : Mem) (l : Loc) (v : Val) : (m.write l v).blocks = m.blocks :=
  rfl

@[simp] theorem Mem.write_writes (m : Mem) (l : Loc) (v : Val) :
    (m.write l v).writes = m.writes ++ [l] := rfl

@[simp] theorem Mem.alloc_cells (m : Mem) (s : Nat) (l : Loc) :
    (m.alloc s).cells l = if l.1 = .block m.blocks.length then .null else m.cells l := rfl

@[simp] theorem Mem.alloc_blocks (m : Mem) (s : Nat) : (m.alloc s).blocks = m.blocks ++ [s] := rfl

@[simp] theorem Mem.alloc_writes (m : Mem) (s : Nat) : (m.alloc s).writes = m.writes := rfl

theorem rsCalloc_eq_some {fails : Nat → Bool} {m m' : Mem} {l : Loc} {s : Nat} :
    rsCalloc fails m l s = some m' ↔ m.cells l = .null ∧ fails m.blocks.length = false ∧
      m' = (m.alloc s).write l (.ptr (.block m.blocks.length) 0) := by
  unfold rsCalloc
  by_cases h1 : m.cells l = .null
  · cases h2 : fails m.blocks.length
    · simpa [h1] using eq_comm
    · simp [h1]
  · simp [h1]

/-- A call that continues after an `RS_CALLOC` returns exactly when the pointer held `NULL`,
the allocation succeeded, and the rest returns from the memory with the new block. -/
theorem rsCalloc_bind_isSome {fails : Nat → Bool} {m : Mem} {l : Loc} {s : Nat}
    {g : Mem → Option Mem} :
    ((rsCalloc fails m l s).bind g).isSome ↔
      m.cells l = .null ∧ fails m.blocks.length = false ∧
        (g ((m.alloc s).write l (.ptr (.block m.blocks.length) 0))).isSome := by
  by_cases h1 : m.cells l = .null <;> cases h2 : fails m.blocks.length <;>
    simp [rsCalloc, h1, h2]

theorem rsCalloc_isSome {fails : Nat → Bool} {m : Mem} {l : Loc} {s : Nat} :
    (rsCalloc fails m l s).isSome ↔ m.cells l = .null ∧ fails m.blocks.length = false := by
  simpa using @rsCalloc_bind_isSome fails m l s some

/-! ## One round of the loop -/

/-- **One round of the loop**, once `*outbound_rings` and `*io_pairs` point at the blocks
`kb` and `ka`: the `calloc` of the ring's buffer, then five stores of its address or of the
multiplier, then the store of `io_pairs[i].inbound.reader` at `inbound_readers[i]`. -/
theorem initRing_eq {fails : Nat → Bool} {conf : RsConf} {m : Mem} {i ka kb : Nat}
    (hB : m.cells (.outboundRingsVar, 0, .self) = .ptr (.block kb) 0)
    (hA : m.cells (.ioPairsVar, 0, .self) = .ptr (.block ka) 0) (hka : ka < m.blocks.length) :
    initRing fails conf m i =
      (rsCalloc fails m (.block kb, i, .buf) conf.outboundRingBufSize).map fun m1 =>
        ((((m1.write (.block kb, i, .writer) (.ptr (.block m.blocks.length) 0)).write
          (.block kb, i, .allocMultiplier) (.real conf.reallocMultiplier)).write
          (.block ka, i, .outboundWriter) (.ptr (.block m.blocks.length) 0)).write
          (.block ka, i, .outboundReader) (.ptr (.block m.blocks.length) 0)).write
          (.inboundReadersVar, i, .self) (m.cells (.block ka, i, .inboundReader)) := by
  cases h : rsCalloc fails m (.block kb, i, .buf) conf.outboundRingBufSize with
  | none => simp [initRing, hB, Val.elem, h]
  | some m1 =>
    obtain ⟨-, -, rfl⟩ := rsCalloc_eq_some.mp h
    simp [initRing, hB, hA, Val.elem, h, hka.ne]

/-! ## The loop -/

/-- The cells round `i` of the loop writes, in order. -/
def roundWrites (ka kb i : Nat) : List Loc :=
  [(.block kb, i, .buf), (.block kb, i, .writer), (.block kb, i, .allocMultiplier),
    (.block ka, i, .outboundWriter), (.block ka, i, .outboundReader),
    (.inboundReadersVar, i, .self)]

/-- **Outbound ring `i` is ready**, with `io_pairs` the block `ka` and the rings the block
`kb`: its buffer is the block `d`; its private writer, and the writer and the reader it
publishes in `io_pairs[i]`, all point at the buffer's start; its `alloc_multiplier` is the
configured one. -/
structure RingReady (conf : RsConf) (ka kb d i : Nat) (m : Mem) : Prop where
  buf : m.cells (.block kb, i, .buf) = .ptr (.block d) 0
  writer : m.cells (.block kb, i, .writer) = .ptr (.block d) 0
  allocMultiplier : m.cells (.block kb, i, .allocMultiplier) = .real conf.reallocMultiplier
  outboundWriter : m.cells (.block ka, i, .outboundWriter) = .ptr (.block d) 0
  outboundReader : m.cells (.block ka, i, .outboundReader) = .ptr (.block d) 0

/-- A ring stays ready in a memory that agrees on the two blocks. -/
theorem RingReady.congr {conf : RsConf} {ka kb d i : Nat} {m m' : Mem}
    (h : RingReady conf ka kb d i m)
    (hm : ∀ b f, b = ka ∨ b = kb → m'.cells (.block b, i, f) = m.cells (.block b, i, f)) :
    RingReady conf ka kb d i m' :=
  ⟨(hm _ _ (.inr rfl)).trans h.buf, (hm _ _ (.inr rfl)).trans h.writer,
    (hm _ _ (.inr rfl)).trans h.allocMultiplier, (hm _ _ (.inl rfl)).trans h.outboundWriter,
    (hm _ _ (.inl rfl)).trans h.outboundReader⟩

/-- **The memory after `k` rounds of the loop** from `m0`, in which `*io_pairs` and
`*outbound_rings` point at the blocks `ka` and `kb`: one ring buffer allocated per round,
the rounds' stores in order, rings `0 .. k-1` ready and their cursors copied, and the rest as
it was. -/
structure LoopInv (conf : RsConf) (m0 : Mem) (ka kb k : Nat) (m : Mem) : Prop where
  blocks : m.blocks = m0.blocks ++ List.replicate k conf.outboundRingBufSize
  writes : m.writes = m0.writes ++ (List.range k).flatMap (roundWrites ka kb)
  ioPairs : m.cells (.ioPairsVar, 0, .self) = m0.cells (.ioPairsVar, 0, .self)
  outboundRings : m.cells (.outboundRingsVar, 0, .self) = m0.cells (.outboundRingsVar, 0, .self)
  inboundReader :
    ∀ i, m.cells (.block ka, i, .inboundReader) = m0.cells (.block ka, i, .inboundReader)
  pending : ∀ i, k ≤ i → m.cells (.block kb, i, .buf) = m0.cells (.block kb, i, .buf)
  ready : ∀ i < k, RingReady conf ka kb (m0.blocks.length + i) i m
  reader : ∀ i < k, m.cells (.inboundReadersVar, i, .self) = m0.cells (.block ka, i, .inboundReader)

section Loop

variable {fails : Nat → Bool} {conf : RsConf} {m0 : Mem} {ka kb : Nat}
  (hB : m0.cells (.outboundRingsVar, 0, .self) = .ptr (.block kb) 0)
  (hA : m0.cells (.ioPairsVar, 0, .self) = .ptr (.block ka) 0)
  (hka : ka < m0.blocks.length) (hkb : kb < m0.blocks.length)
include hB hA hka hkb

theorem LoopInv.step {k : Nat} {m m' : Mem} (inv : LoopInv conf m0 ka kb k m)
    (h : initRing fails conf m k = some m') : LoopInv conf m0 ka kb (k + 1) m' := by
  have hlen : m.blocks.length = m0.blocks.length + k := by simp [inv.blocks]
  rw [initRing_eq (inv.outboundRings.trans hB) (inv.ioPairs.trans hA) (by omega)] at h
  obtain ⟨m1, hc, rfl⟩ := Option.map_eq_some'.mp h
  obtain ⟨-, -, rfl⟩ := rsCalloc_eq_some.mp hc
  have hkaN : ka ≠ m.blocks.length := by omega
  have hkbN : kb ≠ m.blocks.length := by omega
  constructor
  · simp [inv.blocks, List.replicate_succ']
  · simp [inv.writes, List.range_succ, roundWrites]
  · simp [inv.ioPairs]
  · simp [inv.outboundRings]
  · intro i; simp [inv.inboundReader, hkaN]
  · intro i hi; simp [inv.pending i (by omega), hkbN, show i ≠ k by omega]
  · intro i hi
    rcases Nat.lt_succ_iff_lt_or_eq.mp hi with hi | rfl
    · exact (inv.ready i hi).congr fun b f hb => by
        rcases hb with rfl | rfl <;> simp [show i ≠ k by omega, hkaN, hkbN]
    · constructor <;> simp [hlen]
  · intro i hi
    rcases Nat.lt_succ_iff_lt_or_eq.mp hi with hi | rfl
    · simp [inv.reader i hi, show i ≠ k by omega]
    · simp [inv.inboundReader]

theorem loop_spec (k : Nat) :
    ∀ m, (List.range k).foldlM (initRing fails conf) m0 = some m → LoopInv conf m0 ka kb k m := by
  induction k with
  | zero =>
    rintro m ⟨⟩
    exact ⟨by simp, by simp, rfl, rfl, fun _ => rfl, fun _ _ => rfl, fun _ h => absurd h (by omega),
      fun _ h => absurd h (by omega)⟩
  | succ k ih =>
    intro m h
    simp only [List.range_succ, List.foldlM_append, List.foldlM_cons, List.foldlM_nil,
      Option.bind_eq_bind, Option.bind_eq_some] at h
    obtain ⟨mk, hk, m', h', hm⟩ := h
    cases hm
    exact (ih mk hk).step hB hA hka hkb h'

/-- **The loop returns exactly when none of its allocations fails**, from a ring array whose
`buf` cells hold `NULL`, so that the `RS_CALLOC` of each ring's buffer passes its check. -/
theorem loop_isSome_iff (hnull : ∀ i, m0.cells (.block kb, i, .buf) = .null) (k : Nat) :
    ((List.range k).foldlM (initRing fails conf) m0).isSome ↔
      ∀ i < k, fails (m0.blocks.length + i) = false := by
  induction k with
  | zero => simp
  | succ k ih =>
    rw [Nat.forall_lt_succ_right, ← ih]
    simp only [List.range_succ, List.foldlM_append, List.foldlM_cons, List.foldlM_nil,
      Option.bind_eq_bind]
    cases hk : (List.range k).foldlM (initRing fails conf) m0 with
    | none => simp
    | some mk =>
      have inv := loop_spec hB hA hka hkb k mk hk
      have hlen : mk.blocks.length = m0.blocks.length + k := by simp [inv.blocks]
      rw [Option.some_bind,
        initRing_eq (inv.outboundRings.trans hB) (inv.ioPairs.trans hA) (by omega)]
      simp [rsCalloc, inv.pending k le_rfl, hnull, hlen]

/-- The loop stores nothing in the update queue. -/
theorem loop_queue (k : Nat) :
    ∀ m, (List.range k).foldlM (initRing fails conf) m0 = some m →
      ∀ f, m.cells (.ringUpdateQueue, 0, f) = m0.cells (.ringUpdateQueue, 0, f) := by
  induction k with
  | zero => rintro m ⟨⟩ f; rfl
  | succ k ih =>
    intro m h f
    simp only [List.range_succ, List.foldlM_append, List.foldlM_cons, List.foldlM_nil,
      Option.bind_eq_bind, Option.bind_eq_some] at h
    obtain ⟨mk, hk, m', h', hm⟩ := h
    cases hm
    have inv := loop_spec hB hA hka hkb k mk hk
    rw [initRing_eq (inv.outboundRings.trans hB) (inv.ioPairs.trans hA)
      (by simp [inv.blocks]; omega)] at h'
    obtain ⟨m1, hc, rfl⟩ := Option.map_eq_some'.mp h'
    obtain ⟨-, -, rfl⟩ := rsCalloc_eq_some.mp hc
    simp [ih mk hk]

/-- The loop and then the update queue's `RS_CALLOC` return exactly when none of the loop's
allocations fails, the queue's pointer holds `NULL`, and the queue's allocation succeeds. -/
theorem loop_then_queue_isSome_iff (hnull : ∀ i, m0.cells (.block kb, i, .buf) = .null)
    (q : Nat) :
    (((List.range conf.workerC).foldlM (initRing fails conf) m0).bind fun mL =>
      rsCalloc fails (mL.write (.ringUpdateQueue, 0, .size) (.num q))
        (.ringUpdateQueue, 0, .queue) q).isSome ↔
    (∀ i < conf.workerC, fails (m0.blocks.length + i) = false) ∧
      m0.cells (.ringUpdateQueue, 0, .queue) = .null ∧
      fails (m0.blocks.length + conf.workerC) = false := by
  have hloop := @loop_isSome_iff fails conf m0 ka kb hB hA hka hkb hnull conf.workerC
  cases h : (List.range conf.workerC).foldlM (initRing fails conf) m0 with
  | none =>
    rw [h] at hloop
    simp only [Option.none_bind, Option.isSome_none, Bool.false_eq_true, false_iff] at hloop ⊢
    exact fun h' => hloop h'.1
  | some mL =>
    have hq := loop_queue hB hA hka hkb conf.workerC mL h
    have hlen := (loop_spec hB hA hka hkb conf.workerC mL h).blocks
    rw [h] at hloop
    simp [rsCalloc_isSome, hq, hlen, ← hloop]

end Loop

/-! ## The whole function -/

/-- **What a successful call does**: it allocates `io_pairs`, the ring array and the array
behind `inbound_readers` as the next three blocks, runs the loop over them, then allocates
the update queue. -/
theorem rsInitRings_cases {fails : Nat → Bool} {conf : RsConf} {app : RsApp} {m m' : Mem}
    (h : rsInitRings fails conf app m = some m') :
    ∃ m3 mL, m3.blocks = m.blocks ++ List.replicate 3 conf.workerC ∧
      m3.writes = m.writes ++
        [(.ioPairsVar, 0, .self), (.outboundRingsVar, 0, .self), (.inboundReadersVar, 0, .self)] ∧
      m3.cells (.ioPairsVar, 0, .self) = .ptr (.block m.blocks.length) 0 ∧
      m3.cells (.outboundRingsVar, 0, .self) = .ptr (.block (m.blocks.length + 1)) 0 ∧
      (∀ i f, m3.cells (.block m.blocks.length, i, f) = .null) ∧
      (∀ i f, m3.cells (.block (m.blocks.length + 1), i, f) = .null) ∧
      LoopInv conf m3 m.blocks.length (m.blocks.length + 1) conf.workerC mL ∧
      m' = ((mL.write (.ringUpdateQueue, 0, .size) (.num app.updateQueueSize)).alloc
        app.updateQueueSize).write (.ringUpdateQueue, 0, .queue)
          (.ptr (.block mL.blocks.length) 0) := by
  simp only [rsInitRings, Option.bind_eq_bind, Option.bind_eq_some] at h
  obtain ⟨m1, h1, m2, h2, m3, h3, mL, hL, h4⟩ := h
  obtain ⟨-, -, rfl⟩ := rsCalloc_eq_some.mp h1
  obtain ⟨-, -, rfl⟩ := rsCalloc_eq_some.mp h2
  obtain ⟨-, -, rfl⟩ := rsCalloc_eq_some.mp h3
  obtain ⟨-, -, rfl⟩ := rsCalloc_eq_some.mp h4
  refine ⟨_, mL, by simp, by simp, by simp, by simp, fun i f => by simp, fun i f => by simp,
    loop_spec (by simp) (by simp) (by simp) (by simp) _ _ hL, by simp⟩

/-- **What a successful call writes**, in order: the three out-parameters, the six cells of
each round of the loop, then the update queue's two fields. -/
theorem rsInitRings_writes {fails : Nat → Bool} {conf : RsConf} {app : RsApp} {m m' : Mem}
    (h : rsInitRings fails conf app m = some m') :
    m'.writes = m.writes ++
      [(.ioPairsVar, 0, .self), (.outboundRingsVar, 0, .self), (.inboundReadersVar, 0, .self)] ++
      (List.range conf.workerC).flatMap (roundWrites m.blocks.length (m.blocks.length + 1)) ++
      [(.ringUpdateQueue, 0, .size), (.ringUpdateQueue, 0, .queue)] := by
  obtain ⟨m3, mL, -, hw3, -, -, -, -, inv, rfl⟩ := rsInitRings_cases h
  simp [inv.writes, hw3]

theorem rsInitRings_writes_one_worker :
    ∃ m', rsInitRings (fun _ => false) ⟨1, 16, 2, 64⟩ ⟨8⟩ Mem.empty = some m' ∧
      m'.writes.length = 11 := by
  obtain ⟨m', hm⟩ : ∃ m', rsInitRings (fun _ => false) ⟨1, 16, 2, 64⟩ ⟨8⟩ Mem.empty = some m' :=
    ⟨_, rfl⟩
  exact ⟨m', hm, by rw [rsInitRings_writes hm]; rfl⟩

/-- The cell `inbound_readers[i]` ends holding `io_pairs[i].inbound.reader` of the `io_pairs`
just allocated: `NULL`. -/
theorem rsInitRings_reader_cells {fails : Nat → Bool} {conf : RsConf} {app : RsApp} {m m' : Mem}
    (h : rsInitRings fails conf app m = some m') :
    ∀ i < conf.workerC, m'.cells (.inboundReadersVar, i, .self) = .null := by
  obtain ⟨m3, mL, -, -, -, -, hA0, -, inv, rfl⟩ := rsInitRings_cases h
  intro i hi
  simp [inv.reader i hi, hA0]

theorem rsInitRings_writes_past_reader_var (conf : RsConf) (app : RsApp) :
    ∃ m, rsInitRings (fun _ => false) { conf with workerC := 2 } app Mem.empty = some m ∧
      m.cells (.inboundReadersVar, 0, .self) = .null ∧
      (Obj.inboundReadersVar, 1, Field.self) ∈ m.writes ∧
      m.inBounds (.inboundReadersVar, 1, .self) = false := by
  obtain ⟨m, hm⟩ : ∃ m, rsInitRings (fun _ => false) { conf with workerC := 2 } app Mem.empty =
      some m := ⟨_, rfl⟩
  refine ⟨m, hm, rsInitRings_reader_cells hm 0 Nat.two_pos, ?_, rfl⟩
  obtain ⟨m3, mL, -, hw3, -, -, -, -, inv, rfl⟩ := rsInitRings_cases hm
  simp [inv.writes, hw3, roundWrites]

/-- A `struct timespec` as `clock_gettime` fills it: `tv_nsec` within a second. -/
structure Timespec where
  tvSec : Int
  tvNsec : Int
  tvNsec_range : 0 ≤ tvNsec ∧ tvNsec < 1000000000

/-- A reading in nanoseconds. -/
def Timespec.nanos (ts : Timespec) : Int := ts.tvSec * 1000000000 + ts.tvNsec

/-- `rs_get_time_in_milliseconds(time_ms)`, given what `clock_gettime(CLOCK_MONOTONIC_COARSE,
&ts)` reads (`none` for its `-1`): the status, and the value stored at `*time_ms`,
`1000 * ts.tv_sec + ts.tv_nsec / 1000000` in `time_t` arithmetic (`/` truncates) converted
to `uint64_t`. -/
def rsGetTimeInMilliseconds : Option Timespec → RsRet × Option UInt64
  | none => (.fatal, none)
  | some ts =>
    (.ok, some (UInt64.ofNat ((1000 * ts.tvSec + ts.tvNsec.tdiv 1000000) % 2 ^ 64).toNat))

/-- For a reading at or after the clock's origin, below `2^64` milliseconds, the stored
value is the reading's whole milliseconds. -/
theorem rsGetTimeInMilliseconds_some {ts : Timespec} (h0 : 0 ≤ ts.nanos)
    (hmax : ts.nanos < 2 ^ 64 * 1000000) :
    rsGetTimeInMilliseconds (some ts) = (.ok, some (UInt64.ofNat (ts.nanos / 1000000).toNat)) := by
  obtain ⟨hn0, hn1⟩ := ts.tvNsec_range
  have hdiv : 1000 * ts.tvSec + ts.tvNsec.tdiv 1000000 = ts.nanos / 1000000 := by
    rw [Int.tdiv_eq_ediv hn0 (by norm_num), Timespec.nanos]; omega
  have hlt : ts.nanos / 1000000 < 2 ^ 64 := by omega
  have hnn : 0 ≤ ts.nanos / 1000000 := by omega
  simp only [rsGetTimeInMilliseconds, hdiv, Int.emod_eq_of_lt hnn hlt]

end RingSocket
