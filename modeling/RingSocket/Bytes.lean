import Mathlib.Data.Rat.Floor

/-!
# Byte orders

RingSocket moves integers between registers and byte buffers in three ways: host-order
stores through a cast pointer (`*((uint32_t *) p) = v`), the network-order helpers built on
`RS_NTOH16/32/64`, and the endianness probe `RS_IS_LITTLE_ENDIAN`.  This module gives each
of them a byte-level meaning on a host of either byte order.

## Main Definitions

* `leBytes w n` / `ofLeBytes` — the `w` bytes of `n`, least significant first, and back.
* `hostBytes e w n` — what a `w`-byte store writes on a host of byte order `e`;
  `netBytes w n` — the same integer, most significant byte first.
* `rsIsLittleEndian e` — the probe, read off the first byte the host stores for the
  `uint32_t` value `1`; `rsNtoh16/32/64` swap the bytes exactly when that byte is set.

## Design Notes

The host's byte order is never fixed: every definition that stores or loads takes it as an
argument `e`, and every theorem about such a definition holds for both values.  The fact the
rest of the development leans on is `hostBytes_rsHton`: a host store of `RS_HTONn(v)` writes
`netBytes`, on either host.
-/

namespace RingSocket

/-- The byte order of the host the program runs on. -/
inductive Endian where
  | little
  | big
  deriving DecidableEq, Repr

/-! ## Fixed-width little-endian bytes -/

/-- The `w` bytes of `n`, least significant first; bits above `8 * w` are dropped. -/
def leBytes : Nat → Nat → List UInt8
  | 0, _ => []
  | w + 1, n => UInt8.ofNat (n % 256) :: leBytes w (n / 256)

/-- The natural number whose bytes, least significant first, are the given list. -/
def ofLeBytes : List UInt8 → Nat
  | [] => 0
  | b :: bs => b.toNat + 256 * ofLeBytes bs

@[simp] theorem leBytes_zero (n : Nat) : leBytes 0 n = [] := rfl

@[simp] theorem leBytes_succ (w n : Nat) :
    leBytes (w + 1) n = UInt8.ofNat (n % 256) :: leBytes w (n / 256) := rfl

@[simp] theorem ofLeBytes_nil : ofLeBytes [] = 0 := rfl

@[simp] theorem ofLeBytes_cons (b : UInt8) (bs : List UInt8) :
    ofLeBytes (b :: bs) = b.toNat + 256 * ofLeBytes bs := rfl

/-- A byte is the byte of its own value. -/
@[simp] theorem uint8_ofNat_toNat (b : UInt8) : UInt8.ofNat b.toNat = b :=
  UInt8.toNat.inj (UInt8.toNat_ofNat_of_lt b.toNat_lt_size)

@[simp] theorem length_leBytes (w n : Nat) : (leBytes w n).length = w := by
  induction w generalizing n with
  | zero => rfl
  | succ w ih => simp [ih]

theorem ofLeBytes_leBytes (w n : Nat) : ofLeBytes (leBytes w n) = n % 256 ^ w := by
  induction w generalizing n with
  | zero => simp [Nat.mod_one]
  | succ w ih =>
    have hb : (UInt8.ofNat (n % 256)).toNat = n % 256 :=
      UInt8.toNat_ofNat_of_lt (Nat.mod_lt _ (by decide))
    rw [leBytes_succ, ofLeBytes_cons, ih, hb, Nat.pow_succ', Nat.mod_mul]

theorem ofLeBytes_lt (bs : List UInt8) : ofLeBytes bs < 256 ^ bs.length := by
  induction bs with
  | nil => simp
  | cons b bs ih =>
    have hb : b.toNat < 256 := b.toNat_lt_size
    rw [ofLeBytes_cons, List.length_cons, Nat.pow_succ']
    omega

theorem leBytes_ofLeBytes (bs : List UInt8) : leBytes bs.length (ofLeBytes bs) = bs := by
  induction bs with
  | nil => rfl
  | cons b bs ih =>
    have hb : b.toNat < 256 := b.toNat_lt_size
    have hmod : (b.toNat + 256 * ofLeBytes bs) % 256 = b.toNat := by omega
    have hdiv : (b.toNat + 256 * ofLeBytes bs) / 256 = ofLeBytes bs := by omega
    simp only [List.length_cons, leBytes_succ, ofLeBytes_cons, hmod, hdiv, ih,
      uint8_ofNat_toNat]

/-- Two integers below `256 ^ w` with the same `w` bytes are equal. -/
theorem leBytes_injective {w m n : Nat} (hm : m < 256 ^ w) (hn : n < 256 ^ w)
    (h : leBytes w m = leBytes w n) : m = n := by
  have := congrArg ofLeBytes h
  rwa [ofLeBytes_leBytes, ofLeBytes_leBytes, Nat.mod_eq_of_lt hm, Nat.mod_eq_of_lt hn] at this

/-- The bytes of `n` depend only on `n` modulo `256 ^ w`. -/
theorem leBytes_mod (w n : Nat) : leBytes w (n % 256 ^ w) = leBytes w n := by
  have h := leBytes_ofLeBytes (leBytes w n)
  rwa [length_leBytes, ofLeBytes_leBytes] at h

/-- The bytes of `n` for `a + b` bytes: the first `a`, then the next `b`. -/
theorem leBytes_add (a b n : Nat) : leBytes (a + b) n = leBytes a n ++ leBytes b (n / 256 ^ a) := by
  induction a generalizing n with
  | zero => simp
  | succ a ih =>
    rw [Nat.add_right_comm, leBytes_succ, leBytes_succ, ih, Nat.div_div_eq_div_mul, Nat.pow_succ']
    rfl

/-- The eight bytes of a value cut to its low 32 bits: its four low bytes, then zeros. -/
theorem leBytes_eight_mod (n : Nat) : leBytes 8 (n % 2 ^ 32) = leBytes 4 n ++ [0, 0, 0, 0] := by
  have h := leBytes_add 4 4 (n % 2 ^ 32)
  rw [show (4 + 4 : Nat) = 8 from rfl] at h
  rw [h, show n % 2 ^ 32 = n % 256 ^ 4 by norm_num, leBytes_mod,
    Nat.div_eq_of_lt (Nat.mod_lt _ (by norm_num))]
  rfl

/-! ## Host and network order -/

/-- The `w` bytes a host of byte order `e` stores for the integer `n`. -/
def hostBytes : Endian → Nat → Nat → List UInt8
  | .little, w, n => leBytes w n
  | .big, w, n => (leBytes w n).reverse

/-- The integer a host of byte order `e` loads from the given bytes. -/
def ofHostBytes : Endian → List UInt8 → Nat
  | .little, bs => ofLeBytes bs
  | .big, bs => ofLeBytes bs.reverse

/-- The `w` bytes of `n` in network byte order: most significant first. -/
def netBytes (w n : Nat) : List UInt8 := (leBytes w n).reverse

@[simp] theorem length_hostBytes (e : Endian) (w n : Nat) : (hostBytes e w n).length = w := by
  cases e <;> simp [hostBytes]

@[simp] theorem length_netBytes (w n : Nat) : (netBytes w n).length = w := by
  simp [netBytes]

theorem hostBytes_mod (e : Endian) (w n : Nat) : hostBytes e w (n % 256 ^ w) = hostBytes e w n := by
  cases e <;> simp only [hostBytes, leBytes_mod]

theorem ofHostBytes_hostBytes (e : Endian) (w n : Nat) :
    ofHostBytes e (hostBytes e w n) = n % 256 ^ w := by
  cases e <;> simp [hostBytes, ofHostBytes, ofLeBytes_leBytes]

theorem hostBytes_ofHostBytes (e : Endian) (bs : List UInt8) :
    hostBytes e bs.length (ofHostBytes e bs) = bs := by
  cases e with
  | little => exact leBytes_ofLeBytes bs
  | big =>
    simpa [hostBytes, ofHostBytes] using congrArg List.reverse (leBytes_ofLeBytes bs.reverse)

theorem ofHostBytes_lt (e : Endian) (bs : List UInt8) : ofHostBytes e bs < 256 ^ bs.length := by
  cases e
  · exact ofLeBytes_lt bs
  · simpa using ofLeBytes_lt bs.reverse

/-! ## The byte-swap builtins and the endianness probe -/

/-- `__builtin_bswap16/32/64` on a `w`-byte integer: reverse its bytes. -/
def bswap (w n : Nat) : Nat := ofLeBytes (leBytes w n).reverse

/-- `RS_IS_LITTLE_ENDIAN`: the first byte the host stores for the `uint32_t` value `1`. -/
def rsIsLittleEndian (e : Endian) : Bool := (hostBytes e 4 1).head? != some 0

@[simp] theorem rsIsLittleEndian_little : rsIsLittleEndian .little = true := rfl

@[simp] theorem rsIsLittleEndian_big : rsIsLittleEndian .big = false := rfl

/-- `RS_NTOH16`, and `RS_HTON16` which expands to it. -/
def rsNtoh16 (e : Endian) (h16 : UInt16) : UInt16 :=
  if rsIsLittleEndian e then UInt16.ofNat (bswap 2 h16.toNat) else h16

/-- `RS_NTOH32`, and `RS_HTON32` which expands to it. -/
def rsNtoh32 (e : Endian) (h32 : UInt32) : UInt32 :=
  if rsIsLittleEndian e then UInt32.ofNat (bswap 4 h32.toNat) else h32

/-- `RS_NTOH64`, and `RS_HTON64` which expands to it. -/
def rsNtoh64 (e : Endian) (h64 : UInt64) : UInt64 :=
  if rsIsLittleEndian e then UInt64.ofNat (bswap 8 h64.toNat) else h64

/-- Storing a byte-swapped integer on a little-endian host writes its bytes reversed. -/
theorem leBytes_bswap (w n : Nat) : leBytes w (bswap w n) = (leBytes w n).reverse := by
  simpa [bswap] using leBytes_ofLeBytes (leBytes w n).reverse

theorem bswap_lt (w n : Nat) : bswap w n < 256 ^ w := by
  simpa [bswap] using ofLeBytes_lt (leBytes w n).reverse

/-- **A host store of `RS_HTONn(v)` writes `v` in network order**, whatever the host. -/
theorem hostBytes_hton (e : Endian) (w n : Nat) :
    hostBytes e w (if rsIsLittleEndian e then bswap w n else n) = netBytes w n := by
  cases e <;> simp [hostBytes, netBytes, leBytes_bswap]

theorem ofLeBytes_reverse_netBytes (w n : Nat) :
    ofLeBytes (netBytes w n).reverse = n % 256 ^ w := by
  rw [netBytes, List.reverse_reverse, ofLeBytes_leBytes]

/-! ## Typed stores and loads -/

/-- The bytes of a host store `*((uint16_t *) p) = v`. -/
def storeU16 (e : Endian) (v : UInt16) : List UInt8 := hostBytes e 2 v.toNat

/-- The bytes of a host store `*((uint32_t *) p) = v`. -/
def storeU32 (e : Endian) (v : UInt32) : List UInt8 := hostBytes e 4 v.toNat

/-- The bytes of a host store `*((uint64_t *) p) = v`. -/
def storeU64 (e : Endian) (v : UInt64) : List UInt8 := hostBytes e 8 v.toNat

/-- `RS_W_HTON16(ptr, v)`: the host store of `RS_HTON16(v)` writes `v` in network order. -/
theorem storeU16_rsNtoh16 (e : Endian) (v : UInt16) :
    storeU16 e (rsNtoh16 e v) = netBytes 2 v.toNat := by
  have hb : (UInt16.ofNat (bswap 2 v.toNat)).toNat = bswap 2 v.toNat :=
    UInt16.toNat_ofNat_of_lt (bswap_lt 2 _)
  cases e
  · simp only [storeU16, rsNtoh16, rsIsLittleEndian_little, if_true, hostBytes, hb,
      leBytes_bswap, netBytes]
  · rfl

/-- `RS_W_HTON32(ptr, v)`: the host store of `RS_HTON32(v)` writes `v` in network order. -/
theorem storeU32_rsNtoh32 (e : Endian) (v : UInt32) :
    storeU32 e (rsNtoh32 e v) = netBytes 4 v.toNat := by
  have hb : (UInt32.ofNat (bswap 4 v.toNat)).toNat = bswap 4 v.toNat :=
    UInt32.toNat_ofNat_of_lt (bswap_lt 4 _)
  cases e
  · simp only [storeU32, rsNtoh32, rsIsLittleEndian_little, if_true, hostBytes, hb,
      leBytes_bswap, netBytes]
  · rfl

/-- `RS_W_HTON64(ptr, v)`: the host store of `RS_HTON64(v)` writes `v` in network order. -/
theorem storeU64_rsNtoh64 (e : Endian) (v : UInt64) :
    storeU64 e (rsNtoh64 e v) = netBytes 8 v.toNat := by
  have hb : (UInt64.ofNat (bswap 8 v.toNat)).toNat = bswap 8 v.toNat :=
    UInt64.toNat_ofNat_of_lt (bswap_lt 8 _)
  cases e
  · simp only [storeU64, rsNtoh64, rsIsLittleEndian_little, if_true, hostBytes, hb,
      leBytes_bswap, netBytes]
  · rfl

/-- A host load `*((uint32_t *) p)` from the first four of the given bytes. -/
def loadU32 (e : Endian) (bs : List UInt8) : UInt32 := UInt32.ofNat (ofHostBytes e (bs.take 4))

/-- A host load `*((uint64_t *) p)` from the first eight of the given bytes. -/
def loadU64 (e : Endian) (bs : List UInt8) : UInt64 := UInt64.ofNat (ofHostBytes e (bs.take 8))

@[simp] theorem length_storeU16 (e : Endian) (v : UInt16) : (storeU16 e v).length = 2 := by
  simp [storeU16]

@[simp] theorem length_storeU32 (e : Endian) (v : UInt32) : (storeU32 e v).length = 4 := by
  simp [storeU32]

@[simp] theorem length_storeU64 (e : Endian) (v : UInt64) : (storeU64 e v).length = 8 := by
  simp [storeU64]

/-- Loading back what was stored gives the stored `uint32_t`, whatever follows it. -/
theorem loadU32_storeU32 (e : Endian) (v : UInt32) (rest : List UInt8) :
    loadU32 e (storeU32 e v ++ rest) = v := by
  have hv : v.toNat < 256 ^ 4 := v.toNat_lt_size
  have h := ofHostBytes_hostBytes e 4 v.toNat
  rw [Nat.mod_eq_of_lt hv] at h
  apply UInt32.toNat.inj
  simp only [loadU32, storeU32, List.take_left' (length_hostBytes e 4 _), h,
    UInt32.toNat_ofNat_of_lt v.toNat_lt_size]

/-- Storing what an eight-byte load read gives the eight bytes back. -/
theorem storeU64_loadU64 (e : Endian) {bs : List UInt8} (h : bs.length = 8) :
    storeU64 e (loadU64 e bs) = bs := by
  have hlt : ofHostBytes e bs < UInt64.size := by
    simpa [h] using ofHostBytes_lt e bs
  have := hostBytes_ofHostBytes e bs
  rw [h] at this
  simpa [storeU64, loadU64, List.take_of_length_le (le_of_eq h),
    UInt64.toNat_ofNat_of_lt hlt] using this

/-- Storing what a four-byte load read gives the four bytes back. -/
theorem storeU32_loadU32 (e : Endian) {bs : List UInt8} (h : bs.length = 4) :
    storeU32 e (loadU32 e bs) = bs := by
  have hlt : ofHostBytes e bs < UInt32.size := by
    simpa [h] using ofHostBytes_lt e bs
  have := hostBytes_ofHostBytes e bs
  rw [h] at this
  simpa [storeU32, loadU32, List.take_of_length_le (le_of_eq h),
    UInt32.toNat_ofNat_of_lt hlt] using this

/-- Loading back what was stored gives the stored `uint64_t`. -/
theorem loadU64_storeU64 (e : Endian) (v : UInt64) : loadU64 e (storeU64 e v) = v := by
  have hv : v.toNat < 256 ^ 8 := v.toNat_lt_size
  have h := ofHostBytes_hostBytes e 8 v.toNat
  rw [Nat.mod_eq_of_lt hv] at h
  apply UInt64.toNat.inj
  simp only [loadU64, storeU64, List.take_of_length_le (le_of_eq (length_hostBytes e 8 _)), h,
    UInt64.toNat_ofNat_of_lt v.toNat_lt_size]

end RingSocket
