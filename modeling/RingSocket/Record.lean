import RingSocket.App

/-!
# The outbound record grammar

What the spec says an outbound ring carries for one send, and the reader that walks a ring
by that grammar.  This is the layer the send path is compared with: `RingSocket.Send`
proves where the bytes `rs_send` writes are a record of this grammar, and where they are not.

```
kind:u8 | [recipient_c:u32 if kind ∈ {ARRAY, EVERY_EXCEPT_ARRAY}] |
  recipients:u32[recipient_c, 1 if SINGLE-style, 0 if EVERY] |
  0x81 | 0x82 | ws_length (1, 3 or 9 bytes) | payload
```

## Main Definitions

* `OutboundRecord` — a record's contents; `OutboundRecord.WellFormed` — the recipient count
  its kind allows, and a payload length that fits the 64-bit length field.
* `wsLength` — the minimal WebSocket length field; `OutboundRecord.encode` — the bytes.
* `OutboundRecord.parse` — the reader; `parse_encode` is the round trip: the reader gets the
  record back and stops exactly at its last byte.
-/

namespace RingSocket

/-- The contents of one outbound record. -/
structure OutboundRecord where
  kind : RsOutboundKind
  recipients : List UInt32
  isUtf8 : Bool
  payload : List UInt8
  deriving DecidableEq, Repr

namespace RsOutboundKind

/-- The kinds whose record carries a recipient count. -/
def hasCount : RsOutboundKind → Bool
  | .array | .everyExceptArray => true
  | _ => false

/-- How many recipients a kind without a count carries. -/
def fixedCount : RsOutboundKind → Nat
  | .single | .everyExceptSingle => 1
  | _ => 0

/-- The kind a kind byte names. -/
def ofUInt8 (b : UInt8) : Option RsOutboundKind :=
  match b.toNat with
  | 0 => some .single
  | 1 => some .array
  | 2 => some .every
  | 3 => some .everyExceptSingle
  | 4 => some .everyExceptArray
  | _ => none

@[simp] theorem ofUInt8_toUInt8 (k : RsOutboundKind) : ofUInt8 k.toUInt8 = some k := by
  cases k <;> rfl

end RsOutboundKind

/-- The minimal WebSocket payload length field: the length itself up to 125, `126` and a
big-endian `u16` up to 65535, `127` and a big-endian `u64` beyond. -/
def wsLength (payloadSize : Nat) : List UInt8 :=
  if payloadSize ≤ 125 then [UInt8.ofNat payloadSize]
  else if payloadSize ≤ 65535 then 126 :: netBytes 2 payloadSize
  else 127 :: netBytes 8 payloadSize

/-- The frame type byte. -/
def opcodeByte (isUtf8 : Bool) : UInt8 := if isUtf8 then 0x81 else 0x82

/-- The recipient count field: present for the array kinds only. -/
def countField (e : Endian) (r : OutboundRecord) : List UInt8 :=
  if r.kind.hasCount then storeU32 e (UInt32.ofNat r.recipients.length) else []

/-- The bytes of a record on a host of byte order `e`. -/
def OutboundRecord.encode (e : Endian) (r : OutboundRecord) : List UInt8 :=
  r.kind.toUInt8 :: (countField e r ++ r.recipients.flatMap (storeU32 e) ++
    opcodeByte r.isUtf8 :: (wsLength r.payload.length ++ r.payload))

/-- A record the grammar can carry: as many recipients as its kind allows, and a payload
whose length fits the 64-bit length field. -/
structure OutboundRecord.WellFormed (r : OutboundRecord) : Prop where
  recipients : if r.kind.hasCount then r.recipients.length < 2 ^ 32
    else r.recipients.length = r.kind.fixedCount
  payload : r.payload.length < 2 ^ 64

/-! ## The reader -/

/-- Read `k` host-order `uint32_t`s. -/
def readU32s (e : Endian) : Nat → List UInt8 → Option (List UInt32 × List UInt8)
  | 0, bs => some ([], bs)
  | k + 1, bs =>
    if bs.length < 4 then none
    else (readU32s e k (bs.drop 4)).map fun (rs, rest) => (loadU32 e bs :: rs, rest)

/-- Read a WebSocket length field. -/
def parseWsLength : List UInt8 → Option (Nat × List UInt8)
  | [] => none
  | b :: bs =>
    if b.toNat ≤ 125 then some (b.toNat, bs)
    else if b.toNat = 126 then
      if bs.length < 2 then none else some (ofLeBytes (bs.take 2).reverse, bs.drop 2)
    else if b.toNat = 127 then
      if bs.length < 8 then none else some (ofLeBytes (bs.take 8).reverse, bs.drop 8)
    else none

/-- Read the frame type byte. -/
def parseOpcode (b : UInt8) : Option Bool :=
  if b = 0x81 then some true else if b = 0x82 then some false else none

/-- Read the recipient count of a kind: from the count field, or the kind's fixed count. -/
def parseCount (e : Endian) (kind : RsOutboundKind) (bs : List UInt8) :
    Option (Nat × List UInt8) :=
  if kind.hasCount then
    if bs.length < 4 then none else some ((loadU32 e bs).toNat, bs.drop 4)
  else some (kind.fixedCount, bs)

/-- Read one record off the front of a ring's bytes, returning what follows it. -/
def OutboundRecord.parse (e : Endian) : List UInt8 → Option (OutboundRecord × List UInt8)
  | [] => none
  | k :: bs => do
    let kind ← RsOutboundKind.ofUInt8 k
    let (count, bs) ← parseCount e kind bs
    let (recipients, bs) ← readU32s e count bs
    match bs with
    | [] => none
    | op :: bs =>
      let isUtf8 ← parseOpcode op
      let (len, bs) ← parseWsLength bs
      if bs.length < len then none else some (⟨kind, recipients, isUtf8, bs.take len⟩, bs.drop len)

/-! ## Round trip -/

theorem readU32s_flatMap (e : Endian) (rs : List UInt32) (rest : List UInt8) :
    readU32s e rs.length (rs.flatMap (storeU32 e) ++ rest) = some (rs, rest) := by
  induction rs with
  | nil => rfl
  | cons r rs ih =>
    have hlen : ¬ (storeU32 e r ++ (rs.flatMap (storeU32 e) ++ rest)).length < 4 := by simp
    simp only [List.length_cons, List.flatMap_cons, List.append_assoc, readU32s, hlen,
      if_false, List.drop_left' (length_storeU32 e r), ih, Option.map_some',
      loadU32_storeU32]

theorem parseWsLength_wsLength {payloadSize : Nat} (h : payloadSize < 2 ^ 64)
    (rest : List UInt8) :
    parseWsLength (wsLength payloadSize ++ rest) = some (payloadSize, rest) := by
  have h126 : (126 : UInt8).toNat = 126 := rfl
  have h127 : (127 : UInt8).toNat = 127 := rfl
  unfold wsLength
  split_ifs with h₁ h₂
  · have : (UInt8.ofNat payloadSize).toNat = payloadSize :=
      UInt8.toNat_ofNat_of_lt (by change payloadSize < 256; omega)
    simp only [List.singleton_append, parseWsLength, this, h₁, if_true]
  · have hp : payloadSize % 256 ^ 2 = payloadSize := Nat.mod_eq_of_lt (by omega)
    simp only [List.cons_append, parseWsLength, h126, List.length_append, length_netBytes,
      List.take_left' (length_netBytes 2 _), List.drop_left' (length_netBytes 2 _),
      ofLeBytes_reverse_netBytes, hp]
    simp
  · have hp : payloadSize % 256 ^ 8 = payloadSize := Nat.mod_eq_of_lt (by simpa using h)
    simp only [List.cons_append, parseWsLength, h127, List.length_append, length_netBytes,
      List.take_left' (length_netBytes 8 _), List.drop_left' (length_netBytes 8 _),
      ofLeBytes_reverse_netBytes, hp]
    simp

theorem parseCount_countField (e : Endian) {r : OutboundRecord} (hr : r.WellFormed)
    (tail : List UInt8) :
    parseCount e r.kind (countField e r ++ tail) = some (r.recipients.length, tail) := by
  have hrec := hr.recipients
  unfold parseCount countField
  split
  · rename_i hk
    simp only [hk, if_true] at hrec
    have hlt : r.recipients.length < UInt32.size := hrec
    simp [List.drop_left', loadU32_storeU32, UInt32.toNat_ofNat_of_lt hlt]
  · rename_i hk
    simp only [hk, Bool.false_eq_true, if_false] at hrec
    simp [hrec]

theorem parseOpcode_opcodeByte (isUtf8 : Bool) : parseOpcode (opcodeByte isUtf8) = some isUtf8 := by
  cases isUtf8 <;> rfl

/-- **The reader recovers every well-formed record and stops where it ends.** -/
theorem parse_encode (e : Endian) {r : OutboundRecord} (hr : r.WellFormed)
    (rest : List UInt8) : OutboundRecord.parse e (r.encode e ++ rest) = some (r, rest) := by
  simp [OutboundRecord.encode, OutboundRecord.parse, parseCount_countField e hr,
    readU32s_flatMap, parseOpcode_opcodeByte, parseWsLength_wsLength hr.payload,
    List.take_left', List.drop_left']

end RingSocket
