import VotingEscrow.Basic

/-!
# Byte encodings of the stored records

The contract stores `Point`, `LockedBalance` and `Checkpoint` through their `ToBytes` and
`FromBytes` implementations in `vedata.rs`, which concatenate the encodings of their fields:
`I128` of `I128.rs` (16 little-endian bytes of the two's complement) and, from `casper_types`'
`bytesrepr`, `u64` (8 little-endian bytes), `U128` (a byte count, then that many significant
bytes, least significant first) and `Vec<u64>` (a `u32` count, then each element). Every record
encoder starts with `allocate_buffer`, which refuses a value longer than `u32::MAX` bytes.
`casper_types` is not part of the repository: its primitives follow that library's byte format.

Each decoder reads its value from the front of a stream and returns the rest, so every round
trip is stated over an appended suffix: `decode (encode v ++ rest) = .ok (v, rest)`. The values
are those of the source's types (`Point.Fits` and its siblings); a `Vec<u64>` on the contract's
32-bit target holds at most `isize::MAX` bytes.

## Main results

* `records_roundTrip` — every record and every `I128` decodes back from its encoding followed by
  any bytes, and its encoding has its serialized length (`48` for a `Point`, `16` for an `I128`).
* `i128FromBytes_panics_on_short_input` — `I128::from_bytes` panics on fewer than 16 bytes, so
  `Point::from_bytes` panics on fewer than 32 and returns an error only from 32 to 47.
* `records_decode_sound` — every record a decoder accepts is of the source's types and is read
  from a prefix that alone determines it; for a `Point` that prefix is its encoding.
-/

namespace VotingEscrow

/-! ## Little-endian words -/

/-- `count` little-endian bytes of `n`: its low `8 * count` bits. -/
def leBytes : Nat → Nat → List UInt8
  | 0, _ => []
  | count + 1, n => n.toUInt8 :: leBytes count (n / 256)

/-- The number a little-endian byte string stands for. -/
def fromLe : List UInt8 → Nat
  | [] => 0
  | b :: bs => b.toNat + 256 * fromLe bs

@[simp] theorem length_leBytes (count n : Nat) : (leBytes count n).length = count := by
  induction count generalizing n with
  | zero => rfl
  | succ count ih => simp [leBytes, ih]

theorem fromLe_leBytes (count n : Nat) : fromLe (leBytes count n) = n % 256 ^ count := by
  induction count generalizing n with
  | zero => simp [leBytes, fromLe, Nat.mod_one]
  | succ count ih =>
    rw [leBytes, fromLe, ih, Nat.pow_succ, Nat.mul_comm (256 ^ count) 256, Nat.mod_mul]
    rfl

theorem fromLe_leBytes_of_lt {count n : Nat} (h : n < 256 ^ count) :
    fromLe (leBytes count n) = n := by
  rw [fromLe_leBytes, Nat.mod_eq_of_lt h]

theorem fromLe_lt (bs : List UInt8) : fromLe bs < 256 ^ bs.length := by
  induction bs with
  | nil => exact Nat.one_pos
  | cons b bs ih =>
    have := UInt8.toNat_lt_size b
    rw [fromLe, List.length_cons, Nat.pow_succ]
    simp only [UInt8.size] at this
    omega

/-- Every byte string is the little-endian encoding of the number it stands for. -/
theorem leBytes_fromLe (bs : List UInt8) : leBytes bs.length (fromLe bs) = bs := by
  induction bs with
  | nil => rfl
  | cons b bs ih =>
    have := UInt8.toNat_lt_size b
    simp only [UInt8.size] at this
    rw [List.length_cons, leBytes, fromLe, show (b.toNat + 256 * fromLe bs) / 256 = fromLe bs by
      omega, ih]
    congr 1
    exact UInt8.eq_of_val_eq (Fin.ext (show (b.toNat + 256 * fromLe bs) % 256 = b.toNat by omega))

/-- High zero bytes add nothing. -/
theorem fromLe_zeros {zs : List UInt8} (hz : ∀ z ∈ zs, z = 0) : fromLe zs = 0 := by
  induction zs with
  | nil => rfl
  | cons z zs ih =>
    rw [fromLe, hz z (List.mem_cons_self _ _), ih fun z h => hz z (List.mem_cons_of_mem _ h)]
    rfl

theorem fromLe_append_zeros (bs : List UInt8) {zs : List UInt8} (hz : ∀ z ∈ zs, z = 0) :
    fromLe (bs ++ zs) = fromLe bs := by
  induction bs with
  | nil => exact fromLe_zeros hz
  | cons b bs ih => rw [List.cons_append, fromLe, fromLe, ih]

/-! ## The `bytesrepr` primitives -/

/-- `bytesrepr::Error`, and the panic of `I128::from_bytes`, which slices `b[0..16]` without a
length check. -/
inductive BytesError where
  | earlyEndOfStream
  | formatting
  | outOfMemory
  | notRepresentable
  | panicked
  deriving DecidableEq, Repr

/-- `bytesrepr::safe_split_at`. -/
def safeSplitAt (bytes : List UInt8) (n : Nat) : Except BytesError (List UInt8 × List UInt8) :=
  if bytes.length < n then .error .earlyEndOfStream else .ok (bytes.take n, bytes.drop n)

/-- `bytesrepr::allocate_buffer`, for a value of `serializedLength` bytes. -/
def allocateBuffer (serializedLength : Nat) : Except BytesError (List UInt8) :=
  if 2 ^ 32 - 1 < serializedLength then .error .outOfMemory else .ok []

/-- `u8::from_bytes`. -/
def u8FromBytes : List UInt8 → Except BytesError (UInt8 × List UInt8)
  | [] => .error .earlyEndOfStream
  | b :: rem => .ok (b, rem)

/-- `from_bytes` of an unsigned word of `width` bytes. -/
def uintFromBytes (width : Nat) (bytes : List UInt8) : Except BytesError (Nat × List UInt8) := do
  let (b, rem) ← safeSplitAt bytes width
  pure (fromLe b, rem)

/-- `u32::to_bytes`, which never fails. -/
def u32ToBytes (n : Nat) : List UInt8 := leBytes 4 n

/-- `u32::from_bytes`. -/
def u32FromBytes (bytes : List UInt8) : Except BytesError (Nat × List UInt8) :=
  uintFromBytes 4 bytes

/-- `u64::to_bytes`, which never fails. -/
def u64ToBytes (n : Nat) : List UInt8 := leBytes 8 n

/-- `u64::serialized_length`. -/
def u64SerializedLength (_ : Nat) : Nat := 8

/-- `u64::from_bytes`. -/
def u64FromBytes (bytes : List UInt8) : Except BytesError (Nat × List UInt8) :=
  uintFromBytes 8 bytes

/-- The significant bytes of a `U128`: its 16 little-endian bytes without the high zero ones. -/
def u128Digits (n : Nat) : List UInt8 := ((leBytes 16 n).reverse.dropWhile (· == 0)).reverse

/-- `U128::to_bytes`, which never fails: the count of significant bytes, then the bytes. -/
def u128ToBytes (n : Nat) : List UInt8 := (u128Digits n).length.toUInt8 :: u128Digits n

/-- `U128::serialized_length`. -/
def u128SerializedLength (n : Nat) : Nat := 1 + (u128Digits n).length

/-- `U128::from_bytes`. -/
def u128FromBytes (bytes : List UInt8) : Except BytesError (Nat × List UInt8) := do
  let (numBytes, rem) ← u8FromBytes bytes
  if 16 < numBytes.toNat then throw .formatting
  let (value, rem) ← safeSplitAt rem numBytes.toNat
  pure (fromLe value, rem)

/-- `I128::to_bytes`, which never fails: `bits.to_le_bytes()`. -/
def i128ToBytes (x : Int) : List UInt8 := leBytes 16 (x % (2 ^ 128 : Nat)).toNat

/-- `I128::serialized_length`. -/
def i128SerializedLength (_ : Int) : Nat := 16

/-- `I128::from_bytes`: `i128::from_le_bytes` of the first 16 bytes, and the rest. -/
def i128FromBytes (b : List UInt8) : Except BytesError (Int × List UInt8) :=
  if b.length < 16 then .error .panicked else
    let n := fromLe (b.take 16)
    .ok (if n < 2 ^ 127 then (n : Int) else (n : Int) - (2 ^ 128 : Nat), b.drop 16)

/-- `Vec::<u64>::serialized_length`. -/
def u64sSerializedLength (ids : List Nat) : Nat := 4 + 8 * ids.length

/-- `Vec::<u64>::to_bytes`: the count as a `u32`, then each id. -/
def u64sToBytes (ids : List Nat) : Except BytesError (List UInt8) := do
  let result ← allocateBuffer (u64sSerializedLength ids)
  if 2 ^ 32 ≤ ids.length then throw .notRepresentable
  pure (result ++ u32ToBytes ids.length ++ ids.flatMap u64ToBytes)

/-- The loop of `Vec::<u64>::from_bytes`: `count` ids, each read from the rest of the stream. -/
def u64sFromStream : Nat → List UInt8 → Except BytesError (List Nat × List UInt8)
  | 0, stream => .ok ([], stream)
  | count + 1, stream => do
    let (value, rem) ← u64FromBytes stream
    let (values, rem) ← u64sFromStream count rem
    pure (value :: values, rem)

/-- `Vec::<u64>::from_bytes`. -/
def u64sFromBytes (bytes : List UInt8) : Except BytesError (List Nat × List UInt8) := do
  let (count, stream) ← u32FromBytes bytes
  u64sFromStream count stream

/-! ## The records of `vedata.rs` -/

/-- `Point::serialized_length`: twice the bias's length and twice the time's. -/
def Point.serializedLength (p : Point) : Nat :=
  i128SerializedLength p.bias * 2 + u64SerializedLength p.ts * 2

/-- `Point::to_bytes`. -/
def Point.toBytes (p : Point) : Except BytesError (List UInt8) := do
  let result ← allocateBuffer p.serializedLength
  pure (result ++ i128ToBytes p.bias ++ i128ToBytes p.slope ++ u64ToBytes p.ts ++ u64ToBytes p.blk)

/-- `Point::from_bytes`. -/
def Point.fromBytes (bytes : List UInt8) : Except BytesError (Point × List UInt8) := do
  let (bias, rem) ← i128FromBytes bytes
  let (slope, rem) ← i128FromBytes rem
  let (ts, rem) ← u64FromBytes rem
  let (blk, rem) ← u64FromBytes rem
  pure (⟨bias, slope, ts, blk⟩, rem)

/-- `LockedBalance::serialized_length`. -/
def LockedBalance.serializedLength (l : LockedBalance) : Nat :=
  u128SerializedLength l.amount + u64SerializedLength l.lockEnd

/-- `LockedBalance::to_bytes`. -/
def LockedBalance.toBytes (l : LockedBalance) : Except BytesError (List UInt8) := do
  let result ← allocateBuffer l.serializedLength
  pure (result ++ u128ToBytes l.amount ++ u64ToBytes l.lockEnd)

/-- `LockedBalance::from_bytes`. -/
def LockedBalance.fromBytes (bytes : List UInt8) :
    Except BytesError (LockedBalance × List UInt8) := do
  let (amount, rem) ← u128FromBytes bytes
  let (lockEnd, rem) ← u64FromBytes rem
  pure (⟨amount, lockEnd⟩, rem)

/-- `Checkpoint::serialized_length`. -/
def Checkpoint.serializedLength (c : Checkpoint) : Nat :=
  u128SerializedLength c.timestamp + u64sSerializedLength c.tokenIds

/-- `Checkpoint::to_bytes`. -/
def Checkpoint.toBytes (c : Checkpoint) : Except BytesError (List UInt8) := do
  let result ← allocateBuffer c.serializedLength
  let ids ← u64sToBytes c.tokenIds
  pure (result ++ u128ToBytes c.timestamp ++ ids)

/-- `Checkpoint::from_bytes`. -/
def Checkpoint.fromBytes (bytes : List UInt8) : Except BytesError (Checkpoint × List UInt8) := do
  let (timestamp, rem) ← u128FromBytes bytes
  let (tokenIds, rem) ← u64sFromBytes rem
  pure (⟨timestamp, tokenIds⟩, rem)

/-! ## The values of the source's types -/

/-- An `i128`. -/
def InI128 (x : Int) : Prop := -((2 ^ 127 : Nat) : Int) ≤ x ∧ x < ((2 ^ 127 : Nat) : Int)

instance (x : Int) : Decidable (InI128 x) := inferInstanceAs (Decidable (_ ∧ _))

/-- A `Point` of `i128` bias and slope and `u64` time and block. -/
def Point.Fits (p : Point) : Prop := InI128 p.bias ∧ InI128 p.slope ∧ p.ts < 2 ^ 64 ∧ p.blk < 2 ^ 64

instance (p : Point) : Decidable p.Fits := inferInstanceAs (Decidable (_ ∧ _))

/-- A `LockedBalance` of `u128` amount and `u64` end. -/
def LockedBalance.Fits (l : LockedBalance) : Prop := l.amount < 2 ^ 128 ∧ l.lockEnd < 2 ^ 64

instance (l : LockedBalance) : Decidable l.Fits := inferInstanceAs (Decidable (_ ∧ _))

/-- A `Checkpoint` of `u128` time and `u64` ids, whose vector holds at most `isize::MAX` bytes
of the 32-bit target. -/
def Checkpoint.Fits (c : Checkpoint) : Prop :=
  c.timestamp < 2 ^ 128 ∧ (∀ id ∈ c.tokenIds, id < 2 ^ 64) ∧ 8 * c.tokenIds.length ≤ 2 ^ 31 - 1

instance (c : Checkpoint) : Decidable c.Fits := inferInstanceAs (Decidable (_ ∧ _))

/-- `v` encodes, to exactly its serialized length, and decodes back from its encoding followed by
any bytes. -/
def RoundTrips {α : Type} (toBytes : α → Except BytesError (List UInt8))
    (fromBytes : List UInt8 → Except BytesError (α × List UInt8)) (serializedLength : α → Nat)
    (v : α) : Prop :=
  ∃ bytes, toBytes v = .ok bytes ∧ bytes.length = serializedLength v ∧
    ∀ rest, fromBytes (bytes ++ rest) = .ok (v, rest)

/-! ## Reading back each field -/

section Fields

variable (rest : List UInt8)

@[simp] theorem ok_bind_bytes {α β : Type} (a : α) (f : α → Except BytesError β) :
    (Except.ok a : Except BytesError α) >>= f = f a := rfl

@[simp] theorem error_bind_bytes {α β : Type} (e : BytesError) (f : α → Except BytesError β) :
    (Except.error e : Except BytesError α) >>= f = .error e := rfl

@[simp] theorem map_error_bytes {α β : Type} (e : BytesError) (f : α → β) :
    f <$> (Except.error e : Except BytesError α) = .error e := rfl

theorem safeSplitAt_append {bs : List UInt8} {n : Nat} (h : bs.length = n) :
    safeSplitAt (bs ++ rest) n = .ok (bs, rest) := by
  subst h
  simp [safeSplitAt]

theorem uintFromBytes_append {width n : Nat} (h : n < 256 ^ width) :
    uintFromBytes width (leBytes width n ++ rest) = .ok (n, rest) := by
  simp [uintFromBytes, safeSplitAt_append rest (length_leBytes width n),
    fromLe_leBytes_of_lt h, pure, Except.pure]

theorem u64FromBytes_append {n : Nat} (h : n < 2 ^ 64) :
    u64FromBytes (u64ToBytes n ++ rest) = .ok (n, rest) :=
  uintFromBytes_append rest (by simpa using h)

theorem u32FromBytes_append {n : Nat} (h : n < 2 ^ 32) :
    u32FromBytes (u32ToBytes n ++ rest) = .ok (n, rest) :=
  uintFromBytes_append rest (by simpa using h)

theorem fromLe_i128ToBytes (x : Int) :
    (fromLe (i128ToBytes x) : Int) = x % ((2 ^ 128 : Nat) : Int) := by
  have hmod : 0 ≤ x % ((2 ^ 128 : Nat) : Int) := Int.emod_nonneg _ (by norm_num)
  have hlt : x % ((2 ^ 128 : Nat) : Int) < ((2 ^ 128 : Nat) : Int) :=
    Int.emod_lt_of_pos _ (by norm_num)
  have hpow : (256 : Nat) ^ 16 = 2 ^ 128 := by norm_num
  have hb : (x % ((2 ^ 128 : Nat) : Int)).toNat < 256 ^ 16 := by rw [hpow]; omega
  unfold i128ToBytes
  rw [fromLe_leBytes_of_lt hb]
  exact Int.toNat_of_nonneg hmod

theorem i128FromBytes_append {x : Int} (h : InI128 x) :
    i128FromBytes (i128ToBytes x ++ rest) = .ok (x, rest) := by
  have hval := fromLe_i128ToBytes x
  have hlen : (i128ToBytes x).length = 16 := length_leBytes _ _
  rw [i128FromBytes, if_neg (by simp [hlen]), List.take_left' hlen, List.drop_left' hlen]
  obtain ⟨h₁, h₂⟩ := h
  have hx : (if fromLe (i128ToBytes x) < 2 ^ 127 then (fromLe (i128ToBytes x) : Int)
      else (fromLe (i128ToBytes x) : Int) - ((2 ^ 128 : Nat) : Int)) = x := by
    norm_num at h₁ h₂ hval ⊢
    split <;> omega
  exact congrArg (fun v => Except.ok (v, rest)) hx

/-- The significant bytes stand for the number and are at most 16. -/
theorem fromLe_u128Digits (n : Nat) :
    fromLe (u128Digits n) = n % 2 ^ 128 ∧ (u128Digits n).length ≤ 16 := by
  set zs := ((leBytes 16 n).reverse.takeWhile (· == 0)).reverse
  have hzero : ∀ z ∈ zs, z = 0 := fun z hz => by
    simpa using List.all_eq_true.1 List.all_takeWhile z (List.mem_reverse.1 hz)
  have hl : leBytes 16 n = u128Digits n ++ zs := by
    rw [u128Digits, ← List.reverse_append, List.takeWhile_append_dropWhile, List.reverse_reverse]
  constructor
  · rw [← fromLe_append_zeros _ hzero, ← hl, fromLe_leBytes]
    rfl
  · have := congrArg List.length hl
    simp only [List.length_append, length_leBytes] at this
    omega

theorem u128FromBytes_append {n : Nat} (h : n < 2 ^ 128) :
    u128FromBytes (u128ToBytes n ++ rest) = .ok (n, rest) := by
  obtain ⟨hval, hlen⟩ := fromLe_u128Digits n
  have hbyte : (u128Digits n).length.toUInt8.toNat = (u128Digits n).length :=
    Nat.mod_eq_of_lt (by omega)
  simp only [u128FromBytes, u128ToBytes, List.cons_append, u8FromBytes, ok_bind_bytes, hbyte,
    if_neg (show ¬16 < (u128Digits n).length by omega), safeSplitAt_append rest rfl, hval,
    Nat.mod_eq_of_lt h]
  rfl

/-- A list of `u64` ids is read back from its elements' bytes. -/
theorem u64sFromStream_append (ids : List Nat) (h : ∀ id ∈ ids, id < 2 ^ 64) :
    u64sFromStream ids.length (ids.flatMap u64ToBytes ++ rest) = .ok (ids, rest) := by
  induction ids with
  | nil => rfl
  | cons id ids ih =>
    simp only [List.length_cons, List.flatMap_cons, List.append_assoc, u64sFromStream,
      u64FromBytes_append _ (h id (List.mem_cons_self _ _)), ok_bind_bytes,
      ih fun id' hid' => h id' (List.mem_cons_of_mem _ hid')]
    rfl

end Fields

/-! ## Round trips -/

theorem Point.roundTrips {p : Point} (h : p.Fits) :
    RoundTrips Point.toBytes Point.fromBytes Point.serializedLength p := by
  obtain ⟨hb, hs, ht, hk⟩ := h
  refine ⟨_, rfl, by simp [Point.serializedLength, i128SerializedLength, u64SerializedLength,
    i128ToBytes, u64ToBytes], fun rest => ?_⟩
  simp only [Point.fromBytes, List.nil_append, List.append_assoc, i128FromBytes_append _ hb,
    i128FromBytes_append _ hs, u64FromBytes_append _ ht, u64FromBytes_append _ hk, ok_bind_bytes]
  rfl

theorem allocateBuffer_of_le {len : Nat} (h : len ≤ 2 ^ 32 - 1) : allocateBuffer len = .ok [] :=
  if_neg (Nat.not_lt.2 h)

theorem length_flatMap_u64ToBytes (ids : List Nat) :
    (ids.flatMap u64ToBytes).length = 8 * ids.length := by
  induction ids with
  | nil => rfl
  | cons id ids ih => simp only [List.flatMap_cons, List.length_append, ih, u64ToBytes,
      length_leBytes, List.length_cons]; omega

theorem LockedBalance.roundTrips {l : LockedBalance} (h : l.Fits) :
    RoundTrips LockedBalance.toBytes LockedBalance.fromBytes LockedBalance.serializedLength l := by
  obtain ⟨ha, he⟩ := h
  have hlen := (fromLe_u128Digits l.amount).2
  refine ⟨u128ToBytes l.amount ++ u64ToBytes l.lockEnd, ?_, ?_, fun rest => ?_⟩
  · rw [LockedBalance.toBytes, allocateBuffer_of_le (by
      simp only [LockedBalance.serializedLength, u128SerializedLength, u64SerializedLength]
      omega)]
    rfl
  · simp only [List.length_append, u128ToBytes, List.length_cons, u64ToBytes, length_leBytes,
      LockedBalance.serializedLength, u128SerializedLength, u64SerializedLength]
    omega
  · simp only [LockedBalance.fromBytes, List.append_assoc, u128FromBytes_append _ ha,
      u64FromBytes_append _ he, ok_bind_bytes]
    rfl

theorem Checkpoint.roundTrips {c : Checkpoint} (h : c.Fits) :
    RoundTrips Checkpoint.toBytes Checkpoint.fromBytes Checkpoint.serializedLength c := by
  obtain ⟨ht, hids, hsize⟩ := h
  have hlen := (fromLe_u128Digits c.timestamp).2
  have hcount : c.tokenIds.length < 2 ^ 32 := by omega
  refine ⟨u128ToBytes c.timestamp ++
      (u32ToBytes c.tokenIds.length ++ c.tokenIds.flatMap u64ToBytes),
    ?_, ?_, fun rest => ?_⟩
  · rw [Checkpoint.toBytes, allocateBuffer_of_le (by
      simp only [Checkpoint.serializedLength, u128SerializedLength, u64sSerializedLength]; omega)]
    simp only [ok_bind_bytes, u64sToBytes, u64sSerializedLength, allocateBuffer_of_le
      (show 4 + 8 * c.tokenIds.length ≤ 2 ^ 32 - 1 by omega), if_neg (Nat.not_le.2 hcount)]
    rfl
  · simp only [List.length_append, u128ToBytes, List.length_cons, u32ToBytes, length_leBytes,
      length_flatMap_u64ToBytes, Checkpoint.serializedLength, u128SerializedLength,
      u64sSerializedLength]
    omega
  · simp only [Checkpoint.fromBytes, List.append_assoc, u128FromBytes_append _ ht, ok_bind_bytes,
      u64sFromBytes, u32FromBytes_append _ hcount, u64sFromStream_append _ _ hids]
    rfl

/-- **The stored records round-trip.** Every `Point`, `LockedBalance`, `Checkpoint` and `I128` of
the source's types encodes to exactly its serialized length, `48` bytes for a `Point` and `16` for
an `I128`, and decodes back from its encoding followed by any bytes, leaving those bytes. -/
theorem records_roundTrip :
    (∀ p : Point, p.Fits →
      RoundTrips Point.toBytes Point.fromBytes Point.serializedLength p ∧ p.serializedLength = 48) ∧
    (∀ l : LockedBalance, l.Fits →
      RoundTrips LockedBalance.toBytes LockedBalance.fromBytes LockedBalance.serializedLength l) ∧
    (∀ c : Checkpoint, c.Fits →
      RoundTrips Checkpoint.toBytes Checkpoint.fromBytes Checkpoint.serializedLength c) ∧
    (∀ x : Int, InI128 x →
      RoundTrips (fun x => .ok (i128ToBytes x)) i128FromBytes i128SerializedLength x ∧
        i128SerializedLength x = 16) :=
  ⟨fun _ h => ⟨Point.roundTrips h, rfl⟩, fun _ => LockedBalance.roundTrips,
    fun _ => Checkpoint.roundTrips,
    fun _ h => ⟨⟨_, rfl, length_leBytes _ _, fun rest => i128FromBytes_append rest h⟩, rfl⟩⟩

theorem records_roundTrip_samples :
    ((⟨-1, 7, week, 100⟩ : Point).Fits ∧
      RoundTrips Point.toBytes Point.fromBytes Point.serializedLength
        ⟨-1, 7, week, 100⟩) ∧
    ((⟨300, 3 * week⟩ : LockedBalance).Fits ∧
      RoundTrips LockedBalance.toBytes LockedBalance.fromBytes LockedBalance.serializedLength
        ⟨300, 3 * week⟩) ∧
    ((⟨0, [1, 2 ^ 64 - 1]⟩ : Checkpoint).Fits ∧
      RoundTrips Checkpoint.toBytes Checkpoint.fromBytes Checkpoint.serializedLength
        ⟨0, [1, 2 ^ 64 - 1]⟩) ∧
    (InI128 (-((2 ^ 127 : Nat) : Int)) ∧
      RoundTrips (fun x => .ok (i128ToBytes x)) i128FromBytes i128SerializedLength
        (-((2 ^ 127 : Nat) : Int))) := by
  have hp : (⟨-1, 7, week, 100⟩ : Point).Fits := by decide
  have hl : (⟨300, 3 * week⟩ : LockedBalance).Fits := by decide
  have hc : (⟨0, [1, 2 ^ 64 - 1]⟩ : Checkpoint).Fits := by decide
  have hx : InI128 (-((2 ^ 127 : Nat) : Int)) := by decide
  exact ⟨⟨hp, (records_roundTrip.1 _ hp).1⟩, ⟨hl, records_roundTrip.2.1 _ hl⟩,
    ⟨hc, records_roundTrip.2.2.1 _ hc⟩, ⟨hx, (records_roundTrip.2.2.2 _ hx).1⟩⟩

/-! ## Short inputs -/

section Short

variable {b : List UInt8}

theorem i128FromBytes_of_lt (h : b.length < 16) : i128FromBytes b = .error .panicked := by
  rw [i128FromBytes, if_pos h]

/-- On 16 bytes or more, `I128::from_bytes` reads the `i128` whose little-endian bytes are the
first 16. -/
theorem i128FromBytes_of_le (h : 16 ≤ b.length) :
    ∃ x, InI128 x ∧ i128ToBytes x = b.take 16 ∧ i128FromBytes b = .ok (x, b.drop 16) := by
  have hlen : (b.take 16).length = 16 := by simp [h]
  have hlt : fromLe (b.take 16) < 2 ^ 128 := by
    have := fromLe_lt (b.take 16); rwa [hlen, show (256 : Nat) ^ 16 = 2 ^ 128 by norm_num] at this
  refine ⟨_, ?_, ?_, by rw [i128FromBytes, if_neg (by omega)]⟩
  · unfold InI128; push_cast; split <;> omega
  · have hb : leBytes 16 (fromLe (b.take 16)) = b.take 16 := by
      simpa only [hlen] using leBytes_fromLe (b.take 16)
    refine (congrArg (leBytes 16) ?_).trans hb
    rw [← Int.ofNat_inj, Int.toNat_of_nonneg (Int.emod_nonneg _ (by norm_num))]
    push_cast
    split <;> omega

theorem u64FromBytes_of_lt (h : b.length < 8) : u64FromBytes b = .error .earlyEndOfStream := by
  simp [u64FromBytes, uintFromBytes, safeSplitAt, h]

theorem u64FromBytes_of_le (h : 8 ≤ b.length) :
    u64FromBytes b = .ok (fromLe (b.take 8), b.drop 8) := by
  simp [u64FromBytes, uintFromBytes, safeSplitAt, not_lt.2 h, pure, Except.pure]

theorem Point.fromBytes_of_lt (h : b.length < 32) : Point.fromBytes b = .error .panicked := by
  rcases Nat.lt_or_ge b.length 16 with h₁ | h₁
  · simp [Point.fromBytes, i128FromBytes_of_lt h₁]
  · obtain ⟨x, -, -, hx⟩ := i128FromBytes_of_le h₁
    simp [Point.fromBytes, hx, i128FromBytes_of_lt (show (b.drop 16).length < 16 by simp; omega)]

theorem Point.fromBytes_of_le_of_lt (h₁ : 32 ≤ b.length) (h₂ : b.length < 48) :
    Point.fromBytes b = .error .earlyEndOfStream := by
  obtain ⟨x, -, -, hx⟩ := i128FromBytes_of_le (show 16 ≤ b.length by omega)
  obtain ⟨y, -, -, hy⟩ := i128FromBytes_of_le (show 16 ≤ (b.drop 16).length by simp; omega)
  simp only [Point.fromBytes, hx, hy, ok_bind_bytes, List.drop_drop]
  rcases Nat.lt_or_ge b.length 40 with h₃ | h₃
  · rw [u64FromBytes_of_lt (by simp; omega)]; rfl
  · rw [u64FromBytes_of_le (by simp; omega), ok_bind_bytes, List.drop_drop,
      u64FromBytes_of_lt (by simp; omega)]
    rfl

end Short

/-- `fromBytes` read `v` from a prefix of `b`, followed by `rest`, and reads `v` from that prefix
followed by any bytes, leaving those bytes. -/
def ReadsPrefix {α : Type} (fromBytes : List UInt8 → Except BytesError (α × List UInt8))
    (b : List UInt8) (v : α) (rest : List UInt8) : Prop :=
  ∃ pre, b = pre ++ rest ∧ ∀ rest', fromBytes (pre ++ rest') = .ok (v, rest')

section Accepted

variable {b rest : List UInt8}

theorem bind_eq_ok_bytes {α β : Type} {x : Except BytesError α} {f : α → Except BytesError β}
    {y : β} : x >>= f = .ok y ↔ ∃ a, x = .ok a ∧ f a = .ok y := by
  cases x <;> simp [bind, Except.bind]

theorem safeSplitAt_ok {n : Nat} {pre : List UInt8} (h : safeSplitAt b n = .ok (pre, rest)) :
    pre.length = n ∧ b = pre ++ rest := by
  unfold safeSplitAt at h
  split at h
  · cases h
  · simp only [Except.ok.injEq, Prod.mk.injEq] at h
    obtain ⟨rfl, rfl⟩ := h
    exact ⟨by simp; omega, (List.take_append_drop n b).symm⟩

theorem uintFromBytes_ok {width n : Nat} (h : uintFromBytes width b = .ok (n, rest)) :
    n < 256 ^ width ∧ b = leBytes width n ++ rest := by
  obtain ⟨⟨pre, r⟩, hs, h⟩ := bind_eq_ok_bytes.1 h
  simp only [pure, Except.pure, Except.ok.injEq, Prod.mk.injEq] at h
  obtain ⟨rfl, rfl⟩ := h
  obtain ⟨rfl, rfl⟩ := safeSplitAt_ok hs
  exact ⟨fromLe_lt pre, by rw [leBytes_fromLe]⟩

theorem u64FromBytes_ok {n : Nat} (h : u64FromBytes b = .ok (n, rest)) :
    n < 2 ^ 64 ∧ b = u64ToBytes n ++ rest := by
  simpa using uintFromBytes_ok h

theorem u32FromBytes_ok {n : Nat} (h : u32FromBytes b = .ok (n, rest)) :
    n < 2 ^ 32 ∧ b = u32ToBytes n ++ rest := by
  simpa using uintFromBytes_ok h

theorem i128FromBytes_ok {x : Int} (h : i128FromBytes b = .ok (x, rest)) :
    InI128 x ∧ b = i128ToBytes x ++ rest := by
  rcases Nat.lt_or_ge b.length 16 with hl | hl
  · rw [i128FromBytes_of_lt hl] at h; cases h
  · obtain ⟨y, hy, henc, hb⟩ := i128FromBytes_of_le hl
    rw [hb, Except.ok.injEq, Prod.mk.injEq] at h
    obtain ⟨rfl, rfl⟩ := h
    exact ⟨hy, by rw [henc, List.take_append_drop]⟩

/-- A `U128` is read from its count byte and that many bytes, at most 16. -/
theorem u128FromBytes_ok {n : Nat} (h : u128FromBytes b = .ok (n, rest)) :
    n < 2 ^ 128 ∧ ReadsPrefix u128FromBytes b n rest := by
  obtain ⟨⟨k, r⟩, hk, h⟩ := bind_eq_ok_bytes.1 h
  cases b with
  | nil => cases hk
  | cons byte bs =>
    simp only [u8FromBytes, Except.ok.injEq, Prod.mk.injEq] at hk
    obtain ⟨rfl, rfl⟩ := hk
    dsimp only at h
    split at h
    · cases h
    rename_i h16
    obtain ⟨-, -, h⟩ := bind_eq_ok_bytes.1 h
    obtain ⟨⟨value, r⟩, hs, h⟩ := bind_eq_ok_bytes.1 h
    simp only [pure, Except.pure, Except.ok.injEq, Prod.mk.injEq] at h
    obtain ⟨rfl, rfl⟩ := h
    obtain ⟨hlen, rfl⟩ := safeSplitAt_ok hs
    refine ⟨?_, byte :: value, rfl, fun rest' => ?_⟩
    · calc fromLe value < 256 ^ value.length := fromLe_lt value
        _ ≤ 256 ^ 16 := Nat.pow_le_pow_right (by norm_num) (by omega)
        _ = 2 ^ 128 := by norm_num
    · simp only [u128FromBytes, List.cons_append, u8FromBytes, ok_bind_bytes, if_neg h16,
        safeSplitAt_append rest' hlen]
      rfl

/-- The ids of a vector are read from `8` bytes each. -/
theorem u64sFromStream_ok {count : Nat} {ids : List Nat}
    (h : u64sFromStream count b = .ok (ids, rest)) :
    ids.length = count ∧ (∀ id ∈ ids, id < 2 ^ 64) ∧ b = ids.flatMap u64ToBytes ++ rest := by
  induction count generalizing b ids with
  | zero =>
    simp only [u64sFromStream, Except.ok.injEq, Prod.mk.injEq] at h
    obtain ⟨rfl, rfl⟩ := h
    simp
  | succ count ih =>
    obtain ⟨⟨v, r⟩, hv, h⟩ := bind_eq_ok_bytes.1 h
    obtain ⟨⟨vs, r'⟩, hvs, h⟩ := bind_eq_ok_bytes.1 h
    simp only [pure, Except.pure, Except.ok.injEq, Prod.mk.injEq] at h
    obtain ⟨rfl, rfl⟩ := h
    obtain ⟨hlt, rfl⟩ := u64FromBytes_ok hv
    obtain ⟨hlen, hids, rfl⟩ := ih hvs
    exact ⟨by simp [hlen], List.forall_mem_cons.2 ⟨hlt, hids⟩, by simp⟩

theorem Point.fromBytes_ok {p : Point} (h : Point.fromBytes b = .ok (p, rest)) :
    p.Fits ∧ ∃ pre, Point.toBytes p = .ok pre ∧ b = pre ++ rest := by
  obtain ⟨⟨bias, r₁⟩, h₁, h⟩ := bind_eq_ok_bytes.1 h
  obtain ⟨⟨slope, r₂⟩, h₂, h⟩ := bind_eq_ok_bytes.1 h
  obtain ⟨⟨ts, r₃⟩, h₃, h⟩ := bind_eq_ok_bytes.1 h
  obtain ⟨⟨blk, r₄⟩, h₄, h⟩ := bind_eq_ok_bytes.1 h
  simp only [pure, Except.pure, Except.ok.injEq, Prod.mk.injEq] at h
  obtain ⟨rfl, rfl⟩ := h
  obtain ⟨hb, rfl⟩ := i128FromBytes_ok h₁
  obtain ⟨hs, rfl⟩ := i128FromBytes_ok h₂
  obtain ⟨ht, rfl⟩ := u64FromBytes_ok h₃
  obtain ⟨hk, rfl⟩ := u64FromBytes_ok h₄
  exact ⟨⟨hb, hs, ht, hk⟩, _, rfl, by simp⟩

theorem LockedBalance.fromBytes_ok {l : LockedBalance}
    (h : LockedBalance.fromBytes b = .ok (l, rest)) :
    l.Fits ∧ ReadsPrefix LockedBalance.fromBytes b l rest := by
  obtain ⟨⟨amount, r₁⟩, h₁, h⟩ := bind_eq_ok_bytes.1 h
  obtain ⟨⟨lockEnd, r₂⟩, h₂, h⟩ := bind_eq_ok_bytes.1 h
  simp only [pure, Except.pure, Except.ok.injEq, Prod.mk.injEq] at h
  obtain ⟨rfl, rfl⟩ := h
  obtain ⟨ha, pre, rfl, hpre⟩ := u128FromBytes_ok h₁
  obtain ⟨he, rfl⟩ := u64FromBytes_ok h₂
  refine ⟨⟨ha, he⟩, pre ++ u64ToBytes lockEnd, by simp, fun rest' => ?_⟩
  simp only [LockedBalance.fromBytes, List.append_assoc, hpre, ok_bind_bytes,
    u64FromBytes_append _ he]
  rfl

theorem Checkpoint.fromBytes_ok {c : Checkpoint} (h : Checkpoint.fromBytes b = .ok (c, rest)) :
    c.timestamp < 2 ^ 128 ∧ (∀ id ∈ c.tokenIds, id < 2 ^ 64) ∧ c.tokenIds.length < 2 ^ 32 ∧
      ReadsPrefix Checkpoint.fromBytes b c rest := by
  obtain ⟨⟨timestamp, r₁⟩, h₁, h⟩ := bind_eq_ok_bytes.1 h
  obtain ⟨⟨ids, r₂⟩, h₂, h⟩ := bind_eq_ok_bytes.1 h
  simp only [pure, Except.pure, Except.ok.injEq, Prod.mk.injEq] at h
  obtain ⟨rfl, rfl⟩ := h
  obtain ⟨hts, pre, rfl, hpre⟩ := u128FromBytes_ok h₁
  obtain ⟨⟨count, r₃⟩, hc, hs⟩ := bind_eq_ok_bytes.1 h₂
  obtain ⟨hcount, rfl⟩ := u32FromBytes_ok hc
  obtain ⟨rfl, hids, rfl⟩ := u64sFromStream_ok hs
  refine ⟨hts, hids, hcount, pre ++ (u32ToBytes ids.length ++ ids.flatMap u64ToBytes), by simp,
    fun rest' => ?_⟩
  simp only [Checkpoint.fromBytes, List.append_assoc, hpre, ok_bind_bytes, u64sFromBytes,
    u32FromBytes_append _ hcount, u64sFromStream_append _ _ hids]
  rfl

end Accepted

/-- **What the decoders accept is well formed and self-delimiting.** Every `Point` that
`Point::from_bytes` accepts is of the source's types, and the bytes it consumed are exactly its
encoding. Every `LockedBalance` and `Checkpoint` accepted has a `u128` amount or time, `u64` ids
and end, and fewer than `2^32` ids, and is read from a prefix of the stream that alone determines
it: that prefix followed by any bytes reads the same value and leaves those bytes. -/
theorem records_decode_sound :
    (∀ b p rest, Point.fromBytes b = .ok (p, rest) →
      p.Fits ∧ ∃ pre, Point.toBytes p = .ok pre ∧ b = pre ++ rest) ∧
    (∀ b l rest, LockedBalance.fromBytes b = .ok (l, rest) →
      l.Fits ∧ ReadsPrefix LockedBalance.fromBytes b l rest) ∧
    (∀ b c rest, Checkpoint.fromBytes b = .ok (c, rest) →
      c.timestamp < 2 ^ 128 ∧ (∀ id ∈ c.tokenIds, id < 2 ^ 64) ∧ c.tokenIds.length < 2 ^ 32 ∧
        ReadsPrefix Checkpoint.fromBytes b c rest) :=
  ⟨fun _ _ _ => Point.fromBytes_ok, fun _ _ _ => LockedBalance.fromBytes_ok,
    fun _ _ _ => Checkpoint.fromBytes_ok⟩

/-- Forty-eight zero bytes are the point at the origin; `[2, 5, 0]` is a `U128` of `5` with a
high zero byte, accepted though `U128::to_bytes` writes `[1, 5]`. -/
theorem records_decode_sound_samples :
    (Point.fromBytes (List.replicate 48 0) = .ok (⟨0, 0, 0, 0⟩, []) ∧
      (Point.Fits ⟨0, 0, 0, 0⟩ ∧ ∃ pre, Point.toBytes ⟨0, 0, 0, 0⟩ = .ok pre ∧
        List.replicate 48 0 = pre ++ [])) ∧
    (LockedBalance.fromBytes ([2, 5, 0] ++ List.replicate 8 0) = .ok (⟨5, 0⟩, []) ∧
      (LockedBalance.Fits ⟨5, 0⟩ ∧
        ReadsPrefix LockedBalance.fromBytes ([2, 5, 0] ++ List.replicate 8 0) ⟨5, 0⟩ [])) ∧
    (Checkpoint.fromBytes ([0, 1, 0, 0, 0, 7] ++ List.replicate 7 0) = .ok (⟨0, [7]⟩, []) ∧
      ((⟨0, [7]⟩ : Checkpoint).timestamp < 2 ^ 128 ∧
        (∀ id ∈ (⟨0, [7]⟩ : Checkpoint).tokenIds, id < 2 ^ 64) ∧
        (⟨0, [7]⟩ : Checkpoint).tokenIds.length < 2 ^ 32 ∧
        ReadsPrefix Checkpoint.fromBytes ([0, 1, 0, 0, 0, 7] ++ List.replicate 7 0) ⟨0, [7]⟩ [])) :=
  have hp : Point.fromBytes (List.replicate 48 0) = .ok (⟨0, 0, 0, 0⟩, []) := rfl
  have hl : LockedBalance.fromBytes ([2, 5, 0] ++ List.replicate 8 0) = .ok (⟨5, 0⟩, []) := rfl
  have hc : Checkpoint.fromBytes ([0, 1, 0, 0, 0, 7] ++ List.replicate 7 0) =
      .ok (⟨0, [7]⟩, []) := rfl
  ⟨⟨hp, records_decode_sound.1 _ _ _ hp⟩, ⟨hl, records_decode_sound.2.1 _ _ _ hl⟩,
    ⟨hc, records_decode_sound.2.2 _ _ _ hc⟩⟩

end VotingEscrow
