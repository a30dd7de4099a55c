import QtGrpc.Library.ByteOrder
import QtGrpc.Protobuf.Scalar

/-!
# Reading scalars off the wire

The self-checking iterator over the decoded view and the readers of single values, of packed
lists and of elements of unpacked lists. A reader returns where it left the iterator even if it
failed.
-/

namespace QtGrpc.Protobuf.Binary

/-- `QProtobufSelfcheckIterator`. The position counts from the begin of the container and may lie
outside of it. -/
structure Iterator where
  container : Bytes
  position : Int
deriving DecidableEq, Repr

namespace Iterator

/-- `fromView`. -/
def fromView (container : Bytes) : Iterator := ⟨container, 0⟩

def isValid (it : Iterator) : Bool := 0 ≤ it.position && it.position ≤ it.container.length

/-- `operator+=`; an invalid iterator stays where it is. -/
def advance (it : Iterator) (count : Int) : Iterator :=
  if it.isValid then { it with position := it.position + count } else it

/-- The bytes from a valid iterator to the end of its container. -/
def rest (it : Iterator) : Bytes :=
  if it.isValid then it.container.drop it.position.toNat else []

/-- `bytesLeft`. -/
def bytesLeft (it : Iterator) : Nat := it.rest.length

/-- Moving an iterator does not change what it goes through. -/
@[simp] theorem container_advance (it : Iterator) (count : Int) :
    (it.advance count).container = it.container := by
  unfold advance
  split <;> rfl

/-- An iterator is valid from the begin of its container to the end, which it may be at. -/
theorem isValid_iff (it : Iterator) :
    it.isValid = true ↔ 0 ≤ it.position ∧ it.position ≤ it.container.length := by
  simp [isValid]

/-- A new iterator is valid. -/
theorem isValid_fromView (container : Bytes) : (fromView container).isValid := by
  simp [isValid, fromView]

/-- A valid iterator moves by the count, whatever that is. -/
theorem position_advance {it : Iterator} (h : it.isValid) (count : Int) :
    (it.advance count).position = it.position + count := by
  simp [advance, h]

/-- The bytes left of a valid iterator are those up to the end. -/
theorem bytesLeft_of_isValid {it : Iterator} (h : it.isValid) :
    (it.bytesLeft : Int) = it.container.length - it.position := by
  have hv := it.isValid_iff.mp h
  simp only [bytesLeft, rest, h, if_true, List.length_drop]
  omega

/-- No bytes are left where the iterator is not valid. -/
theorem bytesLeft_of_not_isValid {it : Iterator} (h : it.isValid = false) : it.bytesLeft = 0 := by
  simp [bytesLeft, rest, h]

/-- Where bytes are left, the iterator is valid. -/
theorem isValid_of_bytesLeft {it : Iterator} (h : it.bytesLeft ≠ 0) : it.isValid := by
  by_contra hv
  exact h (bytesLeft_of_not_isValid (by simpa using hv))

/-- Within the bytes that are left the iterator stays valid. -/
theorem isValid_advance {it : Iterator} (h : it.isValid) {n : Nat} (hn : n ≤ it.bytesLeft) :
    (it.advance n).isValid := by
  have hv := it.isValid_iff.mp h
  have hl := bytesLeft_of_isValid h
  rw [isValid_iff, position_advance h, container_advance]
  omega

/-- Moving on within the bytes that are left drops them. -/
theorem rest_advance {it : Iterator} (h : it.isValid) {n : Nat} (hn : n ≤ it.bytesLeft) :
    (it.advance n).rest = it.rest.drop n := by
  have hv := it.isValid_iff.mp h
  have ha := isValid_advance h hn
  simp only [rest, ha, h, if_true, position_advance h, container_advance, List.drop_drop]
  congr 1
  omega

end Iterator

/-- The shift of a payload byte in a varint. -/
def shiftByte (env : Environment) (byte : UInt8) (k : Nat) : BitVec 64 :=
  let bits := BitVec.setWidth 64 (byte &&& 0x7f).toBitVec
  if k < 64 then bits <<< k else env.overShift bits k

/-- The top bit of a byte says that the varint goes on. -/
def continues (byte : UInt8) : Bool := byte &&& 0x80 != 0

/-- The loop of `deserializeVarintCommon`: how many bytes it took, and the value if it found the
last byte of the varint. -/
def varintLoop (env : Environment) (k : Nat) (value : BitVec 64) :
    Bytes → Nat × Option (BitVec 64)
  | [] => (0, none)
  | byte :: rest =>
    let value := value + shiftByte env byte k
    if continues byte then
      let (n, result) := varintLoop env (k + 7) value rest
      (n + 1, result)
    else (1, some value)

/-- `deserializeVarintCommon`, before its result is narrowed to the type asked for. -/
def deserializeVarintCommon (env : Environment) (it : Iterator) : Iterator × Option (BitVec 64) :=
  let (n, result) := varintLoop env 0 0 it.rest
  (it.advance n, result)

/-- The signed number of a zig-zag encoded one. -/
def zigZagDecode {w : Nat} (value : BitVec w) : BitVec w := (value >>> 1) ^^^ (-(value &&& 1))

/-- The value of a scalar type that is read as a varint. -/
def ofVarint : (k : ScalarKind) → BitVec 64 → k.Carrier
  | .int32, v | .uint32, v => BitVec.setWidth 32 v
  | .int64, v | .uint64, v => v
  | .sint32, v => zigZagDecode (BitVec.setWidth 32 v)
  | .sint64, v => zigZagDecode v
  | .boolean, v => decide (v ≠ 0)
  | k, _ => k.zero

/-- The value of a scalar type whose bytes lie in the buffer as in memory. -/
def ofFixed : (k : ScalarKind) → Bytes → k.Carrier
  | .fixed32, bytes | .sfixed32, bytes | .float, bytes =>
    BitVec.ofNat 32 (ByteOrder.ofLittleEndian bytes)
  | .fixed64, bytes | .sfixed64, bytes | .double, bytes =>
    BitVec.ofNat 64 (ByteOrder.ofLittleEndian bytes)
  | k, _ => k.zero

/-- The value of a length-delimited scalar type. -/
def ofDelimited (env : Environment) : (k : ScalarKind) → Bytes → k.Carrier
  | .string, bytes => env.fromUtf8 bytes
  | .bytes, bytes => bytes
  | k, _ => k.zero

/-- No `QByteArray` is longer. -/
def maxByteArraySize : Nat := 2 ^ 63 - 1

/-- `deserializeLengthDelimited`. -/
def deserializeLengthDelimited (env : Environment) (it : Iterator) : Iterator × Option Bytes :=
  if it.bytesLeft ≠ 0 then
    match deserializeVarintCommon env it with
    | (it, none) => (it, none)
    | (it, some length) =>
      if it.isValid ∧ length.toNat ≤ it.bytesLeft ∧ length.toNat ≤ maxByteArraySize then
        (it.advance length.toNat, some (it.rest.take length.toNat))
      else (it, none)
  else (it, none)

/-- `deserializeBasic` of a fixed-width type. -/
def deserializeFixed (size : Nat) (it : Iterator) : Iterator × Option Bytes :=
  if it.bytesLeft < size then (it, none) else (it.advance size, some (it.rest.take size))

/-- `deserializeBasic`, with the overload that belongs to the scalar type. -/
def deserializeBasic (env : Environment) (k : ScalarKind) (it : Iterator) :
    Iterator × Option k.Carrier :=
  match k.wireType with
  | .varint => Prod.map id (Option.map (ofVarint k)) (deserializeVarintCommon env it)
  | .fixed32 => Prod.map id (Option.map (ofFixed k)) (deserializeFixed 4 it)
  | .fixed64 => Prod.map id (Option.map (ofFixed k)) (deserializeFixed 8 it)
  | .lengthDelimited =>
    Prod.map id (Option.map (ofDelimited env k)) (deserializeLengthDelimited env it)

/-- The loop of `deserializeList`. Every element takes a byte at least, and none is read where no
byte is left, so that the bytes left bound the iterations. -/
def listLoop (env : Environment) (k : ScalarKind) (lastVarint : Int) :
    Nat → Iterator → List k.Carrier → Iterator × Option (List k.Carrier)
  | 0, it, out => (it, if it.position = lastVarint then some out else none)
  | n + 1, it, out =>
    if it.position = lastVarint then (it, some out)
    else match deserializeBasic env k it with
      | (it, none) => (it, none)
      | (it, some v) => listLoop env k lastVarint n it (out ++ [v])

/-- `deserializeList`. -/
def deserializeList (env : Environment) (k : ScalarKind) (it : Iterator) :
    Iterator × Option (List k.Carrier) :=
  match deserializeVarintCommon env it with
  | (it, none) => (it, none)
  | (it, some count) =>
    if count.toNat > 2 ^ 63 - 1 then (it, none)
    else
      let lastVarint := it.advance count.toNat
      if lastVarint.isValid then listLoop env k lastVarint.position it.bytesLeft it []
      else (it, none)

/-- `deserializeNonPackedList`: one element is appended. -/
def deserializeNonPackedList (env : Environment) (k : ScalarKind) (it : Iterator)
    (out : List k.Carrier) : Iterator × Option (List k.Carrier) :=
  Prod.map id (Option.map fun v => out ++ [v]) (deserializeBasic env k it)

/-! ## How far the readers move -/

/-- The iterator moved over some of the bytes that were left. -/
def Reads (it it' : Iterator) : Prop := ∃ n ≤ it.bytesLeft, it' = it.advance n

namespace Reads

/-- Reading nothing. -/
theorem refl (it : Iterator) : Reads it it := by
  refine ⟨0, Nat.zero_le _, ?_⟩
  simp [Iterator.advance]

/-- A reader leaves a valid iterator valid. -/
theorem isValid {it it' : Iterator} (h : Reads it it') (hv : it.isValid) : it'.isValid := by
  obtain ⟨n, hn, rfl⟩ := h
  exact Iterator.isValid_advance hv hn

/-- A reader stays in the container. -/
theorem container {it it' : Iterator} (h : Reads it it') : it'.container = it.container := by
  obtain ⟨n, -, rfl⟩ := h
  exact it.container_advance n

/-- The bytes left and the distance moved add up. -/
theorem bytesLeft_add {it it' : Iterator} (h : Reads it it') :
    (it'.bytesLeft : Int) + it'.position = it.bytesLeft + it.position := by
  by_cases hv : it.isValid
  · have hl := Iterator.bytesLeft_of_isValid hv
    have hl' := Iterator.bytesLeft_of_isValid (h.isValid hv)
    rw [h.container] at hl'
    omega
  · obtain ⟨n, hn, rfl⟩ := h
    simp [Iterator.advance, hv]

/-- A reader does not move back. -/
theorem position_le {it it' : Iterator} (h : Reads it it') : it.position ≤ it'.position := by
  obtain ⟨n, hn, rfl⟩ := h
  unfold Iterator.advance
  split
  · simp
  · exact le_refl _

/-- A reader leaves no more bytes than there were. -/
theorem bytesLeft_le {it it' : Iterator} (h : Reads it it') : it'.bytesLeft ≤ it.bytesLeft := by
  have hadd := h.bytesLeft_add
  have hle := h.position_le
  omega

/-- One reader after the other. -/
theorem trans {a b c : Iterator} (h : Reads a b) (h' : Reads b c) : Reads a c := by
  have hb := h.bytesLeft_add
  obtain ⟨n, hn, rfl⟩ := h
  obtain ⟨n', hn', rfl⟩ := h'
  by_cases hv : a.isValid
  · have hpos := Iterator.position_advance hv (n : Int)
    refine ⟨n + n', by omega, ?_⟩
    have hva := Iterator.isValid_advance hv hn
    simp only [Iterator.advance, hv, if_true] at hva ⊢
    simp only [hva, if_true]
    congr 1
    push_cast
    omega
  · refine ⟨0, Nat.zero_le _, ?_⟩
    simp [Iterator.advance, hv]

end Reads

/-- Beyond a valid iterator with bytes left there are fewer bytes left. -/
theorem Iterator.bytesLeft_lt {it it' : Iterator} (hl : it.bytesLeft ≠ 0)
    (hc : it'.container = it.container) (hp : it.position < it'.position) :
    it'.bytesLeft < it.bytesLeft := by
  have hv := Iterator.isValid_of_bytesLeft hl
  by_cases hv' : it'.isValid
  · have h := Iterator.bytesLeft_of_isValid hv
    have h' := Iterator.bytesLeft_of_isValid hv'
    rw [hc] at h'
    omega
  · rw [Iterator.bytesLeft_of_not_isValid (by simpa using hv')]
    omega

/-- The loop over the bytes of a varint takes no more than there are. -/
theorem varintLoop_le (env : Environment) (k : Nat) (value : BitVec 64) (bytes : Bytes) :
    (varintLoop env k value bytes).1 ≤ bytes.length := by
  induction bytes generalizing k value with
  | nil => simp [varintLoop]
  | cons byte rest ih =>
    simp only [varintLoop]
    split
    · simpa using ih ..
    · simp

/-- A varint has a byte at least. -/
theorem varintLoop_pos (env : Environment) (k : Nat) (value : BitVec 64) (bytes : Bytes)
    (h : (varintLoop env k value bytes).2 ≠ none) : 0 < (varintLoop env k value bytes).1 := by
  cases bytes with
  | nil => simp [varintLoop] at h
  | cons byte rest =>
    simp only [varintLoop]
    split <;> simp

/-- Reading a varint stays within the bytes that are left. -/
theorem deserializeVarintCommon_reads (env : Environment) (it : Iterator) :
    Reads it (deserializeVarintCommon env it).1 :=
  ⟨_, varintLoop_le env 0 0 it.rest, rfl⟩

/-- A varint that was read moved the iterator. -/
theorem deserializeVarintCommon_position_lt {env : Environment} {it it' : Iterator}
    {value : BitVec 64} (h : deserializeVarintCommon env it = (it', some value)) :
    it.position < it'.position := by
  have hle := varintLoop_le env 0 0 it.rest
  have hpos := varintLoop_pos env 0 0 it.rest (by simp_all [deserializeVarintCommon])
  have hv : it.isValid := Iterator.isValid_of_bytesLeft (by rw [Iterator.bytesLeft]; omega)
  have hit : it' = it.advance (varintLoop env 0 0 it.rest).1 := by
    simp_all [deserializeVarintCommon]
  rw [hit, Iterator.position_advance hv]
  omega

/-- Reading a payload behind its length stays within the bytes that are left. -/
theorem deserializeLengthDelimited_reads (env : Environment) (it : Iterator) :
    Reads it (deserializeLengthDelimited env it).1 := by
  unfold deserializeLengthDelimited
  have hread := deserializeVarintCommon_reads env it
  split
  · split
    case h_1 it' hvarint => simpa [hvarint] using hread
    case h_2 it' length hvarint =>
      rw [hvarint] at hread
      split
      case isTrue h => exact hread.trans ⟨_, h.2.1, rfl⟩
      case isFalse => exact hread
  · exact .refl it

/-- Reading an integer of fixed width stays within the bytes that are left. -/
theorem deserializeFixed_reads (size : Nat) (it : Iterator) :
    Reads it (deserializeFixed size it).1 := by
  unfold deserializeFixed
  split
  · exact .refl it
  · exact ⟨size, by omega, rfl⟩

/-- Reading a scalar stays within the bytes that are left. -/
theorem deserializeBasic_reads (env : Environment) (k : ScalarKind) (it : Iterator) :
    Reads it (deserializeBasic env k it).1 := by
  unfold deserializeBasic
  split
  · exact deserializeVarintCommon_reads env it
  · exact deserializeFixed_reads 4 it
  · exact deserializeFixed_reads 8 it
  · exact deserializeLengthDelimited_reads env it

/-- Reading the items of a packed list stays within the bytes that are left. -/
theorem listLoop_reads (env : Environment) (k : ScalarKind) (lastVarint : Int) (n : Nat)
    (it : Iterator) (out : List k.Carrier) : Reads it (listLoop env k lastVarint n it out).1 := by
  induction n generalizing it out with
  | zero => exact .refl it
  | succ n ih =>
    have hread := deserializeBasic_reads env k it
    simp only [listLoop]
    split
    · exact .refl it
    · split
      case h_1 it' hbasic => simpa [hbasic] using hread
      case h_2 it' v hbasic =>
        rw [hbasic] at hread
        exact hread.trans (ih ..)

/-- Reading a packed list stays within the bytes that are left. -/
theorem deserializeList_reads (env : Environment) (k : ScalarKind) (it : Iterator) :
    Reads it (deserializeList env k it).1 := by
  have hread := deserializeVarintCommon_reads env it
  unfold deserializeList
  split
  case h_1 it' hvarint => simpa [hvarint] using hread
  case h_2 it' count hvarint =>
    rw [hvarint] at hread
    simp only
    split
    · exact hread
    · split
      · exact hread.trans (listLoop_reads ..)
      · exact hread

/-- Reading one more item of a list stays within the bytes that are left. -/
theorem deserializeNonPackedList_reads (env : Environment) (k : ScalarKind) (it : Iterator)
    (out : List k.Carrier) : Reads it (deserializeNonPackedList env k it out).1 :=
  deserializeBasic_reads env k it

end QtGrpc.Protobuf.Binary
