import QtGrpc.Protobuf.DeserializerBase
import QtGrpc.Protobuf.Binary.Wire

/-!
# The binary decoder

`QProtobufDeserializerImpl` walks the fields of the binary format: `nextFieldIndex` decodes
headers, skips the fields the message type does not have and opens a frame for the payload of a
sub-message. `QProtobufSerializer` runs it over one input and reports its error.
-/

namespace QtGrpc.Protobuf.Binary

/-- One iteration of the loop in `nextFieldIndex` whose header could be decoded: where it started
and where the header left the iterator. The decoder never looks at these records. -/
structure Visit where
  messageType : MessageType
  fieldBegin : Iterator
  payload : Iterator
  fieldNumber : Nat
  wireType : WireType
deriving DecidableEq, Repr

/-- `QProtobufDeserializerImpl` with the error of its parent. The ends of the open frames are
kept innermost first, the records of the visited fields in their order. -/
structure Deserializer where
  it : Iterator
  state : List Int
  wireType : WireType
  lastError : SerializerError
  lastErrorString : String
  preserveUnknownFields : Bool
  visits : List Visit

namespace Deserializer

def setError (d : Deserializer) (error : SerializerError) (errorString : String) : Deserializer :=
  { d with lastError := error, lastErrorString := errorString }

def hasError (d : Deserializer) : Bool := d.lastError != .none

def setUnexpectedEndOfStreamError (d : Deserializer) : Deserializer :=
  d.setError .unexpectedEndOfStream "Unexpected end of stream"

/-- An error does not move the iterator. -/
@[simp] theorem it_setError (d : Deserializer) (error : SerializerError) (text : String) :
    (d.setError error text).it = d.it := rfl

/-- An error adds no record. -/
@[simp] theorem visits_setError (d : Deserializer) (error : SerializerError) (text : String) :
    (d.setError error text).visits = d.visits := rfl

/-- An error leaves the frames as they are. -/
@[simp] theorem state_setError (d : Deserializer) (error : SerializerError) (text : String) :
    (d.setError error text).state = d.state := rfl

/-- Nor does the one for an early end move it. -/
@[simp] theorem it_setUnexpectedEndOfStreamError (d : Deserializer) :
    d.setUnexpectedEndOfStreamError.it = d.it := rfl

/-- Nor does the one for an early end add one. -/
@[simp] theorem visits_setUnexpectedEndOfStreamError (d : Deserializer) :
    d.setUnexpectedEndOfStreamError.visits = d.visits := rfl

/-- So does the one for an early end. -/
@[simp] theorem state_setUnexpectedEndOfStreamError (d : Deserializer) :
    d.setUnexpectedEndOfStreamError.state = d.state := rfl

/-- The header of a field was decoded. -/
def visit (d : Deserializer) (t : MessageType) (it : Iterator) (fieldNumber : Nat)
    (wireType : WireType) : Deserializer :=
  { d with it, wireType, visits := d.visits ++ [⟨t, d.it, it, fieldNumber, wireType⟩] }

/-- `reset`. -/
def reset (d : Deserializer) (data : Bytes) : Deserializer :=
  { d with it := .fromView data, state := [data.length] }

end Deserializer

section

variable (env : Environment) (S : Schema)

/-- `decodeHeader`: the field number and the wire type of a header. -/
def decodeHeader (it : Iterator) : Iterator × Option (Nat × WireType) :=
  if it.bytesLeft = 0 then (it, none)
  else match deserializeVarintCommon env it with
    | (it, none) => (it, none)
    | (it, some value) =>
      let header := (BitVec.setWidth 32 value).toNat
      let fieldIndex := header / 8
      match WireType.ofNumber? (header % 8) with
      | none => (it, none)
      | some wireType =>
        if fieldIndex ≤ 2 ^ 29 - 1 ∧ fieldIndex > 0 then (it, some (fieldIndex, wireType))
        else (it, none)

/-- The loop of `skipVarint` over the bytes up to the end of the view, as the number of steps the
iterator takes. The bytes behind the end are read too: the iterator still steps over the end,
where it becomes invalid and stays, so that the loop only ends if the byte it then sees is the
last one of a varint. -/
def skipVarintLoop : Bytes → Option Nat
  | [] =>
    if continues (env.beyond 0) then
      if continues (env.beyond 1) then none else some 1
    else some 1
  | byte :: rest => if continues byte then (skipVarintLoop rest).map (· + 1) else some 1

/-- `skipVarint`, if it returns. -/
def skipVarint (it : Iterator) : Option Iterator :=
  (skipVarintLoop env it.rest).map fun n : Nat => it.advance n

/-- `skipLengthDelimited`. The length is converted to a signed count. -/
def skipLengthDelimited (it : Iterator) : Iterator :=
  match deserializeVarintCommon env it with
  | (it, none) => it.advance (it.bytesLeft + 1)
  | (it, some length) => it.advance length.toInt

/-- The part of `skipField` that moves the iterator. -/
def skipPayload (wireType : WireType) (it : Iterator) : Option Iterator :=
  match wireType with
  | .varint => skipVarint env it
  | .fixed32 => some (it.advance 4)
  | .fixed64 => some (it.advance 8)
  | .lengthDelimited => some (skipLengthDelimited env it)

/-- `skipField`, if it returns: the number of bytes between `fieldBegin` and the iterator. -/
def skipField (d : Deserializer) (fieldBegin : Iterator) : Option (Deserializer × Int) :=
  (skipPayload env d.wireType d.it).map fun it =>
    let d := { d with it }
    if it.isValid then (d, it.position - fieldBegin.position)
    else (d.setUnexpectedEndOfStreamError, -1)

/-- The end of `nextFieldIndex` for a known field: a message or a map opens a frame. -/
def enterField (f : FieldInfo) (index : Nat) (d : Deserializer) : Deserializer × NextField :=
  if f.fieldFlags.isMessage || f.fieldFlags.isMap then
    match deserializeVarintCommon env d.it with
    | (it, none) => ({ d with it }.setUnexpectedEndOfStreamError, .finished)
    | (it, some length) =>
      let d := { d with it }
      if !it.isValid || it.bytesLeft < length.toNat || length.toNat > maxByteArraySize then
        (d.setUnexpectedEndOfStreamError, .finished)
      else ({ d with state := (it.position + length.toNat) :: d.state }, .field index)
  else (d, .field index)

/-- `nextFieldIndex`. A `skipVarint` that does not return is out of fuel whatever its amount. -/
def nextFieldIndex : Nat → MessageType → Deserializer → Message →
    Deserializer × Message × NextField
  | 0, _, d, m => (d, m, .outOfFuel)
  | fuel + 1, t, d, m =>
    if d.it.isValid && d.state.head? != some d.it.position then
      let fieldBegin := d.it
      match decodeHeader env d.it with
      | (it, none) =>
        ({ d with it }.setError .invalidHeader
          "Message received doesn't contain valid header byte.", m, .finished)
      | (it, some (fieldNumber, wireType)) =>
        let d := d.visit t it fieldNumber wireType
        let ordering := S.propertyOrdering t
        match ordering.indexOfFieldNumber fieldNumber with
        | none =>
          match skipField env d fieldBegin with
          | none => (d, m, .outOfFuel)
          | some (d, length) =>
            if length < 0 then (d, m, .finished)
            else
              let m := if length > 0 ∧ d.preserveUnknownFields then
                m.storeUnknownEntry (fieldBegin.rest.take length.toNat) fieldNumber else m
              nextFieldIndex fuel t d m
        | some index =>
          match ordering.fields[index]? with
          | none => (d, m, .field index)
          | some f =>
            let (d, next) := enterField env f index d
            (d, m, next)
    else
      let d := if d.it.isValid then d else d.setUnexpectedEndOfStreamError
      ({ d with state := d.state.tail }, m, .finished)

/-- `deserializeEnum`. A list is converted to numbers and back, a single value stays a number. -/
def deserializeEnum (f : FieldInfo) (d : Deserializer) (value : Value) :
    Deserializer × Value × Bool :=
  if f.fieldFlags.repeated then
    match f.type, value with
    | .enumList e, .enumerators _ vs =>
      let numbers := vs.map (BitVec.signExtend 64)
      let (it, result) := match d.wireType with
        | .varint => deserializeNonPackedList env .int64 d.it numbers
        | .lengthDelimited => deserializeList env .int64 d.it
        | _ => (d.it, none)
      match result with
      | some numbers => ({ d with it }, .enumerators e (numbers.map (BitVec.setWidth 32)), true)
      | none => ({ d with it }, value, false)
    | _, _ => (d, value, false)
  else
    match deserializeBasic env .int64 d.it with
    | (it, some v) => ({ d with it }, .scalar ⟨.int64, v⟩, true)
    | (it, none) => ({ d with it }, value, false)

/-- The wire type of the handler `findIntegratedTypeHandler` finds for a property type. -/
def integratedWireType (type : PropertyType) (nonPacked : Bool) : Option WireType :=
  match type with
  | .scalar k => if nonPacked then none else some k.wireType
  | .list k =>
    if nonPacked then (if k.isLengthDelimited then none else some k.wireType)
    else some .lengthDelimited
  | _ => none

/-- The deserializer of the handler `findIntegratedTypeHandler` finds for a property type. -/
def integratedDeserializer (type : PropertyType) (nonPacked : Bool) (it : Iterator)
    (value : Value) : Iterator × Option Value :=
  match type, value with
  | .scalar k, _ =>
    Prod.map id (Option.map fun v => .scalar ⟨k, v⟩) (deserializeBasic env k it)
  | .list k, .scalars k' vs =>
    if h : k' = k then
      if nonPacked || k.isLengthDelimited then
        Prod.map id (Option.map (.scalars k)) (deserializeNonPackedList env k it (h ▸ vs))
      else Prod.map id (Option.map (.scalars k)) (deserializeList env k it)
    else (it, none)
  | _, _ => (it, none)

/-- `deserializeScalarField`. The first argument of the error text replaces both of its lowest
place markers. -/
def deserializeScalarField (f : FieldInfo) (d : Deserializer) (value : Value) :
    Deserializer × Value × Bool :=
  let isNonPacked := d.wireType != .lengthDelimited && f.fieldFlags.repeated
  match integratedWireType f.type isNonPacked with
  | none => (d, value, false)
  | some wireType =>
    if wireType ≠ d.wireType then
      (d.setError .invalidHeader
        ("Invalid wiretype for the " ++ S.typeName f.type ++ " field number " ++
          S.typeName f.type ++ ". Expected " ++ toString f.fieldNumber ++ ", received " ++
          toString wireType.number), .null, true)
    else match integratedDeserializer env f.type isNonPacked d.it value with
      | (it, some v) => ({ d with it }, v, true)
      | (it, none) => ({ d with it }.setUnexpectedEndOfStreamError, .null, true)

/-- The binary format. -/
def format : Format Deserializer where
  enforceRequiredFields := true
  hasError := Deserializer.hasError
  setError := Deserializer.setError
  nextFieldIndex := nextFieldIndex env S
  deserializeEnum := deserializeEnum env
  deserializeScalarField := deserializeScalarField env S
  interceptMessageField := fun _ _ _ => none

end

/-- Any serialized message is smaller than 2 GiB. -/
def maxSerializeMessageSizeLimit : Nat := 2 * 1024 * 1024 * 1024 - 1

/-- `QProtobufSerializer`: the limits configured for it and by the environment variable, both
clamped to the limit of the format, and the decoder it owns. -/
structure Serializer where
  maximumInputSize : Option (Fin (maxSerializeMessageSizeLimit + 1)) := none
  envMaximumInputSize : Option (Fin (maxSerializeMessageSizeLimit + 1)) := none
  deserializer : Deserializer

namespace Serializer

/-- A new serializer. -/
def initial : Serializer where
  deserializer :=
    { it := .fromView []
      state := []
      wireType := .varint
      lastError := .none
      lastErrorString := ""
      preserveUnknownFields := true
      visits := [] }

/-- `effectiveMaximumInputSize`. -/
def effectiveMaximumInputSize (s : Serializer) : Nat :=
  match s.maximumInputSize with
  | some limit => limit
  | none => (s.envMaximumInputSize.map (·.val)).getD maxSerializeMessageSizeLimit

/-- No configured limit is above the one of the format. -/
theorem effectiveMaximumInputSize_le (s : Serializer) :
    s.effectiveMaximumInputSize ≤ maxSerializeMessageSizeLimit := by
  unfold effectiveMaximumInputSize
  split
  · omega
  · cases s.envMaximumInputSize with
    | none => simp
    | some limit => simpa using Nat.lt_succ_iff.mp limit.isLt

/-- `setMessageTooLargeError`. -/
def setMessageTooLargeError (d : Deserializer) (size limit : Nat) : Deserializer :=
  d.setError .messageTooLarge
    ("Message size (" ++ toString size ++ " bytes) exceeds the maximum message size (" ++
      toString limit ++ " bytes)")

/-- The decoder at the begin of an input. -/
def started (d : Deserializer) (data : Bytes) : Deserializer :=
  ({ d with visits := [] }.setError .none "").reset data

/-- `QAbstractProtobufSerializer::deserialize`: the message is wiped, then decoded into. -/
def deserialize (env : Environment) (S : Schema) (fuel : Nat) (s : Serializer) (t : MessageType)
    (data : Bytes) : Serializer × Message × Outcome :=
  let m := S.defaultMessage t
  let d := started s.deserializer data
  if data.length > s.effectiveMaximumInputSize then
    ({ s with deserializer :=
        (setMessageTooLargeError { s.deserializer with visits := [] } data.length
          s.effectiveMaximumInputSize) }, m, .returned false)
  else
    match deserializeMessage (format env S) S fuel t d m with
    | (d, m, .outOfFuel) => ({ s with deserializer := d }, m, .outOfFuel)
    | (d, m, .returned _) =>
      let d := d.reset []
      ({ s with deserializer := d }, m, .returned (d.lastError == .none))

end Serializer

end QtGrpc.Protobuf.Binary
