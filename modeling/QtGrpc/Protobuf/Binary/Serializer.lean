import QtGrpc.Protobuf.SerializerBase
import QtGrpc.Protobuf.Binary.Encoding

/-!
# The binary encoder

`QProtobufSerializerImpl` appends the fields of a message to its result. For a sub-message it puts
the result aside and starts a new one, which it appends as a length-delimited field when the
sub-message is complete.
-/

namespace QtGrpc.Protobuf.Binary

/-- `QProtobufSerializerImpl`. The results that were put aside are kept innermost first. -/
structure SerializerImpl where
  result : Bytes := []
  state : List Bytes := []

namespace SerializerImpl

def append (s : SerializerImpl) (bytes : Bytes) : SerializerImpl :=
  { s with result := s.result ++ bytes }

end SerializerImpl

/-- The wire type of a handler of a property with this value, and its serializer. -/
def integratedSerializer (value : Value) (nonPacked : Bool) (fieldNumber : Nat) : Option Bytes :=
  match value with
  | .scalar ⟨k, v⟩ =>
    if nonPacked then none else some (encodeHeader fieldNumber k.wireType ++ serializeBasic k v)
  | .scalars k vs =>
    if nonPacked then
      if k.isLengthDelimited then none
      else some (serializeNonPackedList k vs (encodeHeader fieldNumber k.wireType))
    else if k.isLengthDelimited then
      some (serializeNonPackedList k vs (encodeHeader fieldNumber .lengthDelimited))
    else some (encodeHeader fieldNumber .lengthDelimited ++ serializeListType k vs)
  | _ => none

/-- `isPresent` of the handler of a property with this value. -/
def integratedIsPresent : Value → Bool
  | .scalar ⟨k, v⟩ => k.isPresent v
  | .scalars _ vs => !vs.isEmpty
  | _ => false

/-- `serializeEnum`. -/
def serializeEnum (f : FieldInfo) (value : Value) (s : SerializerImpl) : SerializerImpl × Bool :=
  if f.fieldFlags.repeated then
    match value with
    | .enumerators _ vs =>
      let listValue := vs.map (BitVec.signExtend 64)
      if listValue.isEmpty then (s, true)
      else if f.fieldFlags.nonPacked then
        (s.append (serializeNonPackedList .int64 listValue (encodeHeader f.fieldNumber .varint)), true)
      else
        (s.append (encodeHeader f.fieldNumber .lengthDelimited ++ serializeListType .int64 listValue),
          true)
    | _ => (s, false)
  else
    match value with
    | .enumerator _ v =>
      let number : BitVec 64 := BitVec.signExtend 64 v
      if !ScalarKind.isPresent .int64 number && !mustSerializeDefaultValue f.fieldFlags then (s, true)
      else (s.append (encodeHeader f.fieldNumber .varint ++ serializeBasic .int64 number), true)
    | _ => (s, false)

/-- `serializeScalarField`. -/
def serializeScalarField (f : FieldInfo) (value : Value) (s : SerializerImpl) :
    SerializerImpl × Bool :=
  match integratedSerializer value f.fieldFlags.nonPacked f.fieldNumber with
  | none => (s, false)
  | some bytes =>
    if !integratedIsPresent value && !mustSerializeDefaultValue f.fieldFlags then (s, true)
    else (s.append bytes, true)

/-- `serializeMessageFieldBegin`. -/
def serializeMessageFieldBegin (s : SerializerImpl) : SerializerImpl :=
  { result := [], state := s.result :: s.state }

/-- `serializeUnknownFields`. -/
def serializeUnknownFields (order : HashOrder) (preserveUnknownFields : Bool) (m : Message)
    (s : SerializerImpl) : SerializerImpl :=
  if preserveUnknownFields then
    s.append ((order.unknownEntries m.unknownEntries).flatMap fun (_, fields) => fields.flatten)
  else s

/-- `serializeMessageFieldEnd`. The length is converted to 32 bits. -/
def serializeMessageFieldEnd (order : HashOrder) (preserveUnknownFields : Bool) (m : Message)
    (f : FieldInfo) (s : SerializerImpl) : SerializerImpl :=
  let s := serializeUnknownFields order preserveUnknownFields m s
  { result := s.state.headD [] ++ encodeHeader f.fieldNumber .lengthDelimited ++
      serializeVarintCommon (BitVec.ofNat 64 (s.result.length % 2 ^ 32)) ++ s.result
    state := s.state.tail }

/-- `QProtobufSerializerImpl` as a format. -/
def serializerFormat (order : HashOrder) (preserveUnknownFields : Bool) :
    SerializerFormat SerializerImpl where
  serializeEnum := serializeEnum
  serializeScalarField := serializeScalarField
  serializeMessageFieldBegin := serializeMessageFieldBegin
  serializeMessageFieldEnd := serializeMessageFieldEnd order preserveUnknownFields
  interceptMessageField := fun _ _ _ _ => none

end QtGrpc.Protobuf.Binary
