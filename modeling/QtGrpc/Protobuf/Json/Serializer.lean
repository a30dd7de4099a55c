import QtGrpc.Protobuf.SerializerBase
import QtGrpc.Protobuf.Json.Scalar

/-!
# The JSON encoder

`QProtobufJsonSerializerImpl` inserts the fields of a message into an object. For a sub-message it
puts the object aside and starts a new one; when the sub-message is complete, its object becomes a
member of the outer one, an item of an array there, or the value of a map's key.
-/

namespace QtGrpc.Protobuf.Json

/-- `QProtobufJsonSerializerImpl`. The objects that were put aside are kept innermost first. -/
structure SerializerImpl where
  result : JsonObject := []
  state : List JsonObject := []

/-- The serializers registered for message types; each may leave its value undefined. -/
abbrev CustomSerializers := Nat → Option (Message → Option JsonValue)

/-- `QJsonObject::insert` of a value that may be undefined, which removes the key. -/
def insertValue (o : JsonObject) (key : String) : Option JsonValue → JsonObject
  | some value => o.insert key value
  | none => o.filter fun member => member.1 != key

/-- `toArray` of a member, with an item appended. -/
def appendToArray (o : JsonObject) (key : String) (item : JsonValue) : JsonObject :=
  match o.value key with
  | .array items => o.insert key (.array (items ++ [item]))
  | _ => o.insert key (.array [item])

/-- `toObject` of a member, with a member inserted. -/
def insertIntoObject (o : JsonObject) (key mapKey : String) (value : Option JsonValue) : JsonObject :=
  match o.value key with
  | .object members => o.insert key (.object (insertValue members mapKey value))
  | _ => o.insert key (.object (insertValue [] mapKey value))

def SerializerImpl.insert (s : SerializerImpl) (key : String) (value : JsonValue) : SerializerImpl :=
  { s with result := s.result.insert key value }

variable (env : JsonEnvironment) (S : Schema)

/-- `serializeList`. -/
def serializeList (k : ScalarKind) (vs : List k.Carrier) : JsonValue :=
  .array (vs.map (serializeScalar env k))

/-- `serializeEnum`: enumerators are written as their keys. -/
def serializeEnum (f : FieldInfo) (value : Value) (s : SerializerImpl) : SerializerImpl × Bool :=
  if f.fieldFlags.repeated then
    match value with
    | .enumerators e vs =>
      let keys := vs.map fun v => (S.valueToKey e v).getD ""
      if keys.isEmpty then (s, true)
      else (s.insert f.jsonName (serializeList env .string keys), true)
    | _ => (s, false)
  else
    match value with
    | .enumerator e v =>
      match S.valueToKey e v with
      | none => (s, false)
      | some key =>
        if key.isEmpty && !mustSerializeDefaultValue f.fieldFlags then (s, true)
        else (s.insert f.jsonName (serializeScalar env .string key), true)
    | _ => (s, false)

/-- `isPresent` of a handler. That of a floating-point number tells the two zeros apart. -/
def isPresent : Value → Bool
  | .scalar ⟨.float, v⟩ => decide (v ≠ ScalarKind.zero .float)
  | .scalar ⟨.double, v⟩ => decide (v ≠ ScalarKind.zero .double)
  | .scalar ⟨k, v⟩ => k.isPresent v
  | .scalars _ vs => !vs.isEmpty
  | _ => false

/-- The serializer of a handler. -/
def serializeValue : Value → Option JsonValue
  | .scalar ⟨k, v⟩ => some (serializeScalar env k v)
  | .scalars k vs => some (serializeList env k vs)
  | _ => none

/-- `serializeScalarField`. -/
def serializeScalarField (f : FieldInfo) (value : Value) (s : SerializerImpl) :
    SerializerImpl × Bool :=
  match serializeValue env value with
  | none => (s, false)
  | some json =>
    if !isPresent value && !mustSerializeDefaultValue f.fieldFlags then (s, true)
    else (s.insert f.jsonName json, true)

/-- `serializeMessageFieldBegin`. -/
def serializeMessageFieldBegin (s : SerializerImpl) : SerializerImpl :=
  { result := [], state := s.result :: s.state }

/-- `serializeMessageFieldEnd`. -/
def serializeMessageFieldEnd (m : Message) (f : FieldInfo) (s : SerializerImpl) : SerializerImpl :=
  let store := s.state.headD []
  let store :=
    if f.fieldFlags.repeated then appendToArray store f.jsonName (.object s.result)
    else if f.fieldFlags.isMap then
      let key := match m.member (.field 0) with
        | .scalar key => keyText key
        | _ => ""
      insertIntoObject store f.jsonName key (s.result.lookup "value")
    else store.insert f.jsonName (.object s.result)
  { result := store, state := s.state.tail }

/-- `findCustomJsonSerializer`; the entry type of a map has none. -/
def findCustomJsonSerializer (custom : CustomSerializers) :
    MessageType → Option (Message → Option JsonValue)
  | .named t => custom t
  | .mapEntry .. => none

/-- `serializeMessageField` where it does not leave the message to the base class. -/
def interceptSerializedField (custom : CustomSerializers) (t : MessageType) (m : Message)
    (f : FieldInfo) (s : SerializerImpl) : Option SerializerImpl :=
  (findCustomJsonSerializer custom t).map fun serializer =>
    match serializer m with
    | none => s
    | some value =>
      if f.fieldFlags.repeated then { s with result := appendToArray s.result f.jsonName value }
      else s.insert f.jsonName value

/-- `QProtobufJsonSerializerImpl` as a format. -/
def serializerFormat (custom : CustomSerializers) : SerializerFormat SerializerImpl where
  serializeEnum := serializeEnum env S
  serializeScalarField := serializeScalarField env
  serializeMessageFieldBegin := serializeMessageFieldBegin
  serializeMessageFieldEnd := serializeMessageFieldEnd
  interceptMessageField := interceptSerializedField custom

end QtGrpc.Protobuf.Json
