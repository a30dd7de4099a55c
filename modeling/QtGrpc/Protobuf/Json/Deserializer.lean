import QtGrpc.Protobuf.DeserializerBase
import QtGrpc.Protobuf.Json.Scalar

/-!
# The JSON decoder

`QProtobufJsonDeserializerImpl` keeps a stack with the objects that are being decoded.
`nextFieldIndex` goes through the fields of a message in their order, looks for a key of each in
the object on top of the stack, and pushes what it finds if that is an object. It also pops: when
no field is left. The record of what the decoder met is not part of the program; nothing the
decoder does depends on it.
-/

namespace QtGrpc.Protobuf.Json

/-- `JsonDeserializerState`. -/
structure JsonState where
  obj : JsonObject
  index : Nat := 0
  scalarValue : Option JsonValue := none

/-- What the decoder met. -/
inductive Event where
  /-- `nextFieldIndex` was asked for the next field. -/
  | asked
  /-- `nextFieldIndex` took this value for the value of this field. -/
  | found (f : FieldInfo) (value : JsonValue)
  /-- A scalar field or a list of scalars was to be read from a value. -/
  | read (f : FieldInfo) (value : JsonValue)
  /-- A message was to be read from a value that is no object. -/
  | message (t : MessageType) (m : Message) (value : JsonValue)
  /-- The loop of the decoder gave up with an error. -/
  | failed (error : SerializerError)

/-- `QProtobufJsonDeserializerImpl` with the error of the serializer it belongs to. The last state
of `m_state` is the head of the list. -/
structure Deserializer where
  state : List JsonState := []
  lastError : SerializerError := .none
  lastErrorString : String := ""
  events : List Event := []

/-- The deserializers registered for message types; each may leave a changed message behind. -/
abbrev CustomDeserializers := Nat → Option (Message → JsonValue → Message × Bool)

namespace Deserializer

def setError (s : Deserializer) (error : SerializerError) (text : String) : Deserializer :=
  { s with lastError := error, lastErrorString := text }

def setUnexpectedEndOfStreamError (s : Deserializer) : Deserializer :=
  s.setError .unexpectedEndOfStream "JSON: Unexpected end of stream"

def setInvalidFormatError (s : Deserializer) : Deserializer :=
  s.setError .invalidFormat "JSON: One or more fields have invalid format"

def hasError (s : Deserializer) : Bool := decide (s.lastError ≠ .none)

def met (s : Deserializer) (e : Event) : Deserializer := { s with events := s.events ++ [e] }

end Deserializer

variable (env : JsonEnvironment)

/-- `convertJsonKeyToJsonName`: an underscore is dropped and the character behind it changed to
upper case. Only characters of the basic plane are a `QChar` of their own. -/
def convertJsonKeyToJsonName (name : String) : String :=
  let rec convert (nextUpperCase : Bool) : List Char → List Char
    | [] => []
    | c :: rest =>
      if c = '_' then convert true rest
      else (if nextUpperCase ∧ c.toNat < 0x10000 then env.toUpper c else c) :: convert false rest
  String.ofList (convert false name.toList)

/-- A key is the key of a field if it is the field's jsonName or becomes it. -/
def keyMatches (jsonName key : String) : Bool :=
  jsonName == key || jsonName == convertJsonKeyToJsonName env key

/-- The first key of a field. -/
def findKey (o : JsonObject) (jsonName : String) : Option String :=
  o.keys.find? (keyMatches env jsonName)

/-- What the loop of `nextFieldIndex` ended with. -/
inductive Found where
  /-- No field is left. -/
  | ended
  | wrongShape (state : JsonState) (f : FieldInfo) (value : JsonValue)
  /-- The value of the field, or its first item, is the `scalarValue` of the state. -/
  | scalar (state : JsonState) (index : Nat) (f : FieldInfo) (value : JsonValue)
  /-- The value of the field, its first item or its first entry is an object. -/
  | object (pushed : JsonObject) (state : JsonState) (index : Nat) (f : FieldInfo) (value : JsonValue)

def JsonState.next (state : JsonState) : JsonState := { state with index := state.index + 1 }

/-- A field of message type: what is done with the value. -/
def foundMessage (f : FieldInfo) (state : JsonState) (val : JsonValue) : Found :=
  match val with
  | .array _ => .wrongShape state f val
  | .object o => .object o state.next state.index f val
  | val => .scalar { state.next with scalarValue := some val } state.index f val

/-- The first item of a list of messages; the others stay in the object. -/
def foundItem (f : FieldInfo) (state : JsonState) (key : String) (nextValue : JsonValue)
    (array : List JsonValue) : Found :=
  let state := { state with obj := state.obj.insert key (.array array) }
  let val := .array (nextValue :: array)
  match nextValue with
  | .object o => .object o state state.index f val
  | nextValue => .scalar { state with scalarValue := some nextValue } state.index f val

/-- The first entry of a map; the others stay in the object. -/
def foundEntry (f : FieldInfo) (state : JsonState) (mapKey key : String) (value : JsonValue)
    (mapObject : JsonObject) : Found :=
  .object [("key", .string key), ("value", value)]
    { state with obj := state.obj.insert mapKey (.object mapObject) } state.index f
    (.object ((key, value) :: mapObject))

/-- The loop of `nextFieldIndex` over the fields that are left. -/
def findField : List FieldInfo → JsonState → Found
  | [], _ => .ended
  | f :: fields, state =>
    match findKey env state.obj f.jsonName with
    | none => findField fields state.next
    | some key =>
      match state.obj.value key with
      | .null => findField fields state.next
      | val =>
        if f.fieldFlags.isMessage && f.fieldFlags.repeated then
          match val with
          | .array [] => findField fields { state.next with scalarValue := some .null }
          | .array (nextValue :: array) =>
            if nextValue.isNull then .wrongShape state f val
            else foundItem f state key nextValue array
          | _ => .wrongShape state f val
        else if f.fieldFlags.isMap then
          match val with
          | .object [] => findField fields state.next
          | .object ((k, v) :: mapObject) => foundEntry f state key k v mapObject
          | _ => .wrongShape state f val
        else if f.fieldFlags.isMessage then foundMessage f state val
        else .scalar { state.next with scalarValue := some val } state.index f val

/-- `nextFieldIndex`. -/
def nextFieldIndex (S : Schema) (t : MessageType) (s : Deserializer) : Deserializer × NextField :=
  let s := s.met .asked
  let fields := (S.propertyOrdering t).fields
  if fields.length = 0 then (s, .finished)
  else match s.state with
  | [] => (s, .finished)
  | top :: rest =>
    let top := { top with scalarValue := some .null }
    match findField env (fields.drop top.index) top with
    | .ended => ({ s with state := rest }, .finished)
    | .wrongShape top f value =>
      (({ s with state := top :: rest }.met (.found f value)).setInvalidFormatError, .finished)
    | .scalar top i f value => ({ s with state := top :: rest }.met (.found f value), .field i)
    | .object pushed top i f value =>
      ({ s with state := { obj := pushed } :: top :: rest }.met (.found f value), .field i)

/-- `m_state.last().scalarValue`, which may be undefined. -/
def Deserializer.scalarValue? (s : Deserializer) : Option JsonValue :=
  s.state.head?.bind (·.scalarValue)

/-- `m_state.last().scalarValue` as the scalar types read it: undefined like null. -/
def Deserializer.scalarValue (s : Deserializer) : JsonValue := s.scalarValue?.getD .null

/-- `deserializeEnum`: a singular value is a name or a number. -/
def deserializeEnum (f : FieldInfo) (s : Deserializer) : Deserializer × Value × Bool :=
  let (value, ok) :=
    if f.fieldFlags.repeated then deserializeList env .string s.scalarValue
    else match s.scalarValue with
    | .string _ => deserializeCommon env .string s.scalarValue
    | _ => deserializeCommon env .int64 s.scalarValue
  (s, value, ok)

/-- What becomes of a value that was read, or was not. -/
def readScalar (f : FieldInfo) (s : Deserializer) (result : Value × Bool) :
    Deserializer × Value × Bool :=
  let s := s.met (.read f s.scalarValue)
  match result with
  | (value, true) => (s, value, true)
  | (value, false) => (s.setInvalidFormatError, value, true)

/-- `deserializeScalarField`: every scalar type and every list of one has a handler. -/
def deserializeScalarField (f : FieldInfo) (s : Deserializer) (value : Value) :
    Deserializer × Value × Bool :=
  match f.type with
  | .scalar k => readScalar f s (deserializeCommon env k s.scalarValue)
  | .list k => readScalar f s (deserializeList env k s.scalarValue)
  | _ => (s, value, false)

/-- `findCustomJsonDeserializer`; the entry type of a map has none. -/
def findCustomJsonDeserializer (custom : CustomDeserializers) :
    MessageType → Option (Message → JsonValue → Message × Bool)
  | .named t => custom t
  | .mapEntry .. => none

/-- `deserializeMessageField` where it does not leave the message to the base class. -/
def interceptMessageField (custom : CustomDeserializers) (t : MessageType) (s : Deserializer)
    (m : Message) : Option (Deserializer × Message × Bool) :=
  s.scalarValue?.map fun value =>
    let s := s.met (.message t m value)
    match findCustomJsonDeserializer custom t with
    | some deserializer =>
      let (m, ok) := deserializer m value
      (s, m, ok)
    | none => (s.setInvalidFormatError, m, false)

/-- `QProtobufJsonDeserializerImpl` as a format; it does not ask for required fields. -/
def format (custom : CustomDeserializers) (S : Schema) : Format Deserializer where
  enforceRequiredFields := false
  hasError := Deserializer.hasError
  setError s error text := (s.met (.failed error)).setError error text
  nextFieldIndex _ t s m :=
    let (s, next) := nextFieldIndex env S t s
    (s, m, next)
  deserializeEnum f s _ := deserializeEnum env f s
  deserializeScalarField := deserializeScalarField env
  interceptMessageField := interceptMessageField custom

/-- The type of the message that a field may be decoded from. -/
def messageTypeOf (S : Schema) (type : PropertyType) : Option MessageType :=
  match type.nestedType with
  | some t => some t
  | none => (S.handlerOf type).map (·.proxy)

/-- How often the loop of the decoder can be entered for an object of this size. -/
def decodingBound (S : Schema) : Nat → MessageType → Nat
  | 0, t => (S.propertyOrdering t).fields.length + 1
  | n + 1, t =>
    let fields := (S.propertyOrdering t).fields
    (n + 1) * (fields.length + 1) + fields.length + 1 +
      (fields.map fun f => (messageTypeOf S f.type).elim 0 (decodingBound S n)).sum

/-- The decoding of a document that is an object, between the two calls of `reset`. -/
def deserializeObject (custom : CustomDeserializers) (S : Schema) (t : MessageType)
    (obj : JsonObject) (m : Message) : Deserializer × Message × Outcome :=
  let (s, m, outcome) := deserializeMessage (format env custom S) S (decodingBound S obj.size t) t
    { state := [{ obj }] } m
  ({ s with state := [] }, m, outcome)

/-- `QProtobufJsonSerializer::deserializeMessage`: what the decoder is left with, the message and
the result. -/
def deserialize (custom : CustomDeserializers) (S : Schema) (t : MessageType) (data : Bytes)
    (m : Message) : Deserializer × Message × Outcome :=
  let s : Deserializer := {}
  match env.fromJson data with
  | none => (s.setUnexpectedEndOfStreamError, m, .returned false)
  | some (.object []) => (s, m, .returned true)
  | some (.object obj) => deserializeObject env custom S t obj m
  | some _ => (s.setInvalidFormatError, m, .returned false)

end QtGrpc.Protobuf.Json
