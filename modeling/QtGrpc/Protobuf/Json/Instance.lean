import QtGrpc.Protobuf.Instance
import QtGrpc.Protobuf.Json.Deserializer
import QtGrpc.Protobuf.Json.Serializer

/-!
# The JSON serializer as an object

`QProtobufJsonSerializer` owns an encoder and a decoder and serves one call after the other with
them. Each is reset before it is used, except for the default messages that are being written.
-/

namespace QtGrpc.Protobuf.Json

/-- `QProtobufJsonSerializerPrivate`: the decoder with the last error, its cache, and the
encoder. -/
structure SerializerPrivate where
  deserializer : Deserializer := {}
  cache : Cache := {}
  serializer : SerializerBase SerializerImpl := { state := {} }

namespace SerializerPrivate

/-- `clearError`. The records of the decoder begin anew. -/
def clearError (d : SerializerPrivate) : SerializerPrivate :=
  { d with deserializer :=
      { d.deserializer with lastError := .none, lastErrorString := "", events := [] } }

/-- `reset` of the decoder. -/
def reset (d : SerializerPrivate) (obj : JsonObject) : SerializerPrivate :=
  { d with
    cache := {}
    deserializer := { d.deserializer with state := if obj.isEmpty then [] else [{ obj }] } }

variable (env : JsonEnvironment) (customIn : CustomDeserializers) (customOut : CustomSerializers)
  (order : HashOrder) (S : Schema)

/-- `QProtobufJsonSerializer::serializeMessage`. -/
def serializeMessage (fuel : Nat) (d : SerializerPrivate) (t : MessageType) (m : Message) :
    SerializerPrivate × Option Bytes :=
  let d := d.clearError
  match Protobuf.serializeMessage (serializerFormat env S customOut) S order fuel t m
      { d.serializer with state := {} } with
  | none => (d, none)
  | some x => ({ d with serializer := { x with state := {} } }, some (env.toJson x.state.result))

/-- `QProtobufJsonSerializer::deserializeMessage`, of a message that was wiped. -/
def deserializeMessage (d : SerializerPrivate) (t : MessageType) (data : Bytes) :
    SerializerPrivate × Message × Outcome :=
  let m := S.defaultMessage t
  let d := d.clearError
  match env.fromJson data with
  | none => ({ d with deserializer := d.deserializer.setUnexpectedEndOfStreamError }, m, .returned false)
  | some (.object []) => (d, m, .returned true)
  | some (.object obj) =>
    let d := d.reset obj
    let (x, m, outcome) := DeserializerBase.deserializeMessage (format env customIn S) S
      (decodingBound S (JsonObject.size obj) t) t [] ⟨d.cache, d.deserializer⟩ m
    ({ d with deserializer := x.state, cache := x.cache }.reset [], m, outcome)
  | some _ => ({ d with deserializer := d.deserializer.setInvalidFormatError }, m, .returned false)

/-- A call of `QProtobufJsonSerializer`. -/
def call (d : SerializerPrivate) (fuelAndCall : Nat × SerializerCall) : SerializerPrivate × Option Reply :=
  match fuelAndCall with
  | (fuel, .serialize t m) =>
    let (d, data) := d.serializeMessage env customOut order S fuel t m
    (d, data.map fun data =>
      .serialized data d.deserializer.lastError d.deserializer.lastErrorString)
  | (_, .deserialize t data) =>
    match d.deserializeMessage env customIn S t data with
    | (d, _, .outOfFuel) => (d, none)
    | (d, m, .returned ok) =>
      (d, some (.deserialized ok m d.deserializer.lastError d.deserializer.lastErrorString))

/-- A serializer is clean if it is not in the middle of a default message. -/
def Clean (d : SerializerPrivate) : Prop := d.serializer.defaultMessageTypes = []

/-- A new serializer is clean. -/
theorem clean_new : Clean {} := rfl

variable {env customIn customOut order S} {d : SerializerPrivate}

/-- What a call of the decoder gives is what the decoder without the object around it gives. -/
theorem deserializeMessage_eq (t : MessageType) (data : Bytes) :
    (d.deserializeMessage env customIn S t data).2 =
        (deserialize env customIn S t data (S.defaultMessage t)).2 ∧
      (d.deserializeMessage env customIn S t data).1.deserializer.lastError =
        (deserialize env customIn S t data (S.defaultMessage t)).1.lastError ∧
      (d.deserializeMessage env customIn S t data).1.deserializer.lastErrorString =
        (deserialize env customIn S t data (S.defaultMessage t)).1.lastErrorString := by
  unfold deserializeMessage deserialize
  rcases env.fromJson data with _ | document
  · exact ⟨rfl, rfl, rfl⟩
  · cases document with
    | object obj =>
      cases obj with
      | nil => exact ⟨rfl, rfl, rfl⟩
      | cons member obj =>
        have hloop := DeserializerBase.deserializeMessage_eq (b := format env customIn S) (S := S)
          (decodingBound S (JsonObject.size (member :: obj)) t) t []
          ⟨{}, { state := [{ obj := member :: obj }] }⟩ (S.defaultMessage t)
        have hreset : d.clearError.reset (member :: obj) =
            ⟨{ state := [{ obj := member :: obj }] }, {}, d.serializer⟩ := rfl
        simp only [hreset, deserializeObject, Protobuf.deserializeMessage]
        simp only at hloop
        rw [← hloop]
        exact ⟨rfl, rfl, rfl⟩
    | _ => exact ⟨rfl, rfl, rfl⟩

/-- A clean serializer encodes like a new one, and is clean again. -/
theorem Clean.serializeMessage (h : d.Clean) (fuel : Nat) (t : MessageType) (m : Message) :
    (d.serializeMessage env customOut order S fuel t m).1.Clean ∧
      (d.serializeMessage env customOut order S fuel t m).2 =
        (SerializerPrivate.serializeMessage env customOut order S fuel {} t m).2 ∧
      (d.serializeMessage env customOut order S fuel t m).1.deserializer.lastError = .none ∧
      (d.serializeMessage env customOut order S fuel t m).1.deserializer.lastErrorString = "" := by
  have hstart : { d.clearError.serializer with state := ({} : SerializerImpl) } =
      { (clearError {}).serializer with state := ({} : SerializerImpl) } := by
    change SerializerBase.mk _ d.serializer.defaultMessageTypes = _
    rw [h]
    rfl
  unfold SerializerPrivate.serializeMessage
  simp only [hstart]
  cases hresult : Protobuf.serializeMessage (serializerFormat env S customOut) S order fuel t m
      { (clearError {}).serializer with state := {} } with
  | none => exact ⟨h, rfl, rfl, rfl⟩
  | some x =>
    have hkeeps : x.defaultMessageTypes = [] := serializeMessage_keeps fuel hresult
    exact ⟨hkeeps, rfl, rfl, rfl⟩

/-- Decoding does not touch the encoder. -/
theorem deserializeMessage_serializer (t : MessageType) (data : Bytes) :
    (d.deserializeMessage env customIn S t data).1.serializer = d.serializer := by
  unfold deserializeMessage
  simp only
  split <;> rfl

/-- A clean serializer stays clean and replies like a new one. -/
theorem Clean.call (h : d.Clean) (fuelAndCall : Nat × SerializerCall) :
    (d.call env customIn customOut order S fuelAndCall).1.Clean ∧
      (d.call env customIn customOut order S fuelAndCall).2 =
        (SerializerPrivate.call env customIn customOut order S {} fuelAndCall).2 := by
  obtain ⟨fuel, call⟩ := fuelAndCall
  cases call with
  | serialize t m =>
    obtain ⟨hclean, hresult, herror, htext⟩ :=
      @Clean.serializeMessage env customOut order S _ h fuel t m
    obtain ⟨-, -, herror', htext'⟩ :=
      @Clean.serializeMessage env customOut order S _ clean_new fuel t m
    refine ⟨hclean, ?_⟩
    simp only [SerializerPrivate.call, hresult, herror, htext, herror', htext']
  | deserialize t data =>
    obtain ⟨hresult, herror, htext⟩ :=
      @deserializeMessage_eq env customIn S d t data
    obtain ⟨hresult', herror', htext'⟩ :=
      @deserializeMessage_eq env customIn S {} t data
    have hclean : (d.deserializeMessage env customIn S t data).1.Clean := by
      rw [Clean, deserializeMessage_serializer, h]
    simp only [SerializerPrivate.call]
    rw [← hresult'] at hresult
    rw [← herror'] at herror
    rw [← htext'] at htext
    revert hresult herror htext hclean
    generalize d.deserializeMessage env customIn S t data = r
    generalize SerializerPrivate.deserializeMessage env customIn S {} t data = r'
    obtain ⟨d₁, m, outcome⟩ := r
    obtain ⟨d₂, m', outcome'⟩ := r'
    intro hresult herror htext hclean
    simp only at hresult herror htext hclean
    cases hresult
    cases outcome with
    | returned ok => exact ⟨hclean, by simp only [herror, htext]⟩
    | outOfFuel => exact ⟨hclean, rfl⟩

end SerializerPrivate

end QtGrpc.Protobuf.Json
