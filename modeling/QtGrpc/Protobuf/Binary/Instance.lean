import QtGrpc.Protobuf.Instance
import QtGrpc.Protobuf.Binary.Deserializer
import QtGrpc.Protobuf.Binary.Serializer
import QtGrpc.Protobuf.Binary.Steps

/-!
# The binary serializer as an object

`QProtobufSerializer` owns an encoder and a decoder and serves one call after the other with them.
All that a call finds from earlier ones, besides the settings, is the wire type of the header that
was decoded last, and nothing reads it before the next header is decoded.
-/

namespace QtGrpc.Protobuf.Binary

/-- The settings of a serializer. -/
structure Settings where
  maximumInputSize : Option (Fin (maxSerializeMessageSizeLimit + 1)) := none
  envMaximumInputSize : Option (Fin (maxSerializeMessageSizeLimit + 1)) := none
  preserveUnknownFields : Bool := true

/-- `QProtobufSerializerPrivate`: the limits and the decoder with the last error, the decoder's
cache, and the encoder. -/
structure SerializerPrivate where
  base : Serializer
  cache : Cache := {}
  serializer : SerializerBase SerializerImpl := { state := {} }

namespace SerializerPrivate

/-- A new serializer. -/
def new (settings : Settings) : SerializerPrivate where
  base :=
    { maximumInputSize := settings.maximumInputSize
      envMaximumInputSize := settings.envMaximumInputSize
      deserializer :=
        { it := .fromView []
          state := []
          wireType := .varint
          lastError := .unknownType
          lastErrorString := ""
          preserveUnknownFields := settings.preserveUnknownFields
          visits := [] } }

def preserveUnknownFields (d : SerializerPrivate) : Bool :=
  d.base.deserializer.preserveUnknownFields

/-- `clearError`. The records of the decoder begin anew. -/
def clearError (d : SerializerPrivate) : SerializerPrivate :=
  { d with base := { d.base with
      deserializer := { d.base.deserializer with visits := [] }.setError .none "" } }

/-- `setMessageTooLargeError`. -/
def setMessageTooLargeError (d : SerializerPrivate) (size limit : Nat) : SerializerPrivate :=
  { d with base := { d.base with
      deserializer := Serializer.setMessageTooLargeError d.base.deserializer size limit } }

variable (env : Environment) (order : HashOrder) (S : Schema)

/-- `QProtobufSerializer::serializeMessage`. -/
def serializeMessage (fuel : Nat) (d : SerializerPrivate) (t : MessageType) (m : Message) :
    SerializerPrivate × Option Bytes :=
  let d := d.clearError
  match Protobuf.serializeMessage (serializerFormat order d.preserveUnknownFields) S order fuel t m
      { d.serializer with state := {} } with
  | none => (d, none)
  | some x =>
    let result := (serializeUnknownFields order d.preserveUnknownFields m x.state).result
    let d := { d with serializer := { x with state := {} } }
    if result.length > maxSerializeMessageSizeLimit then
      (d.setMessageTooLargeError result.length maxSerializeMessageSizeLimit, some [])
    else (d, some result)

/-- `QProtobufSerializer::deserializeMessage`, of a message that was wiped. -/
def deserializeMessage (fuel : Nat) (d : SerializerPrivate) (t : MessageType) (data : Bytes) :
    SerializerPrivate × Message × Outcome :=
  let m := S.defaultMessage t
  let d := d.clearError
  if data.length > d.base.effectiveMaximumInputSize then
    (d.setMessageTooLargeError data.length d.base.effectiveMaximumInputSize, m, .returned false)
  else
    match DeserializerBase.deserializeMessage (format env S) S fuel t []
        ⟨{}, d.base.deserializer.reset data⟩ m with
    | (x, m, .outOfFuel) =>
      ({ d with base := { d.base with deserializer := x.state }, cache := x.cache }, m, .outOfFuel)
    | (x, m, .returned _) =>
      let deserializer := x.state.reset []
      ({ d with base := { d.base with deserializer }, cache := {} }, m,
        .returned (deserializer.lastError == .none))

/-- A call of `QProtobufSerializer`. -/
def call (d : SerializerPrivate) (fuelAndCall : Nat × SerializerCall) : SerializerPrivate × Option Reply :=
  match fuelAndCall with
  | (fuel, .serialize t m) =>
    let (d, data) := d.serializeMessage order S fuel t m
    (d, data.map fun data =>
      .serialized data d.base.deserializer.lastError d.base.deserializer.lastErrorString)
  | (fuel, .deserialize t data) =>
    match d.deserializeMessage env S fuel t data with
    | (d, _, .outOfFuel) => (d, none)
    | (d, m, .returned ok) =>
      (d, some (.deserialized ok m d.base.deserializer.lastError
        d.base.deserializer.lastErrorString))

/-- Settings apart, a serializer is clean if it is not in the middle of a default message. -/
structure Clean (settings : Settings) (d : SerializerPrivate) : Prop where
  maximumInputSize : d.base.maximumInputSize = settings.maximumInputSize
  envMaximumInputSize : d.base.envMaximumInputSize = settings.envMaximumInputSize
  preserveUnknownFields : d.preserveUnknownFields = settings.preserveUnknownFields
  defaultMessageTypes : d.serializer.defaultMessageTypes = []

/-- A new serializer is clean. -/
theorem clean_new (settings : Settings) : (new settings).Clean settings := ⟨rfl, rfl, rfl, rfl⟩

end SerializerPrivate

/-! ## The wire type that was decoded last -/

/-- Two decoders that differ at most in the wire type. -/
def Deserializer.SameButWireType (d d' : Deserializer) : Prop := ∃ w, d' = { d with wireType := w }

/-- A decoder does not differ from itself. -/
theorem Deserializer.SameButWireType.refl (d : Deserializer) : d.SameButWireType d :=
  ⟨d.wireType, rfl⟩

variable {env : Environment} {S : Schema}

/-- `nextFieldIndex` does not depend on the wire type before, and sets it where it finds a field. -/
theorem nextFieldIndex_sameButWireType {d d' : Deserializer} (h : d.SameButWireType d')
    (fuel : Nat) (t : MessageType) (m : Message) :
    (nextFieldIndex env S fuel t d' m).2 = (nextFieldIndex env S fuel t d m).2 ∧
      (nextFieldIndex env S fuel t d m).1.SameButWireType (nextFieldIndex env S fuel t d' m).1 ∧
      ∀ i, (nextFieldIndex env S fuel t d m).2.2 = .field i →
        (nextFieldIndex env S fuel t d' m).1 = (nextFieldIndex env S fuel t d m).1 := by
  obtain ⟨w, rfl⟩ := h
  cases fuel with
  | zero => exact ⟨rfl, ⟨w, rfl⟩, fun i hi => by cases hi⟩
  | succ fuel =>
    rw [nextFieldIndex, nextFieldIndex]
    simp only
    split
    · rcases decodeHeader env d.it with ⟨it, _ | ⟨n, w'⟩⟩
      · exact ⟨rfl, ⟨w, rfl⟩, fun i hi => by cases hi⟩
      · -- The header sets the wire type.
        have hvisit : Deserializer.visit { d with wireType := w } t it n w' = d.visit t it n w' := rfl
        simp only [hvisit, true_and, implies_true, and_true]
        exact .refl _
    · split
      · exact ⟨rfl, ⟨w, rfl⟩, fun i hi => by cases hi⟩
      · exact ⟨rfl, ⟨w, rfl⟩, fun i hi => by cases hi⟩

/-- Nor does the end of a message depend on it. -/
theorem finishMessage_sameButWireType {d d' : Deserializer} (h : d.SameButWireType d')
    (t : MessageType) (seen : List Nat) (cache : Cache) (m : Message) :
    (finishMessage (format env S) S t seen cache d' m).2 =
        (finishMessage (format env S) S t seen cache d m).2 ∧
      (finishMessage (format env S) S t seen cache d m).1.SameButWireType
        (finishMessage (format env S) S t seen cache d' m).1 := by
  obtain ⟨w, rfl⟩ := h
  unfold finishMessage
  rcases storeCachedValue S t cache m with ⟨cache, m, _ | _⟩
  · exact ⟨rfl, w, rfl⟩
  · have herror : (format env S).hasError { d with wireType := w } = (format env S).hasError d := rfl
    simp only [checkRequiredFields, herror]
    split
    · exact ⟨rfl, w, rfl⟩
    · split
      · exact ⟨rfl, w, rfl⟩
      · exact ⟨rfl, w, rfl⟩

/-- The loop does not depend on the wire type it finds. -/
theorem deserializeLoop_sameButWireType {d d' : Deserializer} (h : d.SameButWireType d')
    (fuel : Nat) (t : MessageType) (seen : List Nat) (cache : Cache) (m : Message) :
    (deserializeLoop (format env S) S fuel t seen cache d' m).2 =
        (deserializeLoop (format env S) S fuel t seen cache d m).2 ∧
      (deserializeLoop (format env S) S fuel t seen cache d m).1.SameButWireType
        (deserializeLoop (format env S) S fuel t seen cache d' m).1 := by
  cases fuel with
  | zero => exact ⟨rfl, h⟩
  | succ fuel =>
    obtain ⟨hrest, hstate, hfield⟩ := @nextFieldIndex_sameButWireType env S _ _ h
      (fuel + 1) t m
    rw [deserializeLoop_succ, deserializeLoop_succ]
    simp only [show (format env S).nextFieldIndex = nextFieldIndex env S from rfl]
    rcases hnext : nextFieldIndex env S (fuel + 1) t d m with ⟨d₁, m₁, i | _ | _⟩
    all_goals
      rcases hnext' : nextFieldIndex env S (fuel + 1) t d' m with ⟨d₂, m₂, next⟩
      rw [hnext, hnext'] at hrest hstate
      simp only at hrest
      cases hrest
    · rw [hnext, hnext'] at hfield
      obtain rfl : d₂ = d₁ := hfield i rfl
      exact ⟨rfl, .refl _⟩
    · exact finishMessage_sameButWireType hstate t seen cache m₁
    · exact ⟨rfl, hstate⟩

/-! ## The setting is kept -/

/-- The setting for unknown fields is as before. -/
def Deserializer.KeepsSetting (d d' : Deserializer) : Prop :=
  d'.preserveUnknownFields = d.preserveUnknownFields

/-- Entering a field keeps the setting. -/
theorem enterField_keepsSetting (f : FieldInfo) (i : Nat) (d : Deserializer) :
    d.KeepsSetting (enterField env f i d).1 := by
  unfold enterField
  split
  · split
    · rfl
    · simp only
      split <;> rfl
  · rfl

/-- So does `nextFieldIndex`. -/
theorem nextFieldIndex_keepsSetting (fuel : Nat) (t : MessageType) (d : Deserializer)
    (m : Message) : d.KeepsSetting (nextFieldIndex env S fuel t d m).1 := by
  induction fuel generalizing d m with
  | zero => rfl
  | succ fuel ih =>
    have hstep := nextFieldIndex_step env S fuel t d m
    generalize nextFieldIndex env S (fuel + 1) t d m = r at hstep ⊢
    cases hstep with
    | ended h =>
      unfold Deserializer.leaveFrame
      split <;> rfl
    | skipped it it' n w m' => exact ih { d.visit t it n w with it := it' } m'
    | known it n w i f => exact enterField_keepsSetting f i (d.visit t it n w)
    | badHeader => rfl
    | stuck => rfl
    | overrun => rfl
    | backwards => rfl
    | noField => rfl

/-- So does the reading of an enum field. -/
theorem deserializeEnum_keepsSetting (f : FieldInfo) (d : Deserializer) (v : Value) :
    d.KeepsSetting (deserializeEnum env f d v).1 := by
  unfold deserializeEnum
  split
  · split
    · simp only
      split <;> rfl
    · rfl
  · split <;> rfl

/-- So does the reading of a scalar field. -/
theorem deserializeScalarField_keepsSetting (f : FieldInfo) (d : Deserializer) (v : Value) :
    d.KeepsSetting (deserializeScalarField env S f d v).1 := by
  unfold deserializeScalarField
  simp only
  split
  · rfl
  · split
    · rfl
    · split <;> rfl

/-- So does everything the binary format does. -/
theorem format_keepsSetting : (format env S).Within Deserializer.KeepsSetting where
  refl _ := rfl
  trans h h' := h'.trans h
  nextFieldIndex := nextFieldIndex_keepsSetting
  deserializeEnum := deserializeEnum_keepsSetting
  deserializeScalarField := deserializeScalarField_keepsSetting
  setError _ _ _ _ := rfl
  interceptMessageField := by simp [format]

/-! ## Calls -/

namespace SerializerPrivate

variable {order : HashOrder} {settings : Settings}

/-- What a call of the decoder gives is what the decoder without the object around it gives. -/
theorem deserializeMessage_eq (fuel : Nat) (d : SerializerPrivate) (t : MessageType)
    (data : Bytes) :
    ((d.deserializeMessage env S fuel t data).1.base, (d.deserializeMessage env S fuel t data).2) =
      d.base.deserialize env S fuel t data := by
  have hloop := DeserializerBase.deserializeMessage_eq (b := format env S) (S := S) fuel t []
    ⟨{}, d.clearError.base.deserializer.reset data⟩ (S.defaultMessage t)
  unfold deserializeMessage Serializer.deserialize
  simp only [Protobuf.deserializeMessage]
  have hlimit : d.clearError.base.effectiveMaximumInputSize = d.base.effectiveMaximumInputSize := rfl
  rw [hlimit]
  split
  · rfl
  · have hstarted : d.clearError.base.deserializer.reset data =
        Serializer.started d.base.deserializer data := rfl
    rw [hstarted] at hloop ⊢
    simp only at hloop
    rw [← hloop]
    generalize DeserializerBase.deserializeMessage (format env S) S fuel t []
      ⟨{}, Serializer.started d.base.deserializer data⟩ (S.defaultMessage t) = r
    obtain ⟨x, m, ok | _⟩ := r
    · rfl
    · rfl

/-- Decoding does not touch the encoder. -/
theorem deserializeMessage_serializer (fuel : Nat) (d : SerializerPrivate) (t : MessageType)
    (data : Bytes) : (d.deserializeMessage env S fuel t data).1.serializer = d.serializer := by
  unfold deserializeMessage
  simp only
  split
  · rfl
  · split <;> rfl

end SerializerPrivate

/-- Serializers with the same settings decode alike. -/
theorem Serializer.deserialize_congr {s s' : Serializer}
    (hmaximum : s'.maximumInputSize = s.maximumInputSize)
    (henv : s'.envMaximumInputSize = s.envMaximumInputSize)
    (hpreserve : s'.deserializer.preserveUnknownFields = s.deserializer.preserveUnknownFields)
    (fuel : Nat) (t : MessageType) (data : Bytes) :
    (s'.deserialize env S fuel t data).2 = (s.deserialize env S fuel t data).2 ∧
      (s'.deserialize env S fuel t data).1.deserializer.lastError =
        (s.deserialize env S fuel t data).1.deserializer.lastError ∧
      (s'.deserialize env S fuel t data).1.deserializer.lastErrorString =
        (s.deserialize env S fuel t data).1.deserializer.lastErrorString := by
  have hlimit : s'.effectiveMaximumInputSize = s.effectiveMaximumInputSize := by
    simp only [effectiveMaximumInputSize, hmaximum, henv]
  have hstarted : (started s.deserializer data).SameButWireType (started s'.deserializer data) :=
    ⟨s'.deserializer.wireType, by
      simp [started, Deserializer.reset, Deserializer.setError, hpreserve]⟩
  obtain ⟨hrest, hstate⟩ := @deserializeLoop_sameButWireType env S _ _ hstarted fuel t []
    {} (S.defaultMessage t)
  unfold deserialize
  simp only [hlimit, deserializeMessage]
  split
  · exact ⟨rfl, rfl, rfl⟩
  · revert hrest hstate
    generalize deserializeLoop (format env S) S fuel t [] {} (started s.deserializer data)
      (S.defaultMessage t) = r
    generalize deserializeLoop (format env S) S fuel t [] {} (started s'.deserializer data)
      (S.defaultMessage t) = r'
    obtain ⟨d, m, outcome⟩ := r
    obtain ⟨d', m', outcome'⟩ := r'
    rintro hrest ⟨w, hd⟩
    simp only at hrest hd
    cases hrest
    cases hd
    cases outcome with
    | returned ok => exact ⟨rfl, rfl, rfl⟩
    | outOfFuel => exact ⟨rfl, rfl, rfl⟩

/-- Decoding changes no setting. -/
theorem Serializer.deserialize_keeps (s : Serializer) (fuel : Nat) (t : MessageType)
    (data : Bytes) :
    (s.deserialize env S fuel t data).1.maximumInputSize = s.maximumInputSize ∧
      (s.deserialize env S fuel t data).1.envMaximumInputSize = s.envMaximumInputSize ∧
      (s.deserialize env S fuel t data).1.deserializer.preserveUnknownFields =
        s.deserializer.preserveUnknownFields := by
  have hkeeps := @deserializeLoop_within _ _ S _ (@format_keepsSetting env S) fuel t
    [] {} (started s.deserializer data) (S.defaultMessage t)
  unfold deserialize
  simp only [deserializeMessage]
  split
  · exact ⟨rfl, rfl, rfl⟩
  · revert hkeeps
    generalize deserializeLoop (format env S) S fuel t [] {} (started s.deserializer data)
      (S.defaultMessage t) = r
    obtain ⟨d, m, ok | _⟩ := r
    · exact fun hkeeps => ⟨rfl, rfl, hkeeps⟩
    · exact fun hkeeps => ⟨rfl, rfl, hkeeps⟩

namespace SerializerPrivate

variable {order : HashOrder} {settings : Settings} {d : SerializerPrivate}

/-- The encoder starts from the same state in every clean serializer. -/
theorem Clean.serializeMessage (h : d.Clean settings) (fuel : Nat) (t : MessageType) (m : Message) :
    (d.serializeMessage order S fuel t m).1.Clean settings ∧
      (d.serializeMessage order S fuel t m).2 = ((new settings).serializeMessage order S fuel t m).2 ∧
      (d.serializeMessage order S fuel t m).1.base.deserializer.lastError =
        ((new settings).serializeMessage order S fuel t m).1.base.deserializer.lastError ∧
      (d.serializeMessage order S fuel t m).1.base.deserializer.lastErrorString =
        ((new settings).serializeMessage order S fuel t m).1.base.deserializer.lastErrorString := by
  obtain ⟨hmaximum, henv, hpreserve, htypes⟩ := h
  have hcleared : d.clearError.preserveUnknownFields =
      (new settings).clearError.preserveUnknownFields := hpreserve
  have hstart : { d.clearError.serializer with state := ({} : SerializerImpl) } =
      { (new settings).clearError.serializer with state := ({} : SerializerImpl) } := by
    change SerializerBase.mk _ d.serializer.defaultMessageTypes = _
    rw [htypes]
    rfl
  unfold SerializerPrivate.serializeMessage
  simp only [hcleared, hstart]
  cases hresult : Protobuf.serializeMessage
      (serializerFormat order (new settings).clearError.preserveUnknownFields) S order fuel t m
      { (new settings).clearError.serializer with state := {} } with
  | none => exact ⟨⟨hmaximum, henv, hpreserve, htypes⟩, rfl, rfl, rfl⟩
  | some x =>
    have hkeeps : x.defaultMessageTypes = [] := serializeMessage_keeps fuel hresult
    simp only
    split
    · exact ⟨⟨hmaximum, henv, hpreserve, hkeeps⟩, rfl, rfl, rfl⟩
    · exact ⟨⟨hmaximum, henv, hpreserve, hkeeps⟩, rfl, rfl, rfl⟩

/-- A clean serializer decodes like a new one, and is clean again. -/
theorem Clean.deserializeMessage (h : d.Clean settings) (fuel : Nat) (t : MessageType)
    (data : Bytes) :
    (d.deserializeMessage env S fuel t data).1.Clean settings ∧
      (d.deserializeMessage env S fuel t data).2 =
        ((new settings).deserializeMessage env S fuel t data).2 ∧
      (d.deserializeMessage env S fuel t data).1.base.deserializer.lastError =
        ((new settings).deserializeMessage env S fuel t data).1.base.deserializer.lastError ∧
      (d.deserializeMessage env S fuel t data).1.base.deserializer.lastErrorString =
        ((new settings).deserializeMessage env S fuel t data).1.base.deserializer.lastErrorString := by
  obtain ⟨hmaximum, henv, hpreserve, htypes⟩ := h
  have heq := @deserializeMessage_eq env S fuel d t data
  have heq' := @deserializeMessage_eq env S fuel (new settings) t data
  obtain ⟨hrest, herror, htext⟩ := @Serializer.deserialize_congr env S
    (new settings).base d.base hmaximum henv hpreserve fuel t data
  obtain ⟨hmaximum', henv', hpreserve'⟩ :=
    @Serializer.deserialize_keeps env S d.base fuel t data
  rw [← heq] at hmaximum' henv' hpreserve'
  rw [← heq, ← heq'] at hrest herror htext
  refine ⟨⟨hmaximum'.trans hmaximum, henv'.trans henv, hpreserve'.trans hpreserve, ?_⟩, hrest,
    herror, htext⟩
  rw [deserializeMessage_serializer, htypes]

/-- A clean serializer stays clean and replies like a new one. -/
theorem Clean.call (h : d.Clean settings) (fuelAndCall : Nat × SerializerCall) :
    (d.call env order S fuelAndCall).1.Clean settings ∧
      (d.call env order S fuelAndCall).2 = ((new settings).call env order S fuelAndCall).2 := by
  obtain ⟨fuel, call⟩ := fuelAndCall
  cases call with
  | serialize t m =>
    obtain ⟨hclean, hresult, herror, htext⟩ := @Clean.serializeMessage S order _ _ h fuel t m
    refine ⟨hclean, ?_⟩
    simp only [SerializerPrivate.call, hresult, herror, htext]
  | deserialize t data =>
    obtain ⟨hclean, hresult, herror, htext⟩ := @Clean.deserializeMessage env S _ _ h fuel t data
    simp only [SerializerPrivate.call]
    revert hclean hresult herror htext
    generalize d.deserializeMessage env S fuel t data = r
    generalize (new settings).deserializeMessage env S fuel t data = r'
    obtain ⟨d₁, m, outcome⟩ := r
    obtain ⟨d₂, m', outcome'⟩ := r'
    intro hclean hresult herror htext
    simp only at hclean hresult herror htext
    cases hresult
    cases outcome with
    | returned ok => exact ⟨hclean, by simp only [herror, htext]⟩
    | outOfFuel => exact ⟨hclean, rfl⟩

end SerializerPrivate

end QtGrpc.Protobuf.Binary
