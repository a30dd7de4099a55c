import QtGrpc.Protobuf.Message

/-!
# The loop of the decoders

`QProtobufDeserializerBase` drives the decoding of a message whatever its format: it asks the
format for the next field, keeps the property of that field in a cache while consecutive fields
belong to it, and recurses into sub-messages. A format supplies the virtual functions.
The recursion is bounded by a fuel argument and says when that was not enough.
-/

namespace QtGrpc.Protobuf

/-- What `nextFieldIndex` found: a field, the end of the message or a failure, or neither before
the fuel was used up. -/
inductive NextField where
  | field (index : Nat)
  | finished
  | outOfFuel
deriving DecidableEq, Repr

/-- What a function returned, if it did before the fuel was used up. -/
inductive Outcome where
  | returned (ok : Bool)
  | outOfFuel
deriving DecidableEq, Repr

/-- The virtual functions a format implements over its own state. `interceptMessageField` is what
an override of `deserializeMessageField` does in place of the base implementation. -/
structure Format (σ : Type) where
  enforceRequiredFields : Bool
  hasError : σ → Bool
  setError : σ → SerializerError → String → σ
  nextFieldIndex : Nat → MessageType → σ → Message → σ × Message × NextField
  deserializeEnum : FieldInfo → σ → Value → σ × Value × Bool
  deserializeScalarField : FieldInfo → σ → Value → σ × Value × Bool
  interceptMessageField : MessageType → σ → Message → Option (σ × Message × Bool)

/-- `m_cachedIndex`, `m_cachedPropertyValue` and the entry that `m_cachedRepeatedIterator` hands
out again and again if it is valid and iterates over a map; otherwise the iterator is but a view of
the property. A nested message is decoded with a cache of its own. -/
structure Cache where
  index : Option Nat := none
  propertyValue : Value := .null
  mapEntry : Option Message := none

/-- `storeCachedValue`. -/
def storeCachedValue (S : Schema) (t : MessageType) (cache : Cache) (m : Message) :
    Cache × Message × Bool :=
  match cache.index with
  | none => (cache, m, true)
  | some i =>
    if cache.propertyValue.isNull then (cache, m, true)
    else match (S.propertyOrdering t).fields[i]? with
      | none => ({}, m, false)
      | some f =>
        let (m, ok) := S.setMessageProperty m i f cache.propertyValue
        ({}, m, ok)

/-- The cache moves on to the property of another field. -/
def selectProperty (S : Schema) (t : MessageType) (i : Nat) (f : FieldInfo) (cache : Cache)
    (m : Message) : Cache × Message × Bool :=
  if cache.index = some i then (cache, m, true)
  else
    let (cache, m, ok) := storeCachedValue S t cache m
    if ok then
      let (m, v) := S.initializedProperty m i f
      ({ cache with index := some i, propertyValue := v }, m, true)
    else (cache, m, false)

/-- `MapIterator::addNext`: the entry is reset, but the setter of its value skips the assignment if
the old value is equal to the new one. -/
def Schema.addNext (S : Schema) (key : ScalarKind) (value : MapValue) (entry : Option Message) :
    Message :=
  let m := S.defaultMessage (.mapEntry key value)
  match value, entry.map fun e : Message => e.member (.field 1) with
  | .scalar k, some (.scalar old) =>
    if old.isEqual ⟨k, k.zero⟩ then m.setMember (.field 1) (.scalar old) else m
  | _, _ => m

/-- The key of a decoded map entry. -/
def entryKey (key : ScalarKind) (entry : Message) : Scalar :=
  match entry.member (.field 0) with
  | .scalar k => k
  | _ => ⟨key, key.zero⟩

/-- The value of a decoded map entry; a message is created if the entry had none. -/
def Schema.entryValue (S : Schema) (value : MapValue) (entry : Message) : Value :=
  match value with
  | .message t => .message t (S.ensureMessage t (entry.member (.field 1)))
  | _ => entry.member (.field 1)

/-- `QtProtobufPrivate::findHandler`. -/
def Schema.handlerOf (S : Schema) : PropertyType → Option Handler
  | .custom h _ => S.findHandler h
  | _ => none

section

variable {σ : Type} (b : Format σ) (S : Schema)

/-- The jsonNames of the required fields that were not seen, in their order. -/
def missingFields (d : MessageDescriptor) (seen : List Nat) : List String :=
  (d.fields.zipIdx.filter fun (f, i) => f.fieldFlags.required && !seen.contains i).map
    fun (f, _) => f.jsonName

/-- `checkRequiredFields`. -/
def checkRequiredFields (t : MessageType) (seen : List Nat) (s : σ) : σ × Bool :=
  if !b.enforceRequiredFields || b.hasError s then (s, true)
  else
    let d := S.propertyOrdering t
    match missingFields d seen with
    | [] => (s, true)
    | missing =>
      (b.setError s .invalidFormat
        ("Message " ++ d.messageFullName ++ " is missing required fields: " ++
          String.intercalate ", " missing), false)

/-- The error of a property that could not be written. -/
def failToStore (s : σ) : σ :=
  b.setError s .invalidFormat "Unable to store the property in message"

/-- The part of `deserializeMessage` behind its loop. -/
def finishMessage (t : MessageType) (seen : List Nat) (cache : Cache) (s : σ) (m : Message) :
    σ × Message × Outcome :=
  match storeCachedValue S t cache m with
  | (_, m, false) => (failToStore b s, m, .returned false)
  | (_, m, true) =>
    let (s, ok) := checkRequiredFields b S t seen s
    (s, m, .returned ok)

/-- What the loop knows after one field: it goes on, or returns what is given. -/
structure FieldResult (σ : Type) where
  cache : Cache
  state : σ
  message : Message
  stop : Option Outcome

/-- The decoding of a scalar property, or of one whose type has a handler. -/
def deserializeWithHandler
    (deserializeMessageField : MessageType → σ → Message → σ × Message × Outcome)
    (f : FieldInfo) (cache : Cache) (s : σ) (m : Message) : FieldResult σ :=
  match b.deserializeScalarField f s cache.propertyValue with
  | (s, v, true) => ⟨{ cache with propertyValue := v }, s, m,
      if v.isNull then some (.returned false) else none⟩
  | (s, v, false) =>
    match S.handlerOf f.type with
    | none =>
      ⟨{ cache with propertyValue := v },
        b.setError s .unknownType
          ("No deserializer is registered for type " ++ S.typeName f.type), m,
        some (.returned false)⟩
    | some handler =>
      match deserializeMessageField handler.proxy s (S.defaultMessage handler.proxy), v with
      | (s, _, .outOfFuel), v => ⟨{ cache with propertyValue := v }, s, m, some .outOfFuel⟩
      | (s, object, .returned ok), .custom h content =>
        ⟨{ cache with propertyValue := .custom h (handler.assign ok object content) }, s, m, none⟩
      | (s, _, .returned _), v => ⟨{ cache with propertyValue := v }, s, m, none⟩

/-- The body of the loop of `deserializeMessage` once the cache holds the property of the field. -/
def deserializeProperty
    (deserializeMessageField : MessageType → σ → Message → σ × Message × Outcome)
    (i : Nat) (f : FieldInfo) (cache : Cache) (s : σ) (m : Message) : FieldResult σ :=
  match f.type, cache.propertyValue with
  | .message t, .message _ sub =>
    let (s, sub, outcome) := deserializeMessageField (.named t) s sub
    ⟨{ cache with propertyValue := .message t sub }, s, m.writeThrough i f (.message t sub),
      if outcome = .returned true then none else some outcome⟩
  | .messageList t, .messages _ ms =>
    let (s, sub, outcome) := deserializeMessageField (.named t) s (S.defaultMessage (.named t))
    ⟨{ cache with propertyValue := .messages t (ms ++ [sub]) }, s, m,
      if outcome = .returned true then none else some outcome⟩
  | .hash key value, .hash entries =>
    let (s, entry, outcome) :=
      deserializeMessageField (.mapEntry key value) s (S.addNext key value cache.mapEntry)
    let pushed := hashEmplace entries (entryKey key entry) (S.entryValue value entry)
    if outcome = .returned true then
      ⟨{ cache with propertyValue := .hash pushed, mapEntry := some entry }, s, m, none⟩
    else ⟨cache, s, m, some outcome⟩
  | .enum _, v | .enumList _, v =>
    match b.deserializeEnum f s v with
    | (s, v, true) => ⟨{ cache with propertyValue := v }, s, m, none⟩
    | (s, v, false) => ⟨{ cache with propertyValue := v },
        b.setError s .unknownType "Unable to covert enum field to compatible serialization format",
        m, some (.returned false)⟩
  | _, _ => deserializeWithHandler b S deserializeMessageField f cache s m

/-- The loop of `deserializeMessage`, entered with what its earlier iterations left behind. -/
def deserializeLoop : Nat → MessageType → List Nat → Cache → σ → Message → σ × Message × Outcome
  | 0, _, _, _, s, m => (s, m, .outOfFuel)
  | fuel + 1, t, seen, cache, s, m =>
    match b.nextFieldIndex (fuel + 1) t s m with
    | (s, m, .outOfFuel) => (s, m, .outOfFuel)
    | (s, m, .finished) => finishMessage b S t seen cache s m
    | (s, m, .field i) =>
      match (S.propertyOrdering t).fields[i]? with
      | none => (s, m, .returned false)
      | some f =>
        match selectProperty S t i f cache m with
        | (_, m, false) => (failToStore b s, m, .returned false)
        | (cache, m, true) =>
          let result := deserializeProperty b S
            (fun t s m =>
              match b.interceptMessageField t s m with
              | some (s, m, ok) => (s, m, .returned ok)
              | none => deserializeLoop fuel t [] {} s m)
            i f cache s m
          match result.stop with
          | some outcome => (result.state, result.message, outcome)
          | none => deserializeLoop fuel t (i :: seen) result.cache result.state result.message

/-- `QProtobufDeserializerBase::deserializeMessage`. -/
def deserializeMessage (fuel : Nat) (t : MessageType) (s : σ) (m : Message) :
    σ × Message × Outcome :=
  deserializeLoop b S fuel t [] {} s m

/-- `deserializeMessageField`, as the format may override it. -/
def deserializeMessageField (fuel : Nat) (t : MessageType) (s : σ) (m : Message) :
    σ × Message × Outcome :=
  match b.interceptMessageField t s m with
  | some (s, m, ok) => (s, m, .returned ok)
  | none => deserializeMessage b S fuel t s m

end

end QtGrpc.Protobuf
