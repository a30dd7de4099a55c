import QtGrpc.Protobuf.DeserializerBase

/-!
# The loop of the encoders

`QProtobufSerializerBase` goes through the fields of a message whatever the format: it reads the
property of a field and hands it to the format, or recurses into the messages it consists of. A
format supplies the virtual functions and keeps the output it has produced. The recursion is
bounded by a fuel argument; without enough of it there is no result.
-/

namespace QtGrpc.Protobuf

/-- `messageProperty` without `allowInitialize`: a field that is not set has no value. -/
def Message.messageProperty (m : Message) (i : Nat) (f : FieldInfo) : Value :=
  match f.presence with
  | .oneof j => if holdsField (m.oneofState j) f.fieldNumber then (m.oneofState j).2 else .null
  | _ => m.member (.field i)

/-- `mustSerializeDefaultValue`. -/
def mustSerializeDefaultValue (flags : FieldFlags) : Bool :=
  flags.isOneof || flags.isOptional || flags.required

/-- `MapIterator::next`: the entry gets a key and a value, but the setter of its value skips the
assignment if the old value is equal to the new one. -/
def Message.nextEntry (entry : Message) (key : Scalar) (value : Value) : Message :=
  let entry := entry.setMember (.field 0) (.scalar key)
  if (entry.member (.field 1)).sameScalar value then entry else entry.setMember (.field 1) value

/-- The order in which a hash is iterated over. -/
structure HashOrder where
  entries : List (Scalar × Value) → List (Scalar × Value)
  unknownEntries : List (Nat × List Bytes) → List (Nat × List Bytes)
  entries_perm : ∀ l, (entries l).Perm l
  unknownEntries_perm : ∀ l, (unknownEntries l).Perm l

/-- Hashes that are iterated over in the order of their insertion. -/
def HashOrder.ofInsertion : HashOrder where
  entries l := l
  unknownEntries l := l
  entries_perm l := .refl l
  unknownEntries_perm l := .refl l

/-- The virtual functions a format implements over its own state. `interceptMessageField` is what
an override of `serializeMessageField` does in place of the base implementation. -/
structure SerializerFormat (σ : Type) where
  serializeEnum : FieldInfo → Value → σ → σ × Bool
  serializeScalarField : FieldInfo → Value → σ → σ × Bool
  serializeMessageFieldBegin : σ → σ
  serializeMessageFieldEnd : Message → FieldInfo → σ → σ
  interceptMessageField : MessageType → Message → FieldInfo → σ → Option σ

/-- `QProtobufSerializerBase` with the state of its format. -/
structure SerializerBase (σ : Type) where
  state : σ
  /-- `m_defaultMessageTypes`. -/
  defaultMessageTypes : List Nat := []

section

variable {σ : Type} (b : SerializerFormat σ) (S : Schema) (order : HashOrder)

/-- `serializeDefaultMessageField`: required fields that form a cycle are left out. -/
def serializeDefaultMessageField
    (serializeMessageField : MessageType → Message → FieldInfo → SerializerBase σ →
      Option (SerializerBase σ)) (t : Nat) (f : FieldInfo) (x : SerializerBase σ) :
    Option (SerializerBase σ) :=
  if t ∈ x.defaultMessageTypes then some x
  else
    (serializeMessageField (.named t) (S.defaultMessage (.named t)) f
      { x with defaultMessageTypes := x.defaultMessageTypes ++ [t] }).map fun x =>
        { x with defaultMessageTypes := x.defaultMessageTypes.dropLast }

/-- The entries of a map are written through one entry object. -/
def serializeEntries (write : Message → SerializerBase σ → Option (SerializerBase σ)) :
    Message → List (Scalar × Value) → SerializerBase σ → Option (SerializerBase σ)
  | _, [], x => some x
  | entry, (key, value) :: entries, x =>
    let entry := entry.nextEntry key value
    (write entry x).bind (serializeEntries write entry entries)

/-- The body of the loop of `serializeMessage` for a field and its property. -/
def serializeProperty
    (serializeMessageField : MessageType → Message → FieldInfo → SerializerBase σ →
      Option (SerializerBase σ)) (f : FieldInfo) (value : Value) (x : SerializerBase σ) :
    Option (SerializerBase σ) :=
  match f.type, value with
  | .message t, .null =>
    if f.fieldFlags.required then serializeDefaultMessageField S serializeMessageField t f x
    else some x
  | _, .null => some x
  | _, .message t m => serializeMessageField (.named t) m f x
  | _, .messages t ms => ms.foldlM (fun x m => serializeMessageField (.named t) m f x) x
  | .hash key value, .hash entries =>
    serializeEntries (fun entry => serializeMessageField (.mapEntry key value) entry f)
      (S.defaultMessage (.mapEntry key value)) (order.entries entries) x
  | type, value =>
    if f.fieldFlags.isEnum then some { x with state := (b.serializeEnum f value x.state).1 }
    else match b.serializeScalarField f value x.state with
    | (s, true) => some { x with state := s }
    | (s, false) =>
      match S.handlerOf type, value with
      | some handler, .custom _ content =>
        (handler.objects content).foldlM
          (fun x object => serializeMessageField handler.proxy object f x) { x with state := s }
      | _, _ => some { x with state := s }

/-- `serializeMessageField`, as the format may override it. -/
def serializeMessageField
    (serializeMessage : MessageType → Message → SerializerBase σ → Option (SerializerBase σ))
    (t : MessageType) (m : Message) (f : FieldInfo) (x : SerializerBase σ) :
    Option (SerializerBase σ) :=
  match b.interceptMessageField t m f x.state with
  | some s => some { x with state := s }
  | none =>
    (serializeMessage t m { x with state := b.serializeMessageFieldBegin x.state }).map fun x =>
      { x with state := b.serializeMessageFieldEnd m f x.state }

/-- `QProtobufSerializerBase::serializeMessage`. -/
def serializeMessage : Nat → MessageType → Message → SerializerBase σ → Option (SerializerBase σ)
  | 0, _, _, _ => none
  | fuel + 1, t, m, x =>
    (S.propertyOrdering t).fields.zipIdx.foldlM (fun x (f, i) =>
      serializeProperty b S order (serializeMessageField b (serializeMessage fuel)) f
        (m.messageProperty i f) x) x

/-! ## The visited default types -/

variable {b S order}

/-- The types of the default messages being written are as before. -/
def SerializerBase.Keeps (x y : SerializerBase σ) : Prop :=
  y.defaultMessageTypes = x.defaultMessageTypes

/-- What one write keeps, a loop of writes keeps. -/
theorem foldlM_keeps {α : Type} {write : SerializerBase σ → α → Option (SerializerBase σ)}
    (hwrite : ∀ x a y, write x a = some y → x.Keeps y) (l : List α) {x y : SerializerBase σ}
    (h : l.foldlM write x = some y) : x.Keeps y := by
  induction l generalizing x with
  | nil =>
    cases h
    rfl
  | cons a l ih =>
    rw [List.foldlM_cons] at h
    obtain ⟨z, hz, hrest⟩ := Option.bind_eq_some_iff.mp h
    exact (ih hrest).trans (hwrite x a z hz)

/-- The entries of a map are written within the same default messages. -/
theorem serializeEntries_keeps {write : Message → SerializerBase σ → Option (SerializerBase σ)}
    (hwrite : ∀ m x y, write m x = some y → x.Keeps y) (entries : List (Scalar × Value))
    {entry : Message} {x y : SerializerBase σ}
    (h : serializeEntries write entry entries x = some y) : x.Keeps y := by
  induction entries generalizing entry x with
  | nil =>
    cases h
    rfl
  | cons e entries ih =>
    obtain ⟨z, hz, hrest⟩ := Option.bind_eq_some_iff.mp h
    exact (ih hrest).trans (hwrite _ x z hz)

section

variable {nested : MessageType → Message → FieldInfo → SerializerBase σ → Option (SerializerBase σ)}

/-- A default message is taken out again when it has been written. -/
theorem serializeDefaultMessageField_keeps
    (hnested : ∀ t m f x y, nested t m f x = some y → x.Keeps y) {t : Nat} {f : FieldInfo}
    {x y : SerializerBase σ} (h : serializeDefaultMessageField S nested t f x = some y) :
    x.Keeps y := by
  unfold serializeDefaultMessageField at h
  split at h
  · cases h
    rfl
  · obtain ⟨z, hz, rfl⟩ := Option.map_eq_some_iff.mp h
    have hkeeps : z.defaultMessageTypes = _ := hnested _ _ _ _ _ hz
    simp only [SerializerBase.Keeps, hkeeps, List.dropLast_concat]

/-- Every property is written within the same default messages. -/
theorem serializeProperty_keeps (hnested : ∀ t m f x y, nested t m f x = some y → x.Keeps y)
    {f : FieldInfo} {value : Value} {x y : SerializerBase σ}
    (h : serializeProperty b S order nested f value x = some y) : x.Keeps y := by
  unfold serializeProperty at h
  split at h
  · split at h
    · exact serializeDefaultMessageField_keeps hnested h
    · cases h
      rfl
  · cases h
    rfl
  · exact hnested _ _ _ _ _ h
  · exact foldlM_keeps (fun x m y => hnested _ m f x y) _ h
  · exact serializeEntries_keeps (fun m x y => hnested _ m f x y) _ h
  · split at h
    · cases h
      rfl
    · split at h
      · cases h
        rfl
      · split at h
        · have hkeeps := foldlM_keeps (fun x m y => hnested _ m f x y) _ h
          exact hkeeps
        · cases h
          rfl

end

/-- Every default message that is begun is ended. -/
theorem serializeMessage_keeps (fuel : Nat) {t : MessageType} {m : Message}
    {x y : SerializerBase σ} (h : serializeMessage b S order fuel t m x = some y) : x.Keeps y := by
  induction fuel generalizing t m x y with
  | zero => cases h
  | succ fuel ih =>
    refine foldlM_keeps (fun x a y hstep => serializeProperty_keeps ?_ hstep) _ h
    intro t m f x y hnested
    unfold serializeMessageField at hnested
    split at hnested
    · cases hnested
      rfl
    · obtain ⟨z, hz, rfl⟩ := Option.map_eq_some_iff.mp hnested
      have hkeeps := ih hz
      exact hkeeps

end

end QtGrpc.Protobuf
