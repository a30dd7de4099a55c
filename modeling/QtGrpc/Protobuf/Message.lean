import QtGrpc.Protobuf.Scalar
import Mathlib

/-!
# Message types and messages

What the generator emits for a message type: the ordering of its fields with their flags, the
members of its private data class, and the property accessors the serializers go through. A
message is the content of those members together with the fields a decoder did not know.
-/

namespace QtGrpc.Protobuf

/-- `QtProtobufPrivate::FieldFlags`. -/
structure FieldFlags where
  nonPacked : Bool := false
  isOneof : Bool := false
  isOptional : Bool := false
  explicitPresence : Bool := false
  isMessage : Bool := false
  isEnum : Bool := false
  repeated : Bool := false
  isMap : Bool := false
  required : Bool := false
deriving DecidableEq, Repr

/-- The types a map may hold; generated map types admit no others. -/
inductive MapValue where
  | scalar (k : ScalarKind)
  | enum (e : Nat)
  | message (t : Nat)
deriving DecidableEq, Repr

/-- A generated message type, or the entry type of a map. -/
inductive MessageType where
  | named (t : Nat)
  | mapEntry (key : ScalarKind) (value : MapValue)
deriving DecidableEq, Repr

/-- The meta type of a property. A `custom` one belongs to a type with a registered handler. -/
inductive PropertyType where
  | scalar (k : ScalarKind)
  | list (k : ScalarKind)
  | enum (e : Nat)
  | enumList (e : Nat)
  | message (t : Nat)
  | messageList (t : Nat)
  | hash (key : ScalarKind) (value : MapValue)
  | custom (h : Nat) (isList : Bool)
deriving DecidableEq, Repr

/-- How a field tells whether it is set. The two fields of a map entry are a case of their own. -/
inductive Presence where
  | implicit
  | optional
  | required
  | oneof (j : Nat)
  | mapEntry
deriving DecidableEq, Repr

/-- What the generator knows of a field. -/
structure FieldInfo where
  fieldNumber : Nat
  jsonName : String
  type : PropertyType
  presence : Presence := .implicit
  packed : Bool := true
deriving DecidableEq, Repr

namespace PropertyType

def isRepeated : PropertyType → Bool
  | .list _ | .enumList _ | .messageList _ | .custom _ true => true
  | _ => false

def isMap : PropertyType → Bool
  | .hash .. => true
  | _ => false

def isEnum : PropertyType → Bool
  | .enum _ | .enumList _ => true
  | _ => false

/-- Maps and types with a handler are declared as messages too. -/
def isMessage : PropertyType → Bool
  | .message _ | .messageList _ | .hash .. | .custom .. => true
  | _ => false

/-- `isPureMessage`. -/
def isPureMessage : PropertyType → Bool
  | .message _ => true
  | _ => false

/-- Repeated numbers and enumerators may be packed. -/
def isPackable : PropertyType → Bool
  | .list k => !k.isLengthDelimited
  | .enumList _ => true
  | _ => false

/-- The property type of a map's values. -/
def ofMapValue : MapValue → PropertyType
  | .scalar k => .scalar k
  | .enum e => .enum e
  | .message t => .message t

/-- The type of the messages a property of this type consists of. -/
def nestedType : PropertyType → Option MessageType
  | .message t | .messageList t => some (.named t)
  | .hash key value => some (.mapEntry key value)
  | _ => none

end PropertyType

namespace FieldInfo

/-- The flags of the generated orderings. -/
def collectFieldFlags (f : FieldInfo) : FieldFlags :=
  let isOneof := match f.presence with
    | .oneof _ => true
    | _ => false
  let isOptional := !f.type.isMessage && f.presence == .optional
  { nonPacked := f.type.isPackable && !f.packed
    isOneof
    isOptional
    required := f.presence == .required
    explicitPresence := isOneof || isOptional || f.type.isPureMessage
    isMap := f.type.isMap
    repeated := f.type.isRepeated
    isEnum := f.type.isEnum
    isMessage := f.type.isMessage }

/-- The flags of the fields of a map entry. -/
def getFlagForType (type : PropertyType) : FieldFlags :=
  { isMessage := type.isPureMessage
    explicitPresence := type.isPureMessage
    isEnum := type.isEnum
    repeated := type.isRepeated
    isMap := type.isMap
    isOptional := true }

/-- `QProtobufFieldInfo::fieldFlags`. -/
def fieldFlags (f : FieldInfo) : FieldFlags :=
  match f.presence with
  | .mapEntry => getFlagForType f.type
  | _ => f.collectFieldFlags

/-- Only singular scalars and enumerators take a presence keyword of their own, and repeated
fields and maps have none. -/
def presenceFits (f : FieldInfo) : Bool :=
  match f.presence, f.type with
  | .implicit, _ => true
  | .optional, .scalar _ | .optional, .enum _ => true
  | .mapEntry, .scalar _ | .mapEntry, .enum _ | .mapEntry, .message _ => true
  | .required, .scalar _ | .required, .enum _ | .required, .message _ => true
  | .required, .custom _ false => true
  | .oneof _, .scalar _ | .oneof _, .enum _ | .oneof _, .message _ | .oneof _, .custom _ false => true
  | _, _ => false

end FieldInfo

/-- The flags a frame is opened for are those of the types decoded from messages. -/
theorem FieldInfo.fieldFlags_isMessage {f : FieldInfo} (h : f.presenceFits) :
    (f.fieldFlags.isMessage || f.fieldFlags.isMap) = f.type.isMessage := by
  unfold FieldInfo.fieldFlags
  split
  · rename_i hp
    unfold FieldInfo.presenceFits at h
    rw [hp] at h
    cases hf : f.type <;> simp_all [FieldInfo.getFlagForType, PropertyType.isPureMessage,
      PropertyType.isMap, PropertyType.isMessage]
  · cases hf : f.type <;> simp [FieldInfo.collectFieldFlags, PropertyType.isMap,
      PropertyType.isMessage, hf]

/-- The flag for repeated fields tells what the type is. -/
theorem FieldInfo.fieldFlags_repeated (f : FieldInfo) : f.fieldFlags.repeated = f.type.isRepeated := by
  unfold FieldInfo.fieldFlags
  split <;> rfl

/-- `QProtobufPropertyOrdering` of a message type the generator accepts. -/
structure MessageDescriptor where
  messageFullName : String
  fields : List FieldInfo
  numbers_nodup : (fields.map (·.fieldNumber)).Nodup
  numbers_bound : ∀ f ∈ fields, 0 < f.fieldNumber ∧ f.fieldNumber ≤ 2 ^ 29 - 1
  presence_fits : ∀ f ∈ fields, f.presenceFits

namespace MessageDescriptor

/-- `QProtobufPropertyOrdering::indexOfFieldNumber`. -/
def indexOfFieldNumber (d : MessageDescriptor) (fieldNumber : Nat) : Option Nat :=
  if fieldNumber > 0 then d.fields.findIdx? (·.fieldNumber == fieldNumber) else none

/-- A message type without fields. -/
def withoutFields (messageFullName : String) : MessageDescriptor where
  messageFullName
  fields := []
  numbers_nodup := List.nodup_nil
  numbers_bound := by simp
  presence_fits := by simp

/-- A message without fields has no field number. -/
@[simp]
theorem indexOfFieldNumber_withoutFields (name : String) (fieldNumber : Nat) :
    (withoutFields name).indexOfFieldNumber fieldNumber = none := by
  simp [indexOfFieldNumber, withoutFields]

/-- `buildMapEntryOrdering`. -/
def mapEntry (key : ScalarKind) (value : MapValue) : MessageDescriptor where
  messageFullName := "MapEntry"
  fields := [
    { fieldNumber := 1, jsonName := "key", type := .scalar key, presence := .mapEntry },
    { fieldNumber := 2, jsonName := "value", type := .ofMapValue value, presence := .mapEntry }]
  numbers_nodup := by simp
  numbers_bound := by simp
  presence_fits := by cases value <;> simp [FieldInfo.presenceFits, PropertyType.ofMapValue]

end MessageDescriptor

/-- A data member of a generated message: one for each field, except that the fields of a oneof
share one. -/
inductive Member where
  | field (i : Nat)
  | oneof (j : Nat)
deriving DecidableEq, Repr

mutual

/-- The members of a message and the fields kept for re-emission, grouped by their number. -/
inductive Message where
  | mk (member : Member → Value) (unknownEntries : List (Nat × List Bytes))

/-- What a `QVariant` or a member holds. A default-constructed variant, a null pointer and an
empty `std::optional` are all `null`. -/
inductive Value where
  | null
  | scalar (v : Scalar)
  | scalars (k : ScalarKind) (vs : List k.Carrier)
  | enumerator (e : Nat) (v : BitVec 32)
  | enumerators (e : Nat) (vs : List (BitVec 32))
  | message (t : Nat) (m : Message)
  | messages (t : Nat) (ms : List Message)
  | hash (entries : List (Scalar × Value))
  | custom (h : Nat) (content : List Message)
  | oneof (fieldNumber : Nat) (value : Value)

end

/-- A handler registered for a type without an ordering of its own: the message type it is
exchanged as, the messages a value is written as, what becomes of a value when a message was
decoded for it, successfully or not, and the `operator==` of the type. -/
structure Handler where
  proxy : MessageType
  objects : List Message → List Message
  assign : Bool → Message → List Message → List Message
  isEqual : List Message → List Message → Bool

/-- The message types, enumerations and handlers known to a program. -/
structure Schema where
  message : Nat → MessageDescriptor
  /-- The keys of an enumeration with their values, in the order of their declaration. -/
  enumKeys : Nat → List (String × BitVec 32)
  findHandler : Nat → Option Handler
  /-- What a setter leaves of two lists of messages of one length. It compares them first, and
  comparing two messages creates the sub-messages that only one of them has. -/
  assignMessages : Nat → List Message → List Message → List Message := fun _ _ new => new
  /-- The same of two maps of messages of one size; `QHash` compares them in an order of its own. -/
  assignEntries : Nat → List (Scalar × Value) → List (Scalar × Value) → List (Scalar × Value) :=
    fun _ _ new => new
  /-- `QMetaType::name`. -/
  typeName : PropertyType → String

/-- `QProtobufMessage::propertyOrdering`. -/
def Schema.propertyOrdering (S : Schema) : MessageType → MessageDescriptor
  | .named t => S.message t
  | .mapEntry key value => .mapEntry key value

/-- The first value of an enumeration, with which its members are initialized. -/
def Schema.firstEnumerator (S : Schema) (e : Nat) : BitVec 32 :=
  ((S.enumKeys e).head?.map (·.2)).getD 0

/-- `QMetaEnum::keyToValue`. -/
def Schema.keyToValue (S : Schema) (e : Nat) (key : String) : Option (BitVec 32) :=
  (S.enumKeys e).lookup key

/-- `QMetaEnum::valueToKey`. -/
def Schema.valueToKey (S : Schema) (e : Nat) (value : BitVec 32) : Option String :=
  ((S.enumKeys e).find? (·.2 == value)).map (·.1)

namespace Message

def member : Message → Member → Value
  | .mk member _ => member

def unknownEntries : Message → List (Nat × List Bytes)
  | .mk _ unknownEntries => unknownEntries

def setMember (m : Message) (x : Member) (v : Value) : Message :=
  .mk (Function.update m.member x v) m.unknownEntries

/-- A member that is set has the value. -/
@[simp] theorem member_setMember_self (m : Message) (x : Member) (v : Value) :
    (m.setMember x v).member x = v := by
  simp [setMember, member]

/-- The other members stay. -/
@[simp] theorem member_setMember_of_ne (m : Message) {x y : Member} (v : Value) (h : y ≠ x) :
    (m.setMember x v).member y = m.member y := by
  simp [setMember, member, h]

/-- Setting a member leaves the unknown fields alone. -/
@[simp] theorem unknownEntries_setMember (m : Message) (x : Member) (v : Value) :
    (m.setMember x v).unknownEntries = m.unknownEntries := rfl

/-- `QProtobufMessagePrivate::storeUnknownEntry`. -/
def storeUnknownEntry (m : Message) (entry : Bytes) (fieldNumber : Nat) : Message :=
  let rec append : List (Nat × List Bytes) → List (Nat × List Bytes)
    | [] => [(fieldNumber, [entry])]
    | (n, entries) :: rest =>
      if n = fieldNumber then (n, entries ++ [entry]) :: rest else (n, entries) :: append rest
  .mk m.member (append m.unknownEntries)

/-- Keeping an unknown field leaves the members alone. -/
@[simp] theorem member_storeUnknownEntry (m : Message) (entry : Bytes) (n : Nat) :
    (m.storeUnknownEntry entry n).member = m.member := rfl

/-- The field number and the value of a oneof. -/
def oneofState (m : Message) (j : Nat) : Nat × Value :=
  match m.member (.oneof j) with
  | .oneof n v => (n, v)
  | _ => (0, .null)

end Message

/-- `QVariant::isNull`. -/
def Value.isNull : Value → Bool
  | .null => true
  | _ => false

/-- The comparison the setters of scalars make. -/
def Value.sameScalar : Value → Value → Bool
  | .scalar a, .scalar b => a.isEqual b
  | .enumerator e a, .enumerator e' b => e == e' && a == b
  | _, _ => false

/-- `operator==` of two lists of scalars. -/
def sameList {k k' : ScalarKind} (vs : List k.Carrier) (vs' : List k'.Carrier) : Bool :=
  vs.length == vs'.length && (vs.zip vs').all fun (a, b) => Scalar.isEqual ⟨k, a⟩ ⟨k', b⟩

/-- `operator==` of two hashes of scalars or enumerators. -/
def sameEntries (entries entries' : List (Scalar × Value)) : Bool :=
  entries.length == entries'.length &&
    entries.all fun (key, v) => (entries'.lookup key).any v.sameScalar

/-- The comparison the setters of oneofs and of optional fields make. -/
def Schema.isEqual (S : Schema) : Value → Value → Bool
  | .custom h content, .custom _ content' =>
    (S.findHandler h).any fun handler => handler.isEqual content content'
  | old, new => old.sameScalar new

/-- The member a field is stored in. -/
def FieldInfo.memberAt (f : FieldInfo) (i : Nat) : Member :=
  match f.presence with
  | .oneof j => .oneof j
  | _ => .field i

/-- The value a getter or a constructor makes up for a property of this type. -/
def PropertyType.initialValue (S : Schema) : PropertyType → Value
  | .scalar k => .scalar ⟨k, k.zero⟩
  | .list k => .scalars k []
  | .enum e => .enumerator e (S.firstEnumerator e)
  | .enumList e => .enumerators e []
  | .message _ => .null
  | .messageList t => .messages t []
  | .hash .. => .hash []
  | .custom h _ => .custom h []

/-- The content of a field's own member in a new message. -/
def FieldInfo.storedDefault (S : Schema) (f : FieldInfo) : Value :=
  match f.presence, f.type with
  | .optional, _ | .oneof _, _ => .null
  | .mapEntry, .enum e => .enumerator e 0
  | _, type => type.initialValue S

/-- A message as its default constructor leaves it. -/
def Schema.defaultMessage (S : Schema) (t : MessageType) : Message :=
  .mk (fun
    | .field i => ((S.propertyOrdering t).fields[i]?.map (·.storedDefault S)).getD .null
    | .oneof _ => .oneof 0 .null) []

/-- `QProtobufOneof::holdsField`. -/
def holdsField (oneof : Nat × Value) (fieldNumber : Nat) : Bool :=
  oneof.1 == fieldNumber && fieldNumber != 0 && !oneof.2.isNull

/-- The pointer to a sub-message, which is created if there is none of this type yet. -/
def Schema.ensureMessage (S : Schema) (t : Nat) : Value → Message
  | .message t' m => if t' = t then m else S.defaultMessage (.named t)
  | _ => S.defaultMessage (.named t)

/-- `messageProperty` with `allowInitialize`: the property a decoder goes on with. Reading a
message creates it in place. -/
def Schema.initializedProperty (S : Schema) (m : Message) (i : Nat) (f : FieldInfo) :
    Message × Value :=
  match f.presence, f.type with
  | .oneof j, .message t =>
    let v := Value.message t (S.ensureMessage t (m.oneofState j).2)
    (m.setMember (.oneof j) (.oneof (m.oneofState j).1 v), v)
  | .oneof j, type =>
    if holdsField (m.oneofState j) f.fieldNumber then (m, (m.oneofState j).2)
    else (m, type.initialValue S)
  | _, .message t =>
    let v := Value.message t (S.ensureMessage t (m.member (.field i)))
    (m.setMember (.field i) v, v)
  | .optional, type =>
    let v := m.member (.field i)
    (m, if v.isNull then type.initialValue S else v)
  | _, _ => (m, m.member (.field i))

/-- The object behind a message pointer changed. -/
def Message.writeThrough (m : Message) (i : Nat) (f : FieldInfo) (v : Value) : Message :=
  match f.presence with
  | .oneof j => m.setMember (.oneof j) (.oneof (m.oneofState j).1 v)
  | _ => m.setMember (.field i) v

/-- The conversion of a variant to the type of the property it is written to. -/
def Schema.convert (S : Schema) : PropertyType → Value → Option Value
  | .enum e, .scalar ⟨.int64, v⟩ => some (.enumerator e (BitVec.setWidth 32 v))
  | .enum e, .scalar ⟨.string, key⟩ => (S.keyToValue e key).map (.enumerator e)
  | .enumList e, .scalars .string keys => (keys.mapM (S.keyToValue e)).map (.enumerators e)
  | _, v => some v

/-- What a member of a field without a presence of its own holds when its setter was given a new
value. The setter keeps an equal old value, but for the sign of a single zero; a message is
written through the pointer that was read. -/
def Schema.assigned (S : Schema) : PropertyType → Value → Value → Value
  | .list _, .scalars k vs, .scalars k' vs' =>
    if k = k' ∧ sameList vs vs' then .scalars k vs else .scalars k' vs'
  | .messageList _, .messages _ ms, .messages t ms' =>
    .messages t (if ms.length = ms'.length then S.assignMessages t ms ms' else ms')
  | .hash _ (.message t), .hash entries, .hash entries' =>
    .hash (if entries.length = entries'.length then S.assignEntries t entries entries' else entries')
  | .hash _ _, .hash entries, .hash entries' =>
    .hash (if sameEntries entries entries' then entries else entries')
  | .custom _ _, old, new => if S.isEqual old new then old else new
  | _, _, new => new

/-- `setMessageProperty`. The setters compare with `==` before they write; where equal values are
the same the outcome is equal either way. -/
def Schema.setMessageProperty (S : Schema) (m : Message) (i : Nat) (f : FieldInfo) (v : Value) :
    Message × Bool :=
  match S.convert f.type v with
  | none => (m, false)
  | some v =>
    match f.presence with
    | .oneof j =>
      let (n, old) := m.oneofState j
      if n = f.fieldNumber ∧ S.isEqual old v then (m, true)
      else (m.setMember (.oneof j) (.oneof f.fieldNumber v), true)
    | .optional | .mapEntry =>
      if S.isEqual (m.member (.field i)) v then (m, true) else (m.setMember (.field i) v, true)
    | _ => (m.setMember (.field i) (S.assigned f.type (m.member (.field i)) v), true)

/-- `QHash::emplace`. -/
def hashEmplace (entries : List (Scalar × Value)) (key : Scalar) (value : Value) :
    List (Scalar × Value) :=
  match entries with
  | [] => [(key, value)]
  | (k, v) :: rest => if k = key then (k, value) :: rest else (k, v) :: hashEmplace rest key value

end QtGrpc.Protobuf
