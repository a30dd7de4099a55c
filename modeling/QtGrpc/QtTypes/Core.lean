import QtGrpc.Protobuf.Binary.Exchanging
import QtGrpc.Protobuf.SerializerTermination

/-!
# Value types of QtCore

The classes of QtCore are no messages. Their handlers convert a value to a message of its own type
and back. Both conversions may refuse: then the field is not written, or keeps what it holds. The
values that are found again are those that are written, and the one that a field starts with. What
QtCore itself does with its classes is a parameter with the laws that the conversions rely on.
-/

namespace QtGrpc.QtTypes

open QtGrpc.Protobuf QtGrpc.Protobuf.Binary

/-- A property that comes back as it was: no floating point number, which may be another zero, and
no text, which may start with a mark. -/
def exact : Value → Bool
  | .scalar ⟨k, _⟩ => (k.isMapKey || k == .bytes) && k != .string
  | .scalars k _ => k != .string
  | _ => false

/-- A message whose fields were set to these values. -/
def objectOf (properties : List Value) : Message :=
  .mk (fun
    | .field i => (properties[i]?).getD .null
    | .oneof _ => .oneof 0 .null) []

/-- A class of QtCore with the type its values are exchanged as: its new value, the properties that
`convert` sets for a value and the value that it makes of these, which values are written and which
properties are taken. A value is made again of its properties if it is written or not new. -/
structure Conversion (α : Type) where
  descriptor : MessageDescriptor
  new : α
  properties : α → List Value
  value : List Value → α
  isWritten : α → Bool
  isRead : List Value → Bool
  value_properties : ∀ v, v ≠ new ∨ isWritten v = true → value (properties v) = v
  exact_properties : ∀ v, ∀ w ∈ properties v, exact w = true
  isOf_properties : ∀ v, List.Forall₂ (fun f w => w.IsOf f.type) descriptor.fields (properties v)
  implicit : ∀ f ∈ descriptor.fields, f.presence = .implicit
  read_of_written : ∀ v, isWritten v = true → isRead (properties v) = true

namespace Conversion

variable {α : Type} (c : Conversion α)

/-- The message of a value, whether it is written or not. -/
def object (v : α) : Message := objectOf (c.properties v)

/-- The properties of a message of the type. -/
def members (m : Message) : List Value :=
  (List.range c.descriptor.fields.length).map fun i => m.member (.field i)

/-- `convert` to the message. -/
def toMessage (v : α) : Option Message := if c.isWritten v then some (c.object v) else none

/-- `convert` from the message. -/
def ofMessage (m : Message) : Option α :=
  if c.isRead (c.members m) then some (c.value (c.members m)) else none

/-- The value a field holds. -/
def ofContent : List Message → α
  | [] => c.new
  | object :: _ => c.value (c.members object)

variable [DecidableEq α]

/-- What a field of the type holds. The new value is the one a member is initialized with. -/
def content (v : α) : List Message := if v = c.new then [] else [c.object v]

/-- `registerQtTypeHandler`. What the deserializer made of the message is converted even where it
failed. -/
def registerQtTypeHandler (a : Nat) : Handler where
  proxy := .named a
  objects content := (c.toMessage (c.ofContent content)).toList
  assign _ object content := ((c.ofMessage object).map c.content).getD content
  isEqual content content' := c.ofContent content = c.ofContent content'

end Conversion

/-! ## What is found again -/

/-- Only a value itself has its content. -/
theorem eq_of_same {S : Schema} {v w : Value} (h : v.Same S w) (hv : exact v = true) : w = v := by
  cases h with
  | @scalar a b hsame =>
    rcases hsame with rfl | hequal
    · rfl
    · obtain ⟨k, x⟩ := a
      obtain ⟨k', y⟩ := b
      obtain ⟨hk, heq⟩ := Scalar.isEqual_iff.mp hequal
      obtain rfl : k = k' := hk
      simp only [exact, Bool.and_eq_true, Bool.or_eq_true, beq_iff_eq] at hv
      rcases hv.1 with hkey | rfl
      · rw [show x = y from ScalarKind.eq_of_isEqual hkey heq]
      · simp only [ScalarKind.isEqual, decide_eq_true_eq] at heq
        rw [heq]
  | scalars => rfl
  | null | enumerator | enumerators | message | custom | messages | hash => cases hv

namespace Conversion

variable {α : Type} (c : Conversion α) {S : Schema} {a : Nat} {v : α} {f : FieldInfo}

/-- The fields of the messages have no presence. -/
theorem property_implicit {m : Message} {i : Nat} (hf : c.descriptor.fields[i]? = some f) :
    m.messageProperty i f = m.member (.field i) := by
  have himplicit := c.implicit f (List.mem_of_getElem? hf)
  simp [Message.messageProperty, himplicit]

/-- Every field is set. -/
theorem length_properties : (c.properties v).length = c.descriptor.fields.length :=
  (c.isOf_properties v).length_eq.symm

/-- The fields of the message hold the properties of the value. -/
theorem member_object {i : Nat} (hi : i < c.descriptor.fields.length) :
    ∃ w, (c.properties v)[i]? = some w ∧ (c.object v).member (.field i) = w := by
  rw [← c.length_properties (v := v)] at hi
  refine ⟨(c.properties v)[i], List.getElem?_eq_getElem hi, ?_⟩
  simp [object, objectOf, Message.member, List.getElem?_eq_getElem hi]

/-- A message with these fields has the properties of the value. -/
theorem members_eq {m : Message} (h : ∀ i < c.descriptor.fields.length,
    (c.properties v)[i]? = some (m.member (.field i))) : c.members m = c.properties v := by
  apply List.ext_getElem?
  intro i
  by_cases hi : i < c.descriptor.fields.length
  · rw [h i hi]
    simp [members, hi]
  · simp [members, hi, c.length_properties]

/-- The message of a value has the properties of the value. -/
@[simp] theorem members_object : c.members (c.object v) = c.properties v := by
  apply c.members_eq
  intro i hi
  obtain ⟨w, hw, hmember⟩ := c.member_object (v := v) hi
  rw [hw, hmember]

/-- A message of the content of the one that was written has the properties of the value. -/
theorem members_of_same (ha : S.message a = c.descriptor) {object : Message}
    (h : Message.Same S (.named a) (c.object v) object) : c.members object = c.properties v := by
  apply c.members_eq
  intro i hi
  obtain ⟨w, hw, hmember⟩ := c.member_object (v := v) hi
  have hf := List.getElem?_eq_getElem hi
  have hsame := h.fields i _ (by rw [Schema.propertyOrdering, ha]; exact hf)
  rw [c.property_implicit hf, c.property_implicit hf, hmember] at hsame
  rw [hw, eq_of_same hsame (c.exact_properties v w (List.mem_of_getElem? hw))]

/-- There is no message in the message of a value. -/
theorem madeOf_object (content : List Message) (v : α) : MadeOf content (c.object v) := by
  refine madeOf_of_isPlain fun x => ?_
  cases x with
  | oneof j => exact trivial
  | field i =>
    have hmember : (c.object v).member (.field i) = ((c.properties v)[i]?).getD .null := rfl
    rw [hmember]
    cases hw : (c.properties v)[i]? with
    | none => exact trivial
    | some w =>
      have hexact := c.exact_properties v w (List.mem_of_getElem? hw)
      cases w with
      | scalar x => exact trivial
      | scalars k vs => exact trivial
      | _ => cases hexact

variable [DecidableEq α]

/-- The handler of a class writes what is made of nothing. -/
theorem madeOf_objects {content : List Message} {m : Message}
    (h : m ∈ (c.registerQtTypeHandler a).objects content) : MadeOf content m := by
  simp only [registerQtTypeHandler, toMessage] at h
  split at h
  · obtain rfl := List.mem_singleton.mp h
    exact c.madeOf_object _ _
  · cases h

/-- A field holds the value it was given. -/
@[simp] theorem ofContent_content : c.ofContent (c.content v) = v := by
  by_cases h : v = c.new
  · rw [content, if_pos h, h]
    rfl
  · rw [content, if_neg h]
    rw [ofContent, members_object, c.value_properties v (.inl h)]

/-- A new field holds the new value. -/
theorem content_eq_nil : c.content v = [] ↔ v = c.new := by
  by_cases h : v = c.new
  · simp [content, h]
  · simp [content, h]

/-- The message of a value, if it is written. -/
theorem objects_content : (c.registerQtTypeHandler a).objects (c.content v) =
    if c.isWritten v then [c.object v] else [] := by
  simp only [registerQtTypeHandler, ofContent_content, toMessage]
  split <;> rfl

/-- A value is made again exactly if it was written or is the new one. -/
theorem givesBack_iff (ha : S.message a = c.descriptor) :
    GivesBack S (c.registerQtTypeHandler a) (c.content v) ↔ c.isWritten v = true ∨ v = c.new := by
  rw [GivesBack, c.objects_content]
  by_cases hwritten : c.isWritten v = true
  · simp only [hwritten, true_or, iff_true, if_true]
    intro objects hobjects
    obtain ⟨object, rest, hsame, hrest, rfl⟩ := List.forall₂_cons_left_iff.mp hobjects
    rw [List.forall₂_nil_left_iff.mp hrest]
    have hobject := c.members_of_same ha hsame
    simp [registerQtTypeHandler, ofMessage, hobject, c.read_of_written v hwritten,
      c.value_properties v (.inr hwritten)]
  · simp only [hwritten, false_or, Bool.false_eq_true, if_false]
    constructor
    · intro h
      exact c.content_eq_nil.mp (h [] .nil).symm
    · intro hnew objects hobjects
      rw [List.forall₂_nil_left_iff.mp hobjects]
      exact (c.content_eq_nil.mpr hnew).symm

/-- The values that survive in a field are those that are written, and the new one where it need not
be told from an unset field. -/
theorem survives_iff (ha : S.message a = c.descriptor) :
    Survives S f (c.registerQtTypeHandler a) (c.content v) ↔
      c.isWritten v = true ∨ v = c.new ∧ f.presence = .implicit := by
  constructor
  · intro h
    by_cases hwritten : c.isWritten v = true
    · exact .inl hwritten
    · refine .inr ⟨((c.givesBack_iff ha).mp h.givesBack).resolve_left hwritten, ?_⟩
      by_contra hpresence
      have hnone := h.written hpresence
      rw [c.objects_content, if_neg hwritten] at hnone
      exact hnone rfl
  · intro h
    refine ⟨(c.givesBack_iff ha).mpr (h.imp_right And.left), fun hequal => ?_, fun hpresence => ?_⟩
    · have heq : c.ofContent [] = c.ofContent (c.content v) := of_decide_eq_true hequal
      rw [ofContent_content] at heq
      exact c.content_eq_nil.mpr heq.symm
    · have hwritten := h.resolve_right fun himplicit => hpresence himplicit.2
      rw [c.objects_content, if_pos hwritten]
      simp

end Conversion

/-! ## The classes -/

/-- The classes whose handlers are modelled. -/
inductive QtClass where
  | qChar | qUuid | qTime | qDate | qSize | qPoint | qVersionNumber
deriving DecidableEq

/-- What the conversions take from QtCore: the values of the classes with their default
constructors, and the functions that `convert` calls. -/
structure QtCore where
  Values : QtClass → Type
  decEq : ∀ c, DecidableEq (Values c)
  default : ∀ c, Values c
  unicode : Values .qChar → BitVec 16
  qChar : BitVec 16 → Values .qChar
  qChar_unicode : ∀ v, qChar (unicode v) = v
  toRfc4122 : Values .qUuid → Bytes
  fromRfc4122 : Bytes → Values .qUuid
  length_toRfc4122 : ∀ v, (toRfc4122 v).length = 16
  fromRfc4122_toRfc4122 : ∀ v, fromRfc4122 (toRfc4122 v) = v
  isValidTime : Values .qTime → Bool
  isNullTime : Values .qTime → Bool
  msecsSinceStartOfDay : Values .qTime → BitVec 32
  fromMSecsSinceStartOfDay : BitVec 32 → Values .qTime
  /-- A null time is invalid, and there is no other invalid time than the default one. -/
  time_cases : ∀ v, isValidTime v = true ∧ isNullTime v = false ∨
    isValidTime v = false ∧ v = default .qTime
  fromMSecs_msecs : ∀ v, isValidTime v = true →
    fromMSecsSinceStartOfDay (msecsSinceStartOfDay v) = v
  isValidDate : Values .qDate → Bool
  isNullDate : Values .qDate → Bool
  toJulianDay : Values .qDate → BitVec 64
  fromJulianDay : BitVec 64 → Values .qDate
  /-- A null date is invalid, and there is no other invalid date than the default one. -/
  date_cases : ∀ v, isValidDate v = true ∧ isNullDate v = false ∨
    isValidDate v = false ∧ v = default .qDate
  fromJulianDay_toJulianDay : ∀ v, isValidDate v = true → fromJulianDay (toJulianDay v) = v
  width : Values .qSize → BitVec 32
  height : Values .qSize → BitVec 32
  qSize : BitVec 32 → BitVec 32 → Values .qSize
  isNullSize : Values .qSize → Bool
  isEmptySize : Values .qSize → Bool
  isValidSize : Values .qSize → Bool
  qSize_width_height : ∀ v, qSize (width v) (height v) = v
  isNullSize_iff : ∀ v, isNullSize v = true ↔ width v = 0 ∧ height v = 0
  isEmptySize_iff : ∀ v, isEmptySize v = true ↔ (width v).toInt ≤ 0 ∨ (height v).toInt ≤ 0
  isValidSize_iff : ∀ v, isValidSize v = true ↔ 0 ≤ (width v).toInt ∧ 0 ≤ (height v).toInt
  x : Values .qPoint → BitVec 32
  y : Values .qPoint → BitVec 32
  qPoint : BitVec 32 → BitVec 32 → Values .qPoint
  isNullPoint : Values .qPoint → Bool
  qPoint_x_y : ∀ v, qPoint (x v) (y v) = v
  isNullPoint_iff : ∀ v, isNullPoint v = true ↔ x v = 0 ∧ y v = 0
  default_qPoint : default .qPoint = qPoint 0 0
  segments : Values .qVersionNumber → List (BitVec 32)
  qVersionNumber : List (BitVec 32) → Values .qVersionNumber
  qVersionNumber_segments : ∀ v, qVersionNumber (segments v) = v
  default_qVersionNumber : default .qVersionNumber = qVersionNumber []

/-- A time or a date that is written, or not new, is valid. -/
theorem valid_of_written {α : Type} {isValid isNull : α → Bool} {new v : α}
    (hcases : isValid v = true ∧ isNull v = false ∨ isValid v = false ∧ v = new)
    (h : v ≠ new ∨ (!(!isValid v || isNull v)) = true) : isValid v = true := by
  rcases hcases with ⟨hvalid, -⟩ | ⟨hinvalid, hnew⟩
  · exact hvalid
  · rcases h with hne | hwritten
    · exact absurd hnew hne
    · simp [hinvalid] at hwritten

namespace QtCore

variable (Q : QtCore)

instance (c : QtClass) : DecidableEq (Q.Values c) := Q.decEq c

def charConversion : Conversion (Q.Values .qChar) where
  descriptor := ⟨"QtCore.QChar", [
    { fieldNumber := 1, jsonName := "utf16CodePoint", type := .scalar .uint32 }],
    by decide, by decide, by decide⟩
  new := Q.default .qChar
  properties v := [.scalar ⟨.uint32, (Q.unicode v).setWidth 32⟩]
  value
    | [.scalar ⟨.uint32, code⟩] => Q.qChar (BitVec.setWidth 16 code)
    | _ => Q.default .qChar
  isWritten _ := true
  isRead _ := true
  value_properties v _ := by simp [Q.qChar_unicode]
  exact_properties v := by simp [exact, ScalarKind.isMapKey]
  isOf_properties v := .cons (.scalar _) .nil
  implicit := by simp
  read_of_written _ _ := rfl

def uuidConversion : Conversion (Q.Values .qUuid) where
  descriptor := ⟨"QtCore.QUuid", [
    { fieldNumber := 1, jsonName := "rfc4122Uuid", type := .scalar .bytes }],
    by decide, by decide, by decide⟩
  new := Q.default .qUuid
  properties v := [.scalar ⟨.bytes, Q.toRfc4122 v⟩]
  value
    | [.scalar ⟨.bytes, bytes⟩] => Q.fromRfc4122 bytes
    | _ => Q.default .qUuid
  isWritten v := (Q.toRfc4122 v).length == 16
  isRead
    | [.scalar ⟨.bytes, bytes⟩] => List.length bytes == 16
    | _ => false
  value_properties v _ := Q.fromRfc4122_toRfc4122 v
  exact_properties v := by simp [exact]
  isOf_properties v := .cons (.scalar _) .nil
  implicit := by simp
  read_of_written _ h := h

def timeConversion : Conversion (Q.Values .qTime) where
  descriptor := ⟨"QtCore.QTime", [
    { fieldNumber := 1, jsonName := "millisecondsSinceMidnight", type := .scalar .int32 }],
    by decide, by decide, by decide⟩
  new := Q.default .qTime
  properties v := [.scalar ⟨.int32, Q.msecsSinceStartOfDay v⟩]
  value
    | [.scalar ⟨.int32, msecs⟩] => Q.fromMSecsSinceStartOfDay msecs
    | _ => Q.default .qTime
  isWritten v := !(!Q.isValidTime v || Q.isNullTime v)
  isRead
    | [.scalar ⟨.int32, msecs⟩] => Q.isValidTime (Q.fromMSecsSinceStartOfDay msecs)
    | _ => false
  value_properties v h := Q.fromMSecs_msecs v (valid_of_written (Q.time_cases v) h)
  exact_properties v := by simp [exact, ScalarKind.isMapKey]
  isOf_properties v := .cons (.scalar _) .nil
  implicit := by simp
  read_of_written v h := by
    have hvalid := valid_of_written (Q.time_cases v) (.inr h)
    simp only [Q.fromMSecs_msecs v hvalid, hvalid]

def dateConversion : Conversion (Q.Values .qDate) where
  descriptor := ⟨"QtCore.QDate", [
    { fieldNumber := 1, jsonName := "julianDay", type := .scalar .int64 }],
    by decide, by decide, by decide⟩
  new := Q.default .qDate
  properties v := [.scalar ⟨.int64, Q.toJulianDay v⟩]
  value
    | [.scalar ⟨.int64, jd⟩] => Q.fromJulianDay jd
    | _ => Q.default .qDate
  isWritten v := !(!Q.isValidDate v || Q.isNullDate v)
  isRead
    | [.scalar ⟨.int64, jd⟩] => Q.isValidDate (Q.fromJulianDay jd)
    | _ => false
  value_properties v h := Q.fromJulianDay_toJulianDay v (valid_of_written (Q.date_cases v) h)
  exact_properties v := by simp [exact, ScalarKind.isMapKey]
  isOf_properties v := .cons (.scalar _) .nil
  implicit := by simp
  read_of_written v h := by
    have hvalid := valid_of_written (Q.date_cases v) (.inr h)
    simp only [Q.fromJulianDay_toJulianDay v hvalid, hvalid]

def sizeConversion : Conversion (Q.Values .qSize) where
  descriptor := ⟨"QtCore.QSize", [
    { fieldNumber := 1, jsonName := "width", type := .scalar .int32 },
    { fieldNumber := 2, jsonName := "height", type := .scalar .int32 }],
    by decide, by decide, by decide⟩
  new := Q.default .qSize
  properties v := [.scalar ⟨.int32, Q.width v⟩, .scalar ⟨.int32, Q.height v⟩]
  value
    | [.scalar ⟨.int32, width⟩, .scalar ⟨.int32, height⟩] => Q.qSize width height
    | _ => Q.default .qSize
  isWritten v := !(Q.isNullSize v || Q.isEmptySize v || !Q.isValidSize v)
  isRead _ := true
  value_properties v _ := Q.qSize_width_height v
  exact_properties v := by simp [exact, ScalarKind.isMapKey]
  isOf_properties v := .cons (.scalar _) (.cons (.scalar _) .nil)
  implicit := by simp
  read_of_written _ _ := rfl

def pointConversion : Conversion (Q.Values .qPoint) where
  descriptor := ⟨"QtCore.QPoint", [
    { fieldNumber := 1, jsonName := "x", type := .scalar .sint32 },
    { fieldNumber := 2, jsonName := "y", type := .scalar .sint32 }],
    by decide, by decide, by decide⟩
  new := Q.default .qPoint
  properties v := [.scalar ⟨.sint32, Q.x v⟩, .scalar ⟨.sint32, Q.y v⟩]
  value
    | [.scalar ⟨.sint32, x⟩, .scalar ⟨.sint32, y⟩] => Q.qPoint x y
    | _ => Q.default .qPoint
  isWritten v := !Q.isNullPoint v
  isRead _ := true
  value_properties v _ := Q.qPoint_x_y v
  exact_properties v := by simp [exact, ScalarKind.isMapKey]
  isOf_properties v := .cons (.scalar _) (.cons (.scalar _) .nil)
  implicit := by simp
  read_of_written _ _ := rfl

def versionNumberConversion : Conversion (Q.Values .qVersionNumber) where
  descriptor := ⟨"QtCore.QVersionNumber", [
    { fieldNumber := 1, jsonName := "segments", type := .list .int32 }],
    by decide, by decide, by decide⟩
  new := Q.default .qVersionNumber
  properties v := [.scalars .int32 (Q.segments v)]
  value
    | [.scalars .int32 segments] => Q.qVersionNumber segments
    | _ => Q.default .qVersionNumber
  isWritten v := (Q.segments v).length != 0
  isRead
    | [.scalars .int32 segments] => segments.length != 0
    | _ => false
  value_properties v _ := Q.qVersionNumber_segments v
  exact_properties v := by simp [exact]
  isOf_properties v := .cons (.list _) .nil
  implicit := by simp
  read_of_written _ h := h

/-- The `convert` functions of a class. -/
def conversion : (c : QtClass) → Conversion (Q.Values c)
  | .qChar => Q.charConversion
  | .qUuid => Q.uuidConversion
  | .qTime => Q.timeConversion
  | .qDate => Q.dateConversion
  | .qSize => Q.sizeConversion
  | .qPoint => Q.pointConversion
  | .qVersionNumber => Q.versionNumberConversion

end QtCore

/-- The value of a field of one of the classes, one that survives: it is written, or new where the
field does not tell this from unset. -/
def Converts (Q : QtCore) (S : Schema) (f : FieldInfo) (value : Value) : Prop :=
  ∃ (c : QtClass) (k a : Nat) (v : Q.Values c),
    S.findHandler k = some ((Q.conversion c).registerQtTypeHandler a) ∧
      S.message a = (Q.conversion c).descriptor ∧ value = .custom k ((Q.conversion c).content v) ∧
        ((Q.conversion c).isWritten v = true ∨
          v = (Q.conversion c).new ∧ f.presence = .implicit)

section

variable {Q : QtCore} {S : Schema} {f : FieldInfo} {k : Nat} {content : List Message}

/-- Its handler makes the value again. -/
theorem Converts.survives (h : Converts Q S f (.custom k content)) :
    ∃ handler, S.findHandler k = some handler ∧ Survives S f handler content := by
  obtain ⟨c, k', a, v, hhandler, ha, heq, hv⟩ := h
  cases heq
  exact ⟨_, hhandler, ((Q.conversion c).survives_iff ha).mpr hv⟩

end

/-- The bytes of an identifier. -/
structure Rfc4122 where
  bytes : Bytes
  size : bytes.length = 16
deriving DecidableEq

/-- The milliseconds since midnight, which are `-1` for no time. -/
structure TimeOfDay where
  mds : BitVec 32
  range : mds = -1 ∨ 0 ≤ mds.toInt ∧ mds.toInt < 86400000
deriving DecidableEq

def TimeOfDay.null : TimeOfDay := ⟨-1, .inl rfl⟩

/-- The Julian day, which is the least number for no date. -/
structure JulianDay where
  jd : BitVec 64
  range : jd = 1 <<< 63 ∨ -784350574879 ≤ jd.toInt ∧ jd.toInt ≤ 784354017364
deriving DecidableEq

def JulianDay.null : JulianDay := ⟨1 <<< 63, .inl rfl⟩

/-- QtCore as it keeps its values in memory. -/
def qtCore : QtCore where
  Values
    | .qChar => BitVec 16
    | .qUuid => Rfc4122
    | .qTime => TimeOfDay
    | .qDate => JulianDay
    | .qSize | .qPoint => BitVec 32 × BitVec 32
    | .qVersionNumber => List (BitVec 32)
  decEq
    | .qChar => inferInstanceAs (DecidableEq (BitVec 16))
    | .qUuid => inferInstanceAs (DecidableEq Rfc4122)
    | .qTime => inferInstanceAs (DecidableEq TimeOfDay)
    | .qDate => inferInstanceAs (DecidableEq JulianDay)
    | .qSize | .qPoint => inferInstanceAs (DecidableEq (BitVec 32 × BitVec 32))
    | .qVersionNumber => inferInstanceAs (DecidableEq (List (BitVec 32)))
  default
    | .qChar => (0 : BitVec 16)
    | .qUuid => (⟨List.replicate 16 0, by decide⟩ : Rfc4122)
    | .qTime => TimeOfDay.null
    | .qDate => JulianDay.null
    | .qSize => ((-1, -1) : BitVec 32 × BitVec 32)
    | .qPoint => ((0, 0) : BitVec 32 × BitVec 32)
    | .qVersionNumber => ([] : List (BitVec 32))
  unicode v := v
  qChar v := v
  qChar_unicode _ := rfl
  toRfc4122 := Rfc4122.bytes
  fromRfc4122 bytes := if h : bytes.length = 16 then (⟨bytes, h⟩ : Rfc4122)
    else (⟨List.replicate 16 0, by decide⟩ : Rfc4122)
  length_toRfc4122 := Rfc4122.size
  fromRfc4122_toRfc4122 v := dif_pos (Rfc4122.size v)
  isValidTime v := 0 ≤ (TimeOfDay.mds v).toInt && (TimeOfDay.mds v).toInt < 86400000
  isNullTime v := TimeOfDay.mds v == -1
  msecsSinceStartOfDay := TimeOfDay.mds
  fromMSecsSinceStartOfDay msecs :=
    if h : 0 ≤ msecs.toInt ∧ msecs.toInt < 86400000 then (⟨msecs, .inr h⟩ : TimeOfDay)
    else TimeOfDay.null
  time_cases := by
    rintro ⟨mds, rfl | h⟩
    · exact .inr ⟨rfl, rfl⟩
    · refine .inl ⟨by simp [h], beq_eq_false_iff_ne.mpr ?_⟩
      rintro rfl
      exact absurd h.1 (by decide)
  fromMSecs_msecs v h := dif_pos (by simpa using h)
  isValidDate v := -784350574879 ≤ (JulianDay.jd v).toInt && (JulianDay.jd v).toInt ≤ 784354017364
  isNullDate v := !(-784350574879 ≤ (JulianDay.jd v).toInt &&
    (JulianDay.jd v).toInt ≤ 784354017364)
  toJulianDay := JulianDay.jd
  fromJulianDay jd :=
    if h : -784350574879 ≤ jd.toInt ∧ jd.toInt ≤ 784354017364 then (⟨jd, .inr h⟩ : JulianDay)
    else JulianDay.null
  date_cases := by
    rintro ⟨jd, rfl | h⟩
    · exact .inr ⟨rfl, rfl⟩
    · exact .inl ⟨by simp [h], by simp [h]⟩
  fromJulianDay_toJulianDay v h := dif_pos (by simpa using h)
  width := Prod.fst
  height := Prod.snd
  qSize := Prod.mk
  isNullSize v := v.1 == 0 && v.2 == 0
  isEmptySize v := v.1.toInt ≤ 0 || v.2.toInt ≤ 0
  isValidSize v := 0 ≤ v.1.toInt && 0 ≤ v.2.toInt
  qSize_width_height _ := rfl
  isNullSize_iff v := by simp
  isEmptySize_iff v := by simp
  isValidSize_iff v := by simp
  x := Prod.fst
  y := Prod.snd
  qPoint := Prod.mk
  isNullPoint v := v.1 == 0 && v.2 == 0
  qPoint_x_y _ := rfl
  isNullPoint_iff v := by simp
  default_qPoint := rfl
  segments v := v
  qVersionNumber v := v
  qVersionNumber_segments _ := rfl
  default_qVersionNumber := rfl

/-- A type with a point, a time and a number. -/
def eventSchema : Schema where
  message
    | 0 => qtCore.pointConversion.descriptor
    | 1 => qtCore.timeConversion.descriptor
    | _ => ⟨"Event", [
        { fieldNumber := 1, jsonName := "position", type := .custom 0 false },
        { fieldNumber := 2, jsonName := "time", type := .custom 1 false },
        { fieldNumber := 3, jsonName := "duration", type := .scalar .uint32 }],
        by decide, by decide, by decide⟩
  enumKeys _ := []
  findHandler
    | 0 => some (qtCore.pointConversion.registerQtTypeHandler 0)
    | 1 => some (qtCore.timeConversion.registerQtTypeHandler 1)
    | _ => none
  typeName _ := ""

/-- A point to the left of the origin, no time, and a number. -/
def event : Message :=
  .mk ((((eventSchema.defaultMessage (.named 2)).setMember (.field 0)
    (.custom 0 (qtCore.pointConversion.content (qtCore.qPoint (-4) 0)))).setMember (.field 1)
      (.custom 1 (qtCore.timeConversion.content (qtCore.default .qTime)))).setMember (.field 2)
        (.scalar ⟨.uint32, (90 : BitVec 32)⟩)).member []

end QtGrpc.QtTypes
