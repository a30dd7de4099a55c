import QtGrpc.Generator.Text

/-!
# Descriptors

What the generators read of a `.proto` file: the descriptors protoc hands to them, and the
questions `common` asks about a field. A message or enumeration type is known by the file it is
declared in and the names of the messages around it.
-/

namespace QtGrpc.Generator

/-- An identifier of a `.proto` file: letters, digits and underscores, but no digit in front. -/
structure Identifier where
  text : Bytes
  nonempty : text ≠ []
  valid : text.all fun c => isAsciiAlnum c || c == 95
  noDigit : text.head?.all fun c => isAsciiAlpha c || c == 95
deriving DecidableEq

/-- `FieldDescriptor::Type`. -/
inductive FieldType where
  | double | float | int64 | uint64 | int32 | fixed64 | fixed32 | bool | string | group | message
  | bytes | uint32 | enum | sfixed32 | sfixed64 | sint32 | sint64
deriving DecidableEq, Repr

/-- `FieldDescriptor::Label`. -/
inductive Label where
  | optional | required | repeated
deriving DecidableEq, Repr

/-- `FileDescriptor`. -/
structure FileDescriptor where
  name : Bytes
  package : List Identifier
  isProto2 : Bool := false
deriving DecidableEq

/-- What a type is; an enumeration has at least one value. -/
inductive TypeKind where
  | message
  | mapEntry
  | enumeration (firstValue : Identifier)
deriving DecidableEq

/-- `Descriptor` or `EnumDescriptor`, as far as they are referred to: where the type is declared,
with the messages around it from the outermost on. -/
structure TypeDescriptor where
  file : FileDescriptor
  containing : List Identifier := []
  name : Identifier
  kind : TypeKind := .message
deriving DecidableEq

/-- `OneofDescriptor`. That of an optional field is synthetic. -/
structure OneofDescriptor where
  name : Identifier
  isSynthetic : Bool := false
deriving DecidableEq

/-- `FieldDescriptor`. -/
structure FieldDescriptor where
  file : FileDescriptor
  name : Identifier
  camelcaseName : Bytes
  jsonName : Bytes
  number : Nat
  type : FieldType
  label : Label := .optional
  isPacked : Bool := false
  hasPresence : Bool := false
  containingOneof : Option OneofDescriptor := none
  messageType : Option TypeDescriptor := none
  enumType : Option TypeDescriptor := none
deriving DecidableEq

/-- `Descriptor`: a message type with its fields. -/
structure Descriptor where
  type : TypeDescriptor
  fields : List FieldDescriptor
  oneofs : List OneofDescriptor := []
  numbers_nodup : (fields.map (·.number)).Nodup
  numbers_bound : ∀ f ∈ fields, 1 ≤ f.number ∧ f.number ≤ 536870911

/-- `MethodDescriptor`. -/
structure MethodDescriptor where
  name : Identifier
  inputType : TypeDescriptor
  outputType : TypeDescriptor
  clientStreaming : Bool := false
  serverStreaming : Bool := false
  input_message : inputType.kind = .message
  output_message : outputType.kind = .message

/-- `ServiceDescriptor`. -/
structure ServiceDescriptor where
  file : FileDescriptor
  name : Identifier
  methods : List MethodDescriptor

/-- `Options`, and how the generators were built. -/
structure Options where
  /-- `HAVE_PROTOBUF_SYNC_PIPER`. -/
  syncPiper : Bool := true
  hasQml : Bool := false
  /-- `propertyGenerationType` is `Final`. -/
  finalProperties : Bool := true
  mutableGetterConflicts : Bool := false
  extraNamespace : Bytes := []
  /-- `m_extraNamespacedFiles`. -/
  extraNamespacedFiles : List Bytes := []

/-- The text of names with a separator between them. -/
def joinNames (separator : Bytes) (names : List Identifier) : Bytes :=
  join separator (names.map (·.text))

/-- `FileDescriptor::package`. -/
def FileDescriptor.packageName (file : FileDescriptor) : Bytes := joinNames (ascii ".") file.package

/-- `Descriptor::full_name`. -/
def TypeDescriptor.fullName (t : TypeDescriptor) : Bytes :=
  joinNames (ascii ".") (t.file.package ++ t.containing ++ [t.name])

/-- `common::isMap`. -/
def TypeDescriptor.isMap (t : TypeDescriptor) : Bool := t.kind == .mapEntry

namespace FieldDescriptor

variable (options : Options) (f : FieldDescriptor)

/-- `is_repeated`. -/
def isRepeated : Bool := f.label == .repeated

/-- `is_required`. -/
def isRequired : Bool := f.label == .required

/-- `is_map`. -/
def isMap : Bool := f.type == .message && f.messageType.any (·.isMap)

/-- `real_containing_oneof`. -/
def realContainingOneof : Option OneofDescriptor := f.containingOneof.filter fun o => !o.isSynthetic

/-- The name of the field's message type begins with this. -/
def messageTypeStartsWith (text : Bytes) : Bool :=
  f.messageType.any fun t => text.isPrefixOf t.fullName

/-- `common::isQtType`. -/
def isQtType : Bool :=
  (f.messageTypeStartsWith (ascii "QtCore.") || f.messageTypeStartsWith (ascii "QtGui.")) &&
    f.file.packageName != ascii "QtCore" && f.file.packageName != ascii "QtGui"

/-- `common::isOverridden`. -/
def isOverridden : Bool :=
  f.type == .message && f.messageType.any fun t => t.fullName == ascii "google.protobuf.Any"

/-- `common::isPureMessage`. -/
def isPureMessage : Bool :=
  f.type == .message && !f.isMap && !f.isRepeated && !f.isQtType && !f.isOverridden

/-- `common::isRepeatedMessage`. -/
def isRepeatedMessage : Bool := f.type == .message && !f.isMap && f.isRepeated

/-- `common::isGroupField`. -/
def isGroupField : Bool := f.type == .group

/-- `common::isOneofField`. -/
def isOneofField : Bool :=
  if options.syncPiper then f.realContainingOneof.isSome else f.containingOneof.isSome

/-- `common::isOptionalField`. -/
def isOptionalField : Bool :=
  let hasOptional :=
    if options.syncPiper then f.hasPresence && f.realContainingOneof.isNone && !f.isRequired
    else f.file.isProto2 && f.label == .optional && f.containingOneof.isNone
  f.type != .message && hasOptional

end FieldDescriptor

namespace Descriptor

variable (options : Options) (d : Descriptor)

/-- The fields `common::iterateMessageFields` goes through. -/
def generatedFields : List FieldDescriptor := d.fields.filter fun f => !f.isGroupField

/-- `common::generatedFieldCount`. -/
def generatedFieldCount : Nat :=
  d.fields.foldl (fun count f => if f.isGroupField then count else count + 1) 0

/-- The oneofs `common::iterateOneofFields` goes through. -/
def generatedOneofs : List OneofDescriptor :=
  if options.syncPiper then d.oneofs.filter fun o => !o.isSynthetic else d.oneofs

/-- The two ways of leaving out the groups agree. -/
theorem generatedFieldCount_eq : d.generatedFieldCount = d.generatedFields.length := by
  have hfold : ∀ (fields : List FieldDescriptor) (count : Nat),
      fields.foldl (fun count f => if f.isGroupField then count else count + 1) count =
        count + (fields.filter fun f => !f.isGroupField).length := by
    intro fields
    induction fields with
    | nil => simp
    | cons f fields ih =>
      intro count
      rw [List.foldl_cons, ih, List.filter_cons]
      cases h : f.isGroupField
      · simp [Nat.add_assoc, Nat.add_comm 1]
      · simp
  rw [generatedFieldCount, hfold, generatedFields, Nat.zero_add]

/-- No field number is generated twice. -/
theorem numbers_generatedFields : (d.generatedFields.map (·.number)).Nodup :=
  d.numbers_nodup.sublist (List.filter_sublist.map _)

end Descriptor

/-! ## Field flags -/

/-- `QtProtobufPrivate::FieldFlag`. -/
inductive FieldFlag where
  | noFlags | nonPacked | oneof | optional | explicitPresence | message | enum | repeated | map
  | required
deriving DecidableEq, Repr

/-- The name of a flag. -/
def FieldFlag.name : FieldFlag → Bytes
  | .noFlags => ascii "NoFlags"
  | .nonPacked => ascii "NonPacked"
  | .oneof => ascii "Oneof"
  | .optional => ascii "Optional"
  | .explicitPresence => ascii "ExplicitPresence"
  | .message => ascii "Message"
  | .enum => ascii "Enum"
  | .repeated => ascii "Repeated"
  | .map => ascii "Map"
  | .required => ascii "Required"

/-- The value of a flag in the library. -/
def FieldFlag.value : FieldFlag → BitVec 32
  | .noFlags => 0x0
  | .nonPacked => 0x1
  | .oneof => 0x02
  | .optional => 0x04
  | .explicitPresence => 0x08
  | .message => 0x10
  | .enum => 0x20
  | .repeated => 0x40
  | .map => 0x80
  | .required => 0x100

namespace FieldDescriptor

variable (options : Options) (f : FieldDescriptor)

/-- A repeated field that could be packed, but is not. -/
def isNonPacked : Bool :=
  f.type != .string && f.type != .bytes && f.type != .message && !f.isMap && f.isRepeated &&
    !f.isPacked

/-- A field that tells whether it is set. -/
def hasExplicitPresence : Bool :=
  f.isOneofField options || f.isOptionalField options || f.isPureMessage

/-- The flags `common::collectFieldFlags` writes, in their order. -/
def writtenFlags : List FieldFlag :=
  (if f.isNonPacked then [.nonPacked] else []) ++
  (if f.isOneofField options then [.oneof] else []) ++
  (if f.isOptionalField options then [.optional] else []) ++
  (if f.isRequired then [.required] else []) ++
  (if f.hasExplicitPresence options then [.explicitPresence] else []) ++
  (if f.isMap then [.map] else []) ++
  (if f.isRepeated && !f.isMap then [.repeated] else []) ++
  (if f.type == .enum then [.enum] else []) ++
  (if f.type == .message then [.message] else [])

/-- `common::collectFieldFlags`. -/
def collectFieldFlags : Bytes :=
  let flags := match f.writtenFlags options with
    | [] => [FieldFlag.noFlags]
    | flags => flags
  ascii "uint(" ++
    join (ascii " | ") (flags.map fun flag => ascii "QtProtobufPrivate::FieldFlag::" ++ flag.name) ++
    ascii ")"

/-- The flags of a field, as the library holds them. -/
def fieldFlags : BitVec 32 := (f.writtenFlags options).foldl (fun bits flag => bits ||| flag.value) 0

end FieldDescriptor

end QtGrpc.Generator
