import QtGrpc.Generator.Properties

/-!
# Members of generated messages

The member functions without parameters that a class declares for its fields and oneofs, and the one
conflict between them that `GenerateHeader` looks for: a mutable getter that is named like another
message field.
-/

namespace QtGrpc.Generator

/-- A member function without parameters. -/
structure MemberFunction where
  name : Bytes
  isConst : Bool
deriving DecidableEq

namespace MemberFunction

variable (map : PropertyMap)

/-- `has$property_name_cap$() const`. -/
def has : MemberFunction := ⟨ascii "has" ++ map.propertyNameCap, true⟩

/-- `$property_name$() const`. -/
def getter : MemberFunction := ⟨map.propertyName, true⟩

/-- `GetterOneofMessageDeclarationTemplate`. -/
def getterOneofMessage : List MemberFunction := [has map, getter map]

/-- `GetterOneofDeclarationTemplate`. -/
def getterOneof : List MemberFunction := [has map, getter map]

/-- `GetterMessageDeclarationTemplate`. -/
def getterMessage : List MemberFunction := [has map, getter map]

/-- `GetterMessageMutableDeclarationTemplate`. -/
def getterMessageMutable : List MemberFunction := [⟨map.mutableGetterName, false⟩]

/-- `ClearMessageDeclarationTemplate` and `ClearQmlMessageDeclarationTemplate`. -/
def clearMessage : List MemberFunction := [⟨ascii "clear" ++ map.propertyNameCap, false⟩]

/-- `GetterComplexDeclarationTemplate`. -/
def getterComplex : List MemberFunction := [getter map]

/-- `GetterDeclarationTemplate`. -/
def getterPlain : List MemberFunction := [getter map]

/-- `ClearOneofDeclarationTemplate` and `ClearQmlOneofDeclarationTemplate`. -/
def clearOneof (optionalPropertyNameCap : Bytes) : MemberFunction :=
  ⟨ascii "clear" ++ optionalPropertyNameCap, false⟩

/-- `GetterOneofFieldNumberDeclarationTemplate`. -/
def getterOneofFieldNumber (optionalPropertyName : Bytes) : MemberFunction :=
  ⟨optionalPropertyName ++ ascii "Field", true⟩

/-- `PrivateGetterOneofMessageDeclarationTemplate`. -/
def privateGetterOneofMessage : List MemberFunction := [⟨map.propertyName ++ ascii "_p", false⟩]

/-- `PrivateGetterMessageDeclarationTemplate`. -/
def privateGetterMessage : List MemberFunction := [⟨map.propertyName ++ ascii "_p", false⟩]

/-- `PrivateGetterOneofDeclarationTemplate`. -/
def privateGetterOneof : List MemberFunction := [⟨map.propertyName ++ ascii "_p", true⟩]

end MemberFunction

/-- The names `common::producePropertyMap` derives from a oneof. -/
def OneofDescriptor.optionalPropertyName (oneof : OneofDescriptor) : Bytes :=
  qualifiedCppName (qualifiedQmlName oneof.name.text)

def OneofDescriptor.optionalPropertyNameCap (oneof : OneofDescriptor) : Bytes :=
  capitalizeAsciiName oneof.name.text

variable (options : Options) (d : Descriptor)

/-- What `printGetters` prints for a field. -/
def printFieldGetters (f : FieldDescriptor) : List MemberFunction :=
  let map := producePropertyMap options f d.type
  if f.isOneofField options then
    if f.isPureMessage then MemberFunction.getterOneofMessage map else MemberFunction.getterOneof map
  else if f.isOptionalField options then MemberFunction.getterOneof map
  else
    match f.type with
    | .message =>
      if f.isPureMessage then
        MemberFunction.getterMessage map ++ MemberFunction.getterMessageMutable map ++
          MemberFunction.clearMessage map
      else MemberFunction.getterComplex map
    | .string | .bytes => MemberFunction.getterComplex map
    | _ => if f.isRepeated then MemberFunction.getterComplex map else MemberFunction.getterPlain map

/-- `MessageDeclarationPrinter::printGetters`. -/
def printGetters : List MemberFunction :=
  d.generatedFields.flatMap (printFieldGetters options d) ++
    (d.generatedOneofs options).map fun oneof =>
      MemberFunction.getterOneofFieldNumber oneof.optionalPropertyName

/-- What `printSetters` prints for a field besides the setters. -/
def printFieldClear (f : FieldDescriptor) : List MemberFunction :=
  if f.isOneofField options then []
  else if f.isOptionalField options then
    [MemberFunction.clearOneof (producePropertyMap options f d.type).optionalPropertyNameCap]
  else []

/-- `MessageDeclarationPrinter::printSetters`, without the setters. -/
def printClearFunctions : List MemberFunction :=
  d.generatedFields.flatMap (printFieldClear options d) ++
    (d.generatedOneofs options).map fun oneof =>
      MemberFunction.clearOneof oneof.optionalPropertyNameCap

/-- What `printPrivateGetters` prints for a field. -/
def printFieldPrivateGetters (f : FieldDescriptor) : List MemberFunction :=
  let map := producePropertyMap options f d.type
  if f.isOneofField options then
    if f.isPureMessage then MemberFunction.privateGetterOneofMessage map
    else MemberFunction.privateGetterOneof map
  else if f.isOptionalField options then MemberFunction.privateGetterOneof map
  else if f.isPureMessage then MemberFunction.privateGetterMessage map
  else []

/-- `MessageDeclarationPrinter::printPrivateGetters`. -/
def printPrivateGetters : List MemberFunction :=
  d.generatedFields.flatMap (printFieldPrivateGetters options d)

/-- The member functions without parameters. -/
def memberFunctions : List MemberFunction :=
  printGetters options d ++ printClearFunctions options d ++ printPrivateGetters options d

/-! ## The check -/

/-- The error about a field. -/
def mutFieldsClash (f : FieldDescriptor) : Bytes :=
  ascii "Message '" ++ d.type.fullName ++ ascii "': " ++ ascii "Field '" ++ f.name.text ++
    ascii "' causes a naming conflict" ++
    ascii "with a mutable getter. This may lead to unintended behavior." ++
    ascii "Consider reviewing the guidelines for handling mutable getters: " ++
    ascii "https://doc.qt.io/qt-6/qtprotobuf-mutable-getters.html\n"

/-- The loop of `specialMessageHandling` over the fields, with the names that begin with `mut`. -/
def checkMutableGetters : (mutPrefixedNames : List Bytes) → (mutFieldsClashError : Bytes) →
    List FieldDescriptor → Bytes
  | _, error, [] => error
  | names, error, f :: fields =>
    if f.isPureMessage then
      let map := producePropertyMap options f d.type
      let error :=
        if names.contains map.mutableGetterName || names.contains map.propertyName then
          mutFieldsClash d f
        else error
      let names := map.mutableGetterName :: names
      let names :=
        if mutableGetterPrefix.isPrefixOf map.propertyName then map.propertyName :: names else names
      checkMutableGetters names error fields
    else checkMutableGetters names error fields

/-- The messages of a file that are checked: those outside of messages, each with the messages
directly in it. -/
def checkedMessages (messages : List Descriptor) : List Descriptor :=
  (messages.filter fun d => d.type.containing.isEmpty).flatMap fun d =>
    d :: messages.filter fun nested => nested.type.file == d.type.file &&
      nested.type.containing == [d.type.name] && !nested.type.isMap

/-- The naming conflict that `GenerateHeader` reports for the messages of a file, if any. -/
def mutFieldsClashError (messages : List Descriptor) : Bytes :=
  (checkedMessages messages).foldl
    (fun error d => checkMutableGetters options d [] error d.generatedFields) []

end QtGrpc.Generator
