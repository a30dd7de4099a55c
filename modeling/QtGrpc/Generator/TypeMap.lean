import QtGrpc.Generator.Descriptor

/-!
# Type maps

`common` derives the C++ names of a type: the namespaces a class is declared in, its name from
everywhere and its name as seen from the message that refers to it. Types nested in a message are
declared in a namespace of their own beside the class of that message.
-/

namespace QtGrpc.Generator

/-- `CommonTemplates::QtProtobufNestedNamespace`. -/
def qtProtobufNestedNamespace : Bytes := ascii "_QtProtobufNested"

/-- `CommonTemplates::EnumClassSuffix`. -/
def enumClassSuffix : Bytes := ascii "Gadget"

/-- `CommonTemplates::QtProtobufNamespace`. -/
def qtProtobufNamespace : Bytes := ascii "QtProtobuf"

/-- `CommonTemplates::ListOfQmlExceptions`. -/
def listOfQmlExceptions : List Bytes := [ascii "id", ascii "property", ascii "import"]

/-- `CommonTemplates::ListOfCppExceptions`. -/
def listOfCppExceptions : List Bytes := [
  "NULL", "alignas", "alignof", "and", "and_eq",
  "asm", "auto", "bitand", "bitor", "bool",
  "break", "case", "catch", "char", "class",
  "compl", "const", "constexpr", "const_cast", "continue",
  "decltype", "default", "delete", "do", "double",
  "dynamic_cast", "else", "enum", "explicit", "export",
  "extern", "false", "float", "for", "friend",
  "goto", "if", "inline", "int", "long",
  "mutable", "namespace", "new", "noexcept", "not",
  "not_eq", "nullptr", "operator", "or", "or_eq",
  "private", "protected", "public", "register", "reinterpret_cast",
  "return", "short", "signed", "sizeof", "static",
  "static_assert", "static_cast", "struct", "switch", "template",
  "this", "thread_local", "throw", "true", "try",
  "typedef", "typeid", "typename", "union", "unsigned",
  "using", "virtual", "void", "volatile", "wchar_t",
  "while", "xor", "xor_eq",
  "char8_t", "char16_t", "char32_t", "concept", "consteval",
  "constinit", "co_await", "co_return", "co_yield", "requires",
  "assert",
  "signals", "slots", "emit"].map ascii

/-- `common::qualifiedCppName`. -/
def qualifiedCppName (name : Bytes) : Bytes :=
  if name ∈ listOfCppExceptions then name ++ ascii "_" else name

/-- `common::qualifiedQmlName`. -/
def qualifiedQmlName (name : Bytes) : Bytes :=
  if name ∈ listOfQmlExceptions then name ++ ascii "_proto" else name

/-- What stands in front of the last dot of a name, if there is one. -/
def beforeLastDot (name : Bytes) : Option Bytes :=
  if 46 ∈ name then some (name.reverse.dropWhile (· != 46)).tail.reverse else none

variable (options : Options)

/-- `common::getFullNamespace` of a full descriptor name. -/
def getFullNamespaceOf (fullDescriptorName separator : Bytes) (extraScope : Bool) : Bytes :=
  let output := if extraScope then options.extraNamespace else []
  match beforeLastDot fullDescriptorName with
  | none => output
  | some front =>
    let namespaces := replace front (ascii ".") separator
    let namespaces :=
      if namespaces = ascii "QtCore" ∨ namespaces = ascii "QtGui" then
        ascii "QtProtobufPrivate" ++ separator ++ namespaces
      else namespaces
    (if output ≠ [] ∧ namespaces ≠ [] then output ++ separator else output) ++ namespaces

/-- `common::isExtraNamespacedFile`. -/
def isExtraNamespacedFile (file : Bytes) : Bool := options.extraNamespacedFiles.contains file

/-- `common::getFullNamespace` of a message or an enumeration type. -/
def getFullNamespace (type : TypeDescriptor) (separator : Bytes) : Bytes :=
  let nestingNamespaces := type.containing.flatMap fun c => separator ++ capitalizeAsciiName c.text
  getFullNamespaceOf options
    (type.file.packageName ++ nestingNamespaces ++ ascii "." ++ type.name.text) separator
    (isExtraNamespacedFile options type.file.name)

/-- The message types around a type, from the innermost on. -/
def TypeDescriptor.containingTypes (type : TypeDescriptor) : List TypeDescriptor :=
  go type.containing.reverse
where
  go : List Identifier → List TypeDescriptor
    | [] => []
    | name :: outer =>
      { file := type.file, containing := outer.reverse, name, kind := .message } :: go outer

/-- The loop of `getScopeNamespace` over the containing types. -/
def nestingNamespaces (scope : TypeDescriptor) :
    List TypeDescriptor → (suffix : Bytes) → (first : Bool) → Bytes → Bytes
  | [], _, _, namespaces => namespaces
  | containingType :: outer, suffix, first, namespaces =>
    let namespaces := capitalizeAsciiName containingType.name.text ++ suffix ++ namespaces
    if containingType = scope then namespaces
    else
      let suffix := if first then qtProtobufNestedNamespace ++ ascii "::" else suffix
      nestingNamespaces scope outer suffix false namespaces

/-- `common::getScopeNamespace` of a type in a message type. -/
def getScopeNamespace (type : TypeDescriptor) (scope : Option TypeDescriptor) : Bytes :=
  match scope with
  | none => getFullNamespace options type (ascii "::")
  | some scope =>
    if scope.file.packageName ≠ type.file.packageName then getFullNamespace options type (ascii "::")
    else
      let suffix := if type.isMap then [] else qtProtobufNestedNamespace
      nestingNamespaces scope type.containingTypes suffix true []

/-- `common::getScopeNamespace` of namespaces in namespaces. -/
def cutScopeNamespace (original scope : Bytes) : Bytes :=
  if scope = [] then original
  else if original = scope then []
  else if (scope ++ ascii "::").isPrefixOf original then original.drop (scope ++ ascii "::").length
  else original

/-- `TypeMap`, with the variables that the templates make use of. -/
structure TypeMap where
  classname : Bytes := []
  type : Bytes
  fullType : Bytes
  scopeType : Bytes
  listType : Bytes
  fullListType : Bytes
  scopeListType : Bytes
  scopeNamespaces : Bytes
  qmlPackage : Bytes
  propertyType : Bytes
  propertyListType : Bytes
  getterType : Bytes
  setterType : Bytes
  enumGadget : Bytes := []
  initializer : Bytes := []
deriving DecidableEq

/-- A name behind namespaces, if there are any. -/
def qualify (namespaces name : Bytes) : Bytes :=
  if namespaces = [] then name else namespaces ++ ascii "::" ++ name

/-- The list of a type. -/
def listOf (name : Bytes) : Bytes := ascii "QList<" ++ name ++ ascii ">"

/-- `common::produceQtTypeMap`. -/
def produceQtTypeMap (type : TypeDescriptor) (scope : Option TypeDescriptor) : TypeMap :=
  let name := type.name.text
  let listName := listOf name
  { type := name, fullType := name, scopeType := name, listType := listName,
    fullListType := listName, scopeListType := listName,
    scopeNamespaces := getScopeNamespace options type scope,
    qmlPackage := getFullNamespace options type (ascii "."), propertyType := name,
    propertyListType := listName, getterType := name, setterType := name }

/-- `common::produceOverriddenTypeMap`. -/
def produceOverriddenTypeMap (type : TypeDescriptor) (scope : Option TypeDescriptor) : TypeMap :=
  let isAny := type.fullName = ascii "google.protobuf.Any"
  let namespaces := if isAny then ascii "QtProtobuf" else getFullNamespace options type (ascii "::")
  let name := if isAny then ascii "QtProtobuf::Any" else type.name.text
  let qmlPackage := if isAny then ascii "QtProtobuf" else getFullNamespace options type (ascii ".")
  let listName := listOf name
  let scopeNamespace := (scope.map fun s => getFullNamespace options s (ascii "::")).getD []
  { type := name, fullType := name, scopeType := name, listType := listName,
    fullListType := listName, scopeListType := listName,
    scopeNamespaces := cutScopeNamespace namespaces scopeNamespace, qmlPackage,
    propertyType := name, propertyListType := listName, getterType := name, setterType := name,
    initializer := ascii "\x7b\x7d" }

/-- `common::produceMessageTypeMap`. -/
def produceMessageTypeMap (type : TypeDescriptor) (scope : Option TypeDescriptor) : TypeMap :=
  let namespaces := getFullNamespace options type (ascii "::")
  let scopeNamespaces := getScopeNamespace options type scope
  let qmlPackage := getFullNamespace options type (ascii ".")
  let name := capitalizeAsciiName type.name.text
  let fullName := qualify namespaces name
  let scopeName := qualify scopeNamespaces name
  let fullListName := if namespaces = [] then listOf name else listOf fullName
  { classname := name, type := name, fullType := fullName, scopeType := scopeName,
    listType := listOf name, fullListType := fullListName,
    scopeListType := if scopeNamespaces = [] then listOf name else listOf scopeName,
    scopeNamespaces, qmlPackage := if qmlPackage = [] then ascii "QtProtobuf" else qmlPackage,
    propertyType := fullName, propertyListType := fullListName, getterType := scopeName,
    setterType := scopeName, initializer := ascii "nullptr" }

/-- `common::EnumVisibility`. -/
inductive EnumVisibility where
  | globalEnum | localEnum | neighborEnum
deriving DecidableEq

/-- `common::enumVisibility`. -/
def enumVisibility (type : TypeDescriptor) (scope : Option TypeDescriptor) : EnumVisibility :=
  match type.containingTypes with
  | [] => .globalEnum
  | containingType :: _ => if scope = some containingType then .localEnum else .neighborEnum

/-- The first value of an enumeration. -/
def TypeDescriptor.firstValue (type : TypeDescriptor) : Bytes :=
  match type.kind with
  | .enumeration firstValue => firstValue.text
  | _ => []

/-- `common::produceEnumTypeMap`. -/
def produceEnumTypeMap (type : TypeDescriptor) (scope : Option TypeDescriptor) : TypeMap :=
  let visibility := enumVisibility type scope
  let name := capitalizeAsciiName type.name.text
  let qmlPackage := getFullNamespace options type (ascii ".")
  let gadget := name ++ enumClassSuffix
  let isGlobal := visibility = .globalEnum
  let plain := getFullNamespace options type (ascii "::")
  let namespaces := if isGlobal then plain ++ ascii "::" ++ gadget else plain
  let scopeNamespaces :=
    if isGlobal then
      cutScopeNamespace namespaces
        ((scope.map fun s => getFullNamespace options s (ascii "::")).getD [])
    else getScopeNamespace options type scope
  let fullName := qualify namespaces name
  let scopeName := qualify scopeNamespaces name
  let fullListName := if namespaces = [] then listOf name else listOf fullName
  { classname := name, type := name, fullType := fullName, scopeType := scopeName,
    listType := listOf name, fullListType := fullListName,
    scopeListType := if scopeNamespaces = [] then listOf name else listOf scopeName,
    scopeNamespaces, qmlPackage := if qmlPackage = [] then ascii "QtProtobuf" else qmlPackage,
    propertyType := if visibility = .localEnum then name else fullName,
    propertyListType := fullListName, getterType := scopeName, setterType := scopeName,
    enumGadget := if isGlobal then gadget
      else (scope.map fun s => capitalizeAsciiName s.name.text).getD [],
    initializer := scopeName ++ ascii "::" ++ qualifiedCppName type.firstValue }

/-- `CommonTemplates::TypeReflection`. -/
def typeReflection : FieldType → Bytes
  | .double => ascii "double"
  | .float => ascii "float"
  | .int64 => ascii "int64"
  | .uint64 => ascii "uint64"
  | .int32 => ascii "int32"
  | .fixed64 => ascii "fixed64"
  | .fixed32 => ascii "fixed32"
  | .bool => ascii "bool"
  | .string => ascii "QString"
  | .bytes => ascii "QByteArray"
  | .uint32 => ascii "uint32"
  | .sfixed32 => ascii "sfixed32"
  | .sfixed64 => ascii "sfixed64"
  | .sint32 => ascii "sint32"
  | .sint64 => ascii "sint64"
  | .group | .message | .enum => []

/-- `getInitializerByFieldType`. -/
def getInitializerByFieldType : FieldType → Bytes
  | .double | .float => ascii "0.0"
  | .fixed32 | .fixed64 | .int32 | .int64 | .sint32 | .sint64 | .uint32 | .uint64 => ascii "0"
  | .bool => ascii "false"
  | _ => []

/-- `common::produceSimpleTypeMap`. -/
def produceSimpleTypeMap (type : FieldType) : TypeMap :=
  let namespaces :=
    if type ∈ [FieldType.string, .bytes, .bool, .float, .double] then [] else qtProtobufNamespace
  let name := typeReflection type
  let fullName := qualify namespaces name
  let listName := name ++ ascii "List"
  let fullListName :=
    if type ∈ [FieldType.string, .bytes] then listName
    else qtProtobufNamespace ++ ascii "::" ++ listName
  { type := name, fullType := fullName, scopeType := fullName, listType := listName,
    fullListType := fullListName, scopeListType := fullListName, scopeNamespaces := namespaces,
    qmlPackage := qtProtobufNamespace, propertyType := fullName, propertyListType := fullListName,
    getterType := fullName, setterType := fullName, initializer := getInitializerByFieldType type }

/-- `common::produceTypeMap`. -/
def produceTypeMap (f : FieldDescriptor) (scope : TypeDescriptor) : TypeMap :=
  match f.type, f.messageType, f.enumType with
  | .message, some type, _ =>
    if f.isQtType then produceQtTypeMap options type none
    else if f.isOverridden then produceOverriddenTypeMap options type none
    else produceMessageTypeMap options type (some scope)
  | .enum, _, some type => produceEnumTypeMap options type (some scope)
  | type, _, _ => produceSimpleTypeMap type

/-- `PropertyMap`, with the variables that the properties and members are declared by. -/
structure PropertyMap extends TypeMap where
  propertyName : Bytes
  propertyNameCap : Bytes
  mutableGetterName : Bytes
  optionalPropertyName : Bytes
  optionalPropertyNameCap : Bytes
  scriptable : Bool
  number : Bytes
deriving DecidableEq

/-- `CommonTemplates::MutableGetterPrefix`. -/
def mutableGetterPrefix : Bytes := ascii "mut"

/-- The name of the property of a field. -/
def FieldDescriptor.propertyName (f : FieldDescriptor) : Bytes :=
  qualifiedCppName (qualifiedQmlName (deCapitalizeAsciiName f.camelcaseName))

/-- A singular field of a signed type of 64 bits. -/
def FieldDescriptor.isSigned64 (f : FieldDescriptor) : Bool :=
  !f.isMap && !f.isRepeated &&
    (f.type == .int64 || f.type == .sint64 || f.type == .fixed64 || f.type == .sfixed64)

/-- `common::producePropertyMap` of a field. -/
def producePropertyMap (f : FieldDescriptor) (scope : TypeDescriptor) : PropertyMap :=
  let map := produceTypeMap options f scope
  let propertyName := f.propertyName
  let propertyNameCap := capitalizeAsciiName propertyName
  let isList := !f.isMap && f.isRepeated
  { map with
    classname := (produceMessageTypeMap options scope none).classname
    getterType := if isList then map.scopeListType else map.getterType
    setterType := if isList then map.scopeListType else map.setterType
    propertyName
    propertyNameCap
    mutableGetterName := mutableGetterPrefix ++ propertyNameCap
    optionalPropertyName :=
      if f.isOneofField options then
        (f.containingOneof.map fun o => qualifiedCppName (qualifiedQmlName o.name.text)).getD []
      else if f.isOptionalField options then propertyName
      else []
    optionalPropertyNameCap :=
      if f.isOneofField options then
        (f.containingOneof.map fun o => capitalizeAsciiName o.name.text).getD []
      else if f.isOptionalField options then propertyNameCap
      else []
    scriptable := !f.isSigned64
    number := toText f.number }

end QtGrpc.Generator
