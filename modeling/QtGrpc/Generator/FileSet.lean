import QtGrpc.Generator.CppNames
import QtGrpc.Library.NameLookup

/-!
# Generated namespaces

What the headers of a set of files declare, and what a qualified name denotes where the class of a
message is generated: in the namespaces of its file and of the messages around it. Beside a class
the headers declare others: the one that its data is kept in, the list of its values, the
enumerations of its fields and the namespace of the types nested in it.
-/

namespace QtGrpc.Generator

/-- `CommonTemplates::DataClassName`. -/
def dataClassName : Bytes := ascii "_QtProtobufData"

/-- `CommonTemplates::QtProtobufFieldEnum`. -/
def qtProtobufFieldEnum : Bytes := ascii "QtProtobufFieldEnum"

/-- The name of the class that sends the messages of a method. -/
def MethodDescriptor.senderName (method : MethodDescriptor) : Bytes :=
  method.name.text.modifyHead toAsciiUpper ++ ascii "Sender"

/-- The types and services seen where a header is generated, those of its file and of the files it
includes, as they are generated in one run. -/
structure FileSet where
  options : Options
  generateFieldEnum : Bool := true
  /-- `QT_USE_PROTOBUF_LIST_ALIASES` is defined. -/
  listAliases : Bool := false
  extraNamespaces : List Identifier := []
  types : List TypeDescriptor
  oneofs : TypeDescriptor → List OneofDescriptor
  services : List ServiceDescriptor := []
  /-- The types and namespaces that headers of other libraries declare, and where. -/
  otherHeaders : List (List Bytes × Bytes) := []
  extraNamespace_eq : options.extraNamespace = joinNames (ascii "::") extraNamespaces
  /-- `GenerateAll` calls `setExtraNamespacedFiles` with the files of the run. -/
  isExtraNamespaced : extraNamespaces ≠ [] →
    ∀ t ∈ types, isExtraNamespacedFile options t.file.name = true
  containing_mem : ∀ t ∈ types, ∀ outer ∈ t.containingTypes, outer ∈ types

namespace FileSet

/-- The types of files that are generated without options. -/
def ofTypes (types : List TypeDescriptor)
    (containing_mem : ∀ t ∈ types, ∀ outer ∈ t.containingTypes, outer ∈ types) : FileSet where
  options := {}
  types := types
  oneofs _ := []
  extraNamespace_eq := rfl
  isExtraNamespaced h := absurd rfl h
  containing_mem := containing_mem

variable (set : FileSet)

/-- The namespaces in which a type is declared. -/
def namespaces (t : TypeDescriptor) : List Bytes :=
  fileNamespace set.options t.file ++ t.localNamespace

/-- `common::hasNestedTypes`. -/
def hasNestedTypes (t : TypeDescriptor) : Bool :=
  (set.types.any fun inner => inner.file == t.file &&
    inner.containing == t.containing ++ [t.name] && !inner.isMap) ||
  set.generateFieldEnum || !(set.oneofs t).isEmpty

/-- The enumerations that are generated for a message and its oneofs. -/
def fieldEnums (t : TypeDescriptor) : List Bytes :=
  qtProtobufFieldEnum ::
    ((set.oneofs t).filter (!·.isSynthetic)).map fun oneof => oneof.name.className ++ ascii "Fields"

/-- What is declared beside the class or the enumeration of a type, with the namespaces that it is
declared in. -/
def companions (t : TypeDescriptor) : List (List Bytes × Bytes) :=
  match t.kind with
  | .mapEntry => []
  | .enumeration _ =>
    if t.containing = [] then
      [(fileNamespace set.options t.file, t.name.className ++ enumClassSuffix)] else []
  | .message =>
    [(set.namespaces t, t.name.className ++ dataClassName)] ++
    (if t.containing = [] ∧ set.listAliases then
      [(set.namespaces t, t.name.className ++ ascii "Repeated")] else []) ++
    if set.hasNestedTypes t then
      (set.namespaces t, t.name.nestedNamespace) ::
        (set.fieldEnums t).map fun name => (set.namespaces t ++ [t.name.nestedNamespace], name)
    else []

/-- What is declared for a type, with the namespaces that it is declared in. -/
def declarations (t : TypeDescriptor) : List (List Bytes × Bytes) :=
  (if t.isMap then [] else [(set.namespaces t, t.name.className)]) ++ set.companions t

/-- The namespaces in which the client of a service is declared. -/
def serviceNamespaces (service : ServiceDescriptor) : List Bytes :=
  fileNamespace set.options service.file ++ [service.name.text]

/-- What is declared for a service, with the namespaces that it is declared in. -/
def serviceDeclarations (service : ServiceDescriptor) : List (List Bytes × Bytes) :=
  [(fileNamespace set.options service.file, service.name.text),
    (set.serviceNamespaces service, ascii "Client")] ++
  if set.options.hasQml then
    (set.serviceNamespaces service, ascii "QmlClient") ::
      (service.methods.filter (·.clientStreaming)).map fun method =>
        (set.serviceNamespaces service, method.senderName)
  else []

/-- A namespace has a member of this name, among the namespaces and the types. -/
def declares (outer : List Bytes) (name : Bytes) : Bool :=
  (set.types.any fun t => (outer ++ [name]).isPrefixOf (fileNamespace set.options t.file) ||
    (set.declarations t).contains (outer, name)) ||
  (set.services.any fun service =>
    (outer ++ [name]).isPrefixOf (fileNamespace set.options service.file) ||
      (set.serviceDeclarations service).contains (outer, name)) ||
  set.otherHeaders.contains (outer, name)

/-- Where the class of a message is generated. -/
def place (scope : TypeDescriptor) : List Bytes := set.namespaces scope

/-- What a name stands for at some place. Nothing is searched for a name with double colons in
front. -/
def resolve (place : List Bytes) (name : Bytes) : Option (List Bytes) :=
  match splitName name with
  | [] :: path => some path
  | components => NameLookup.lookup set.declares place components

/-- The qualified names that are declared for a type beside those of its class or enumeration. The
class of a message has aliases for the enumerations of its fields. -/
def companionNames (t : TypeDescriptor) : List (List Bytes) :=
  (fileNamespace set.options t.file).inits ++
  (set.companions t).map (fun declaration => declaration.1 ++ [declaration.2]) ++
  if t.kind = .message then
    (t.qualifiedNames set.options).flatMap fun path => (set.fieldEnums t).map fun name => path ++ [name]
  else []

/-- The qualified names of what is no class or enumeration of a type. -/
def occupiedNames : List (List Bytes) :=
  set.types.flatMap set.companionNames ++
  (set.services.flatMap fun service => (fileNamespace set.options service.file).inits ++
    (set.serviceDeclarations service).map fun declaration => declaration.1 ++ [declaration.2]) ++
  set.otherHeaders.map fun declaration => declaration.1 ++ [declaration.2]

/-- Nothing else has this qualified name. -/
def Unshared (path : List Bytes) (t : TypeDescriptor) : Prop :=
  (∀ other ∈ set.types, Names set.options other path → other = t) ∧ path ∉ set.occupiedNames

instance (path : List Bytes) (t : TypeDescriptor) : Decidable (set.Unshared path t) :=
  inferInstanceAs (Decidable (_ ∧ _))

/-- The name stands for a type, and for nothing else. -/
def Denotes (place : List Bytes) (name : Bytes) (t : TypeDescriptor) : Prop :=
  ∃ path, set.resolve place name = some path ∧ Names set.options t path ∧ set.Unshared path t

instance (place : List Bytes) (name : Bytes) (t : TypeDescriptor) :
    Decidable (set.Denotes place name t) :=
  decidable_of_iff (∃ path ∈ (set.resolve place name).toList, Names set.options t path ∧
    set.Unshared path t) (by simp [Denotes])

variable {set}

/-- What a type of the set declares is declared. -/
theorem declares_of_type {t : TypeDescriptor} (ht : t ∈ set.types) {outer : List Bytes} {name : Bytes}
    (h : outer ++ [name] <+: fileNamespace set.options t.file ∨
      (outer, name) ∈ set.declarations t) : set.declares outer name = true := by
  rw [declares, Bool.or_eq_true, Bool.or_eq_true, List.any_eq_true]
  refine Or.inl (Or.inl ⟨t, ht, ?_⟩)
  rwa [Bool.or_eq_true, List.isPrefixOf_iff_prefix, List.contains_iff_mem]

/-- Each namespace of a file is declared in those before it. -/
theorem declares_of_fileNamespace {t : TypeDescriptor} (ht : t ∈ set.types) (rest : List Bytes)
    {outer : List Bytes} {name : Bytes} (h : fileNamespace set.options t.file = outer ++ name :: rest) :
    set.declares outer name = true := by
  apply declares_of_type ht
  rw [h, List.append_cons outer name rest]
  exact Or.inl (List.prefix_append _ _)

/-- A type is declared under the name of its class. -/
theorem declares_className {t : TypeDescriptor} (ht : t ∈ set.types) (hmap : t.isMap = false) :
    set.declares (set.namespaces t) t.name.className = true := by
  apply declares_of_type ht
  simp [declarations, hmap]

/-- What stands beside a class is declared. -/
theorem declares_companion {t : TypeDescriptor} (ht : t ∈ set.types) {outer : List Bytes}
    {name : Bytes} (h : (outer, name) ∈ set.companions t) : set.declares outer name = true :=
  declares_of_type ht (Or.inr (List.mem_append_right _ h))

/-- The gadget of a global enumeration is declared beside it. -/
theorem declares_gadget {t : TypeDescriptor} (ht : t ∈ set.types) (henum : t.isEnum = true)
    (hcontaining : t.containing = []) :
    set.declares (fileNamespace set.options t.file) (t.name.className ++ enumClassSuffix) = true := by
  apply declares_companion ht
  rw [companions]
  cases hkind : t.kind with
  | message => simp [TypeDescriptor.isEnum, hkind] at henum
  | mapEntry => simp [TypeDescriptor.isEnum, hkind] at henum
  | enumeration firstValue => simp [hcontaining]

/-- A message with a nested type has a namespace for it. -/
theorem declares_nestedNamespace {t inner : TypeDescriptor} (ht : t ∈ set.types)
    (hmessage : t.kind = .message) (hinner : inner ∈ set.types) (hmap : inner.isMap = false)
    (hfile : inner.file = t.file) (hcontaining : inner.containing = t.containing ++ [t.name]) :
    set.declares (set.namespaces t) t.name.nestedNamespace = true := by
  have hnested : set.hasNestedTypes t = true := by
    rw [hasNestedTypes, Bool.or_eq_true, Bool.or_eq_true, List.any_eq_true]
    exact Or.inl (Or.inl ⟨inner, hinner, by simp [hfile, hcontaining, hmap]⟩)
  apply declares_companion ht
  rw [companions, hmessage]
  simp [hnested]

/-- What a name denotes that begins with a component. -/
theorem denotes_iff {place : List Bytes} {name first : Bytes} {rest : List Bytes} {t : TypeDescriptor}
    (hname : splitName name = first :: rest) (hfirst : first ≠ []) :
    set.Denotes place name t ↔
      ∃ outer ≤ place.length, set.declares (place.take outer) first = true ∧
        NameLookup.Unhidden set.declares place outer first ∧
        Names set.options t (place.take outer ++ first :: rest) ∧
        set.Unshared (place.take outer ++ first :: rest) t := by
  have hresolve : set.resolve place name = NameLookup.lookup set.declares place (first :: rest) := by
    rw [resolve, hname]
    cases first with
    | nil => exact absurd rfl hfirst
    | cons b first => rfl
  rw [Denotes]
  simp only [hresolve, NameLookup.lookup_eq_some_iff]
  constructor
  · rintro ⟨path, ⟨outer, houter, rfl, hdeclared, hunhidden⟩, hnames, hunshared⟩
    exact ⟨outer, houter, hdeclared, hunhidden, hnames, hunshared⟩
  · rintro ⟨outer, houter, hdeclared, hunhidden, hnames, hunshared⟩
    exact ⟨_, ⟨outer, houter, rfl, hdeclared, hunhidden⟩, hnames, hunshared⟩

/-- A name that begins with double colons denotes what it says. -/
theorem denotes_absolute_iff {place path : List Bytes} {name : Bytes} {t : TypeDescriptor}
    (hname : splitName name = [] :: path) :
    set.Denotes place name t ↔ Names set.options t path ∧ set.Unshared path t := by
  have hresolve : set.resolve place name = some path := by rw [resolve, hname]
  rw [Denotes, hresolve]
  constructor
  · rintro ⟨found, hfound, hnames⟩
    obtain rfl := Option.some.inj hfound
    exact hnames
  · intro hnames
    exact ⟨path, rfl, hnames⟩

end FileSet

end QtGrpc.Generator
