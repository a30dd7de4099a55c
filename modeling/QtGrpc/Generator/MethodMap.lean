import QtGrpc.Generator.TypeReferences

/-!
# Method maps

The generators of clients know the types of a method by their names in the `.proto` file, with the
dots replaced, and write them in the classes of a client, in the namespaces of the package and of the
service. The classes of the messages are named otherwise: a first letter is turned into upper case,
nested messages are members of a class, and two packages are kept apart from the classes of Qt.
-/

namespace QtGrpc.Generator

/-- `MethodMap`. -/
structure MethodMap where
  classname : Bytes
  senderClassName : Bytes
  senderQmlName : Bytes
  returnType : Bytes
  classnameLowCase : Bytes
  methodName : Bytes
  paramType : Bytes
  paramName : Bytes
  streamType : Bytes
  streamTypeLower : Bytes
  returnName : Bytes
  serviceName : Bytes
deriving DecidableEq

/-- `common::produceMethodMap`. -/
def produceMethodMap (service : ServiceDescriptor) (method : MethodDescriptor) (scope : Bytes) :
    MethodMap :=
  let inputTypeName := replace method.inputType.fullName (ascii ".") (ascii "::")
  let outputTypeName := replace method.outputType.fullName (ascii ".") (ascii "::")
  let streamType :=
    if method.clientStreaming && method.serverStreaming then ascii "Bidi"
    else if method.serverStreaming then ascii "Server"
    else if method.clientStreaming then ascii "Client"
    else []
  { classname := scope, senderClassName := method.senderName,
    senderQmlName := service.name.text ++ method.senderName, returnType := outputTypeName,
    classnameLowCase := deCapitalizeAsciiName scope, methodName := method.name.text,
    paramType := inputTypeName, paramName := ascii "arg", streamType,
    streamTypeLower := deCapitalizeAsciiName streamType, returnName := ascii "ret",
    serviceName := service.name.text }

/-! ## The classes of a client -/

/-- The members of a class and of the classes it is derived from. -/
structure ClassMembers where
  types : List Bytes
  /-- Functions, variables and enumerators. -/
  values : List Bytes

/-- A member of the class stands for the first component of a name. In front of double colons only
types and namespaces are looked for. -/
def ClassMembers.hides (members : ClassMembers) : (components : List Bytes) → Bool
  | [] => false
  | [name] => members.types.contains name || members.values.contains name
  | first :: _ => members.types.contains first

/-- The classes in which the types of a method are written. -/
inductive ClientClass where
  | client | qmlClient | sender

/-- The members of such a class, with those it has of the classes of the library. -/
def ClientClass.members (service : ServiceDescriptor) (base : ClassMembers) :
    ClientClass → ClassMembers
  | client | qmlClient => { base with values := service.methods.map (·.name.text) ++ base.values }
  | sender => { base with values := ascii "writeMessage" :: base.values }

/-- A name that is written in a class stands for a type, and for nothing else. -/
def FileSet.DenotesInClass (set : FileSet) (members : ClassMembers) (place : List Bytes)
    (name : Bytes) (t : TypeDescriptor) : Prop :=
  members.hides (splitName name) = false ∧ set.Denotes place name t

instance (set : FileSet) (members : ClassMembers) (place : List Bytes) (name : Bytes)
    (t : TypeDescriptor) : Decidable (set.DenotesInClass members place name t) :=
  inferInstanceAs (Decidable (_ ∧ _))

/-! ## Names that a class keeps -/

/-- The name begins with a lower-case letter. -/
def Identifier.startsLower (name : Identifier) : Bool :=
  name.text.head?.any fun c => 97 ≤ c && c ≤ 122

/-- A class keeps the name of its message unless that begins with a lower-case letter. -/
theorem Identifier.className_eq_text_iff (name : Identifier) :
    name.className = name.text ↔ name.startsLower = false := by
  obtain ⟨text, nonempty, valid, noDigit⟩ := name
  cases text with
  | nil => exact absurd rfl nonempty
  | cons c text =>
    have hbyte : ∀ c : UInt8, ((if isAsciiAlpha c then c &&& ~~~0x20 else c) = c) ↔
        (decide (97 ≤ c) && decide (c ≤ 122)) = false :=
      forall_byte (P := fun c => ((if isAsciiAlpha c then c &&& ~~~0x20 else c) = c) ↔
        (decide (97 ≤ c) && decide (c ≤ 122)) = false) (by decide +kernel)
    simp only [Identifier.className, capitalizeAsciiName, Identifier.startsLower, List.head?_cons,
      Option.any_some, List.cons.injEq, and_true]
    exact hbyte c

/-- A nested namespace is not named like the message. -/
theorem Identifier.nestedNamespace_ne_text (name : Identifier) :
    name.nestedNamespace ≠ name.text := by
  intro h
  have hlength := congrArg List.length h
  rw [Identifier.nestedNamespace, List.length_append, Identifier.className, length_capitalize]
    at hlength
  have hsuffix : qtProtobufNestedNamespace.length = 17 := by decide
  omega

/-- The classes around a message and its own have the names of the messages. -/
def TypeDescriptor.KeepsName (t : TypeDescriptor) : Prop :=
  ClassesDiffer (t.containing ++ [t.name]) ∧
    ∀ name ∈ t.containing ++ [t.name], name.startsLower = false

instance (t : TypeDescriptor) : Decidable t.KeepsName := inferInstanceAs (Decidable (_ ∧ _))

/-- The components of the name that a message has in its file. -/
def TypeDescriptor.components (t : TypeDescriptor) : List Bytes :=
  t.file.package.map (·.text) ++ (t.containing ++ [t.name]).map (·.text)

/-- The full name, with its points replaced, splits into the components. -/
theorem splitName_fullName (t : TypeDescriptor) :
    splitName (replace t.fullName (ascii ".") (ascii "::")) = t.components := by
  rw [TypeDescriptor.fullName, replace_joinNames, splitName_joinNames, TypeDescriptor.components,
    List.append_assoc, List.map_append]

/-- The class names are the names themselves exactly when none begins in lower case. -/
theorem map_className_eq_iff (names : List Identifier) :
    names.map (·.className) = names.map (·.text) ↔ ∀ name ∈ names, name.startsLower = false := by
  rw [List.map_inj_left]
  exact forall₂_congr fun name _ => name.className_eq_text_iff

/-- The names of the messages lead to a class only as the names of classes. -/
theorem TypeDescriptor.keepsName_of_path {t : TypeDescriptor} {i : Nat}
    (hi : i ≤ t.containing.length)
    (hpath : (t.containing ++ [t.name]).map (·.text) = (t.containing.take i).map (·.nestedNamespace) ++
      ((t.containing.drop i).map (·.className) ++ [t.name.className]))
    (hdiffer : ClassesDiffer (t.containing.drop i ++ [t.name])) : t.KeepsName := by
  obtain rfl := FileSet.take_eq_nil_of_classes hi (fun name hname => by
    obtain ⟨rest, hcontaining⟩ := List.head?_eq_some_iff.mp hname
    rw [hcontaining]
    simpa using name.nestedNamespace_ne_text.symm) hpath
  refine ⟨by simpa using hdiffer, ?_⟩
  rw [← map_className_eq_iff, hpath]
  simp

namespace FileSet

open NameLookup (Unhidden)

variable (set : FileSet)

/-- The condition for the name of a method's type to be found. The class of the message has its name,
no member of the class that the name is written in stands for what it begins with, and neither does
a namespace around that class. A type of a package kept apart from Qt is found only from there. -/
def MethodTypeResolves (members : ClassMembers) (place : List Bytes) (t : TypeDescriptor) : Prop :=
  t.KeepsName ∧ set.Unshared (set.classPath t) t ∧ members.hides t.components = false ∧
    if t.file.isQtPackage = true then
      place.take 1 = [ascii "QtProtobufPrivate"] ∧
        Unhidden set.declares place 1 (t.components.headD [])
    else Unhidden set.declares place 0 (t.components.headD [])

instance (members : ClassMembers) (place : List Bytes) (t : TypeDescriptor) :
    Decidable (set.MethodTypeResolves members place t) :=
  inferInstanceAs (Decidable (_ ∧ _ ∧ _ ∧ ite _ _ _))

variable {set}

/-- No component of a full name is empty. -/
theorem components_component (t : TypeDescriptor) : ∀ component ∈ t.components, component ≠ [] := by
  intro component hcomponent
  rw [TypeDescriptor.components, ← List.map_append] at hcomponent
  obtain ⟨name, -, rfl⟩ := List.mem_map.mp hcomponent
  exact name.nonempty

/-- The qualified name of a message that keeps its name. -/
theorem classPath_of_keepsName (hextra : set.extraNamespaces = []) {t : TypeDescriptor}
    (ht : t.kind = .message) (hkeeps : t.KeepsName) :
    set.classPath t =
      (if t.file.isQtPackage then [ascii "QtProtobufPrivate"] else []) ++ t.components := by
  have hglobal : ¬ t.isGlobalEnum = true := by
    rw [isGlobalEnum_iff, TypeDescriptor.isEnum_of_message ht]
    simp
  have hnone : set.extraComponents = [] := by rw [extraComponents, hextra]; rfl
  rw [classPath, if_neg hglobal, fileNamespace_eq, hnone, FileDescriptor.packageNamespace,
    TypeDescriptor.components, ← (map_className_eq_iff _).mpr hkeeps.2]
  simp

/-- A message is known by the name it has in its file exactly if its class has that name and neither
a member of the class nor a namespace around the place hides what it begins with. -/
theorem denotesInClass_iff (hextra : set.extraNamespaces = []) {t : TypeDescriptor}
    (ht : t ∈ set.types) (hmessage : t.kind = .message) (members : ClassMembers)
    (place : List Bytes) :
    set.DenotesInClass members place (replace t.fullName (ascii ".") (ascii "::")) t ↔
      set.MethodTypeResolves members place t := by
  have hmap := TypeDescriptor.isMap_of_message hmessage
  have hnone : set.extraComponents = [] := by rw [extraComponents, hextra]; rfl
  have hfile : fileNamespace set.options t.file =
      (if t.file.isQtPackage then [ascii "QtProtobufPrivate"] else []) ++
        t.file.package.map (·.text) := by
    rw [fileNamespace_eq, hnone, List.nil_append, FileDescriptor.packageNamespace]
  obtain ⟨first, rest, hfirst⟩ : ∃ first rest, t.components = first :: rest :=
    List.exists_cons_of_ne_nil (by simp [TypeDescriptor.components])
  have hfirstNe := components_component t first (by rw [hfirst]; exact List.mem_cons_self)
  have hsplit := splitName_fullName t
  rw [DenotesInClass, MethodTypeResolves, hsplit, hfirst, List.headD_cons]
  rw [hfirst] at hsplit
  rw [denotes_iff hsplit hfirstNe]
  constructor
  · rintro ⟨hmembers, outer, houter, -, hunhidden, hnames, hunshared⟩
    obtain ⟨i, hi, hpath, hdiffer, -⟩ :=
      hnames.exists_take (Or.inr (TypeDescriptor.isEnum_of_message hmessage))
    rw [← hfirst, hfile, TypeDescriptor.components] at hpath
    have hlength := congrArg List.length hpath
    simp only [List.length_append, List.length_map, List.length_take, List.length_drop,
      List.length_singleton] at hlength
    have hparts : place.take outer ++ (t.file.package.map (·.text) ++
        (t.containing ++ [t.name]).map (·.text)) =
        (if t.file.isQtPackage then [ascii "QtProtobufPrivate"] else []) ++
          (t.file.package.map (·.text) ++ ((t.containing.take i).map (·.nestedNamespace) ++
            ((t.containing.drop i).map (·.className) ++ [t.name.className]))) := by
      simpa only [List.append_assoc] using hpath
    obtain ⟨hplace, hnamed⟩ := List.append_inj hparts (by rw [List.length_take]; omega)
    have hkeeps := TypeDescriptor.keepsName_of_path hi (List.append_cancel_left hnamed) hdiffer
    rw [hplace, ← hfirst, ← classPath_of_keepsName hextra hmessage hkeeps] at hunshared
    have hdepth := congrArg List.length hplace
    rw [List.length_take_of_le houter] at hdepth
    refine ⟨hkeeps, hunshared, hmembers, ?_⟩
    by_cases hqt : t.file.isQtPackage = true
    · rw [if_pos hqt] at hplace hdepth ⊢
      obtain rfl : outer = 1 := hdepth
      exact ⟨hplace, hunhidden⟩
    · rw [if_neg hqt] at hdepth ⊢
      obtain rfl : outer = 0 := hdepth
      exact hunhidden
  · rintro ⟨hkeeps, hunshared, hmembers, hfound⟩
    refine ⟨hmembers, ?_⟩
    have hnames := (names_classPath_iff set hmap).mpr hkeeps.1
    have hclassPath := classPath_of_keepsName hextra hmessage hkeeps
    rw [hfirst] at hclassPath
    by_cases hqt : t.file.isQtPackage = true
    · rw [if_pos hqt] at hfound hfile hclassPath
      have hlength := congrArg List.length hfound.1
      rw [List.length_take, List.length_singleton] at hlength
      have hpackage : t.file.package ≠ [] := by
        intro hnil
        rw [FileDescriptor.isQtPackage, hnil] at hqt
        exact absurd hqt (by decide)
      obtain ⟨name, names, hnamesEq⟩ := List.exists_cons_of_ne_nil hpackage
      have hhead : first = name.text := by
        rw [TypeDescriptor.components, hnamesEq] at hfirst
        exact (List.cons.inj hfirst).1.symm
      refine ⟨1, by omega, ?_, hfound.2, ?_, ?_⟩
      · rw [hfound.1, hhead]
        apply declares_of_fileNamespace ht (names.map (·.text))
        rw [hfile, hnamesEq]
        rfl
      · rwa [hfound.1, ← hclassPath]
      · rwa [hfound.1, ← hclassPath]
    · rw [if_neg hqt] at hfound hclassPath
      refine ⟨0, Nat.zero_le _, ?_, hfound, ?_, ?_⟩
      · refine declares_classPath ht hmap (fun hglobal => ?_) hclassPath
        rw [isGlobalEnum_iff, TypeDescriptor.isEnum_of_message hmessage] at hglobal
        exact absurd hglobal.2 (by simp)
      · rwa [List.take_zero, ← hclassPath]
      · rwa [List.take_zero, ← hclassPath]

/-- The types of a method denote the classes of its messages, where a client is declared, exactly if
no name of either type has to change and nothing nearer hides what it begins with. -/
theorem produceMethodMap_denotes_iff (hextra : set.extraNamespaces = [])
    (service : ServiceDescriptor) {method : MethodDescriptor} (hinput : method.inputType ∈ set.types)
    (houtput : method.outputType ∈ set.types) (base : ClassMembers) (inside : ClientClass)
    (scope : Bytes) :
    set.DenotesInClass (inside.members service base) (set.serviceNamespaces service)
          (produceMethodMap service method scope).paramType method.inputType ∧
        set.DenotesInClass (inside.members service base) (set.serviceNamespaces service)
          (produceMethodMap service method scope).returnType method.outputType ↔
      set.MethodTypeResolves (inside.members service base) (set.serviceNamespaces service)
          method.inputType ∧
        set.MethodTypeResolves (inside.members service base) (set.serviceNamespaces service)
          method.outputType :=
  and_congr (denotesInClass_iff hextra hinput method.input_message _ _)
    (denotesInClass_iff hextra houtput method.output_message _ _)

/-! ## Names that are not found -/

/-- A service with one method. -/
def serviceOf (method : MethodDescriptor) : ServiceDescriptor where
  file := method.inputType.file
  name := ⟨ascii "Messenger", by decide, by decide, by decide⟩
  methods := [method]

/-- A file with a service, its method and the messages of that. -/
def setOf (method : MethodDescriptor)
    (h : ∀ t ∈ [method.inputType, method.outputType], ∀ outer ∈ t.containingTypes,
      outer ∈ [method.inputType, method.outputType]) : FileSet :=
  { ofTypes [method.inputType, method.outputType] h with services := [serviceOf method] }

variable (set) in
/-- The first type of a method is found where its function is declared in the client. -/
def FindsParameter (method : MethodDescriptor) : Prop :=
  set.DenotesInClass (ClientClass.client.members (serviceOf method) ⟨[], []⟩)
    (set.serviceNamespaces (serviceOf method))
    (produceMethodMap (serviceOf method) method (ascii "Client")).paramType method.inputType

instance (method : MethodDescriptor) : Decidable (set.FindsParameter method) :=
  inferInstanceAs (Decidable (set.DenotesInClass _ _ _ _))

/-- The file of messages in the package `chat`. -/
def chatFile : FileDescriptor where
  name := ascii "chat.proto"
  package := [⟨ascii "chat", by decide, by decide, by decide⟩]

/-- The file of messages in the package `Chat`. -/
def capitalFile : FileDescriptor where
  name := ascii "chat.proto"
  package := [⟨ascii "Chat", by decide, by decide, by decide⟩]

def chatName : Identifier := ⟨ascii "Chat", by decide, by decide, by decide⟩

def requestName : Identifier := ⟨ascii "Request", by decide, by decide, by decide⟩

/-- `rpc call(Request) returns (Chat)`, in the package `chat`. -/
def plainMethod : MethodDescriptor where
  name := ⟨ascii "call", by decide, by decide, by decide⟩
  inputType := { file := chatFile, name := requestName }
  outputType := { file := chatFile, name := chatName }
  input_message := rfl
  output_message := rfl

/-- It takes a message with a name in lower case. -/
def lowerCaseMethod : MethodDescriptor :=
  { plainMethod with
    inputType :=
      { file := chatFile, name := ⟨ascii "request", by decide, by decide, by decide⟩ }
    input_message := rfl }

/-- Its package has the name of the message it returns. -/
def hiddenMethod : MethodDescriptor where
  name := plainMethod.name
  inputType := { file := capitalFile, name := requestName }
  outputType := { file := capitalFile, name := chatName }
  input_message := rfl
  output_message := rfl

/-- It takes a message in another one of its name. -/
def nestedMethod : MethodDescriptor :=
  { plainMethod with
    inputType := { file := chatFile, containing := [chatName], name := chatName }
    input_message := rfl }

/-- `rpc Request(.Request) returns (.Chat)`, without a package. -/
def sameNameMethod : MethodDescriptor where
  name := requestName
  inputType := { file := { name := ascii "chat.proto", package := [] }, name := requestName }
  outputType := { file := { name := ascii "chat.proto", package := [] }, name := chatName }
  input_message := rfl
  output_message := rfl

/-- In the sample the parameter is found and the types of the method are denoted. -/
theorem produceMethodMap_denotes_sample :
    (setOf plainMethod (by decide)).FindsParameter plainMethod ∧
      (setOf plainMethod (by decide)).DenotesInClass
        (ClientClass.client.members (serviceOf plainMethod) ⟨[], []⟩)
        ((setOf plainMethod (by decide)).serviceNamespaces (serviceOf plainMethod))
        (produceMethodMap (serviceOf plainMethod) plainMethod (ascii "Client")).returnType
        plainMethod.outputType :=
  (produceMethodMap_denotes_iff rfl (serviceOf plainMethod) (by decide) (by decide) ⟨[], []⟩ .client
    (ascii "Client")).mpr ⟨by decide +kernel, by decide +kernel⟩

/-- `chat::request` is no name of `chat::Request`, the class `Chat::Chat` hides the namespace `Chat`,
`chat::Chat::Chat` is a constructor, and in the client `Request` is a function. -/
theorem parameters_not_found :
    ((produceMethodMap (serviceOf lowerCaseMethod) lowerCaseMethod (ascii "Client")).paramType =
        ascii "chat::request" ∧
      ¬ (setOf lowerCaseMethod (by decide)).FindsParameter lowerCaseMethod) ∧
    ((produceMethodMap (serviceOf hiddenMethod) hiddenMethod (ascii "Client")).paramType =
        ascii "Chat::Request" ∧
      ¬ (setOf hiddenMethod (by decide)).FindsParameter hiddenMethod) ∧
    ((produceMethodMap (serviceOf nestedMethod) nestedMethod (ascii "Client")).paramType =
        ascii "chat::Chat::Chat" ∧
      ¬ (setOf nestedMethod (by decide)).FindsParameter nestedMethod) ∧
    ((produceMethodMap (serviceOf sameNameMethod) sameNameMethod (ascii "Client")).paramType =
        ascii "Request" ∧
      ¬ (setOf sameNameMethod (by decide)).FindsParameter sameNameMethod) := by
  refine ⟨⟨by decide +kernel, by decide +kernel⟩, ⟨by decide +kernel, by decide +kernel⟩,
    ⟨by decide +kernel, by decide +kernel⟩, ⟨by decide +kernel, by decide +kernel⟩⟩

end FileSet

end QtGrpc.Generator
