import QtGrpc.Generator.CppNames
import QtGrpc.Generator.HeaderGuards
import QtGrpc.Generator.Members

/-!
# Included headers

`QProtobufGenerator::GenerateHeader` collects the headers that a generated one includes on a traversal
of its own: it goes through the messages of the file and those nested directly in them. The classes
are printed by a printer that calls itself for the messages nested in a message.
-/

namespace QtGrpc.Generator

/-- `Descriptor`, with the types nested in it. -/
inductive MessageNode where
  | node (descriptor : Descriptor) (enumTypeCount : Nat) (nestedTypes : List MessageNode)

namespace MessageNode

def descriptor : MessageNode → Descriptor
  | node descriptor _ _ => descriptor

def enumTypeCount : MessageNode → Nat
  | node _ enumTypeCount _ => enumTypeCount

def nestedTypes : MessageNode → List MessageNode
  | node _ _ nestedTypes => nestedTypes

/-- `common::isMap`. -/
def isMap (m : MessageNode) : Bool := m.descriptor.type.isMap

/-- The messages `common::iterateNestedMessages` goes through. -/
def nestedMessages (m : MessageNode) : List MessageNode := m.nestedTypes.filter fun n => !n.isMap

/-- `common::hasNestedMessages`. -/
def hasNestedMessages (m : MessageNode) : Bool :=
  (!m.nestedTypes.isEmpty && m.descriptor.fields.isEmpty) || m.nestedTypes.any fun n => !n.isMap

/-- `common::hasNestedTypes`. -/
def hasNestedTypes (generateFieldEnum : Bool) (m : MessageNode) : Bool :=
  m.hasNestedMessages || m.enumTypeCount > 0 || generateFieldEnum || !m.descriptor.oneofs.isEmpty

/-- A property that a message has if the types nested in it have it. -/
theorem ind {P : MessageNode → Prop}
    (node : ∀ descriptor enumTypeCount nestedTypes, (∀ n ∈ nestedTypes, P n) →
      P (node descriptor enumTypeCount nestedTypes)) (m : MessageNode) : P m := by
  refine @MessageNode.rec P (fun nodes => ∀ n ∈ nodes, P n) node ?_ ?_ m
  · intro n hn
    exact absurd hn List.not_mem_nil
  · intro head tail hhead htail n hn
    rcases List.mem_cons.mp hn with rfl | hn
    · exact hhead
    · exact htail n hn

end MessageNode

/-- `utils::toAsciiLower`. -/
def toAsciiLower (c : UInt8) : UInt8 := if 65 ≤ c && c ≤ 90 then c - 65 + 97 else c

/-- A file with its messages and the files it depends on. -/
structure MessageFile where
  file : FileDescriptor
  messages : List MessageNode
  dependencies : List Bytes := []

/-- Options of the generator of messages. -/
structure MessageOptions extends Options where
  generateFieldEnum : Bool := true
  exportMacroFilename : Bytes := []

/-- The include sets, by what is inserted into them, and the messages whose classes are printed. -/
structure HeaderContents where
  internalIncludes : List Bytes
  externalIncludes : List Bytes
  systemIncludes : List Bytes
  classes : List Descriptor

mutual

/-- The classes `MessageDeclarationPrinter::printClassDeclarationPrivate` prints. -/
def printClassDeclaration (generateFieldEnum : Bool) : MessageNode → List Descriptor
  | .node descriptor enumTypeCount nestedTypes =>
    descriptor ::
      if MessageNode.hasNestedTypes generateFieldEnum (.node descriptor enumTypeCount nestedTypes) then
        printNestedDeclarations generateFieldEnum nestedTypes
      else []

/-- Its calls for the nested messages. -/
def printNestedDeclarations (generateFieldEnum : Bool) : List MessageNode → List Descriptor
  | [] => []
  | n :: nestedTypes =>
    (if n.isMap then [] else printClassDeclaration generateFieldEnum n) ++
      printNestedDeclarations generateFieldEnum nestedTypes

end

/-- The header of the oneofs. -/
def oneofHeader : Bytes := ascii "QtProtobuf/qprotobufoneof.h"

/-- The header of `Any`. -/
def anySupportHeader : Bytes := ascii "QtProtobufWellKnownTypes/qprotobufanysupport.h"

/-- The header of the class of a Qt type. -/
def classHeader (t : TypeDescriptor) : Bytes := t.file.packageName ++ ascii "/" ++ t.name.text

/-- The header of the conversions of a Qt module. -/
def moduleHeader (package : Bytes) : Bytes :=
  ascii "QtProtobuf" ++ package ++ ascii "Types/qtprotobuf" ++ package.map toAsciiLower ++
    ascii "types.h"

/-- A field that brings the headers of a Qt type. -/
def FieldDescriptor.isSingularQtType (f : FieldDescriptor) : Bool :=
  f.type == .message && !f.isMap && !f.isRepeated && f.isQtType

/-- The Qt types whose headers `specialMessageHandling` collects from the fields of a message. -/
def Descriptor.qtTypes (d : Descriptor) : List TypeDescriptor :=
  (d.generatedFields.filter (·.isSingularQtType)).filterMap (·.messageType)

/-- What `specialMessageHandling` inserts into `externalIncludes`. -/
def Descriptor.externalIncludes (d : Descriptor) : List Bytes :=
  (if d.oneofs.isEmpty then [] else [oneofHeader]) ++
  (if d.type.fullName = ascii "google.protobuf.Timestamp" then [ascii "QtCore/QDateTime"] else []) ++
  (if d.type.fullName = ascii "google.protobuf.Any" then [anySupportHeader] else []) ++
  d.qtTypes.map classHeader

/-- What `specialMessageHandling` inserts into `systemIncludes`. -/
def Descriptor.systemIncludes (options : Options) (d : Descriptor) : List Bytes :=
  if d.generatedFields.any (·.isOptionalField options) then [ascii "optional"] else []

/-- The messages that `specialMessageHandling` is called for. -/
def MessageFile.handledMessages (file : MessageFile) : List Descriptor :=
  file.messages.flatMap fun m => m.descriptor :: m.nestedMessages.map (·.descriptor)

/-- The headers that are included by every file. -/
def fixedIncludes (options : Options) : List Bytes :=
  ["QtCore/qbytearray.h", "QtCore/qlist.h", "QtCore/qmetatype.h", "QtCore/qshareddata.h",
    "QtCore/qstring.h", "QtProtobuf/qprotobuflazymessagepointer.h", "QtProtobuf/qprotobufmessage.h",
    "QtProtobuf/qprotobufobject.h", "QtProtobuf/qtprotobuftypes.h"].map ascii ++
  if options.hasQml then ["QtQml/qqmlregistration.h", "QtQml/qqmllist.h"].map ascii else []

/-- `std::filesystem::path::parent_path`. -/
def pathParent (path : Bytes) : Bytes := (path.reverse.dropWhile (· != 47)).tail.reverse

/-- `utils::removeFileSuffix`. -/
def removeFileSuffix (fileName : Bytes) : Bytes :=
  let parent := pathParent fileName
  (if parent = [] then [] else parent ++ ascii "/") ++ extractFileBasename fileName

/-- The headers of the other files that are depended on. -/
def dependencyIncludes (dependencies : List Bytes) : List Bytes :=
  (dependencies.filter fun name => name != ascii "QtCore/QtCore.proto" &&
    name != ascii "QtGui/QtGui.proto" && name != ascii "google/protobuf/any.proto").map fun name =>
      removeFileSuffix name ++ protoFileSuffix ++ headerSuffix

/-- `QProtobufGenerator::GenerateHeader`, up to the text it prints. -/
def generateHeader (options : MessageOptions) (file : MessageFile) : Except Bytes HeaderContents :=
  let handled := file.handledMessages
  let mutFieldsClashError := handled.foldl
    (fun error d => checkMutableGetters options.toOptions d [] error d.generatedFields) []
  let qtTypesSet := handled.flatMap fun d => d.qtTypes.map (·.file.packageName)
  if mutFieldsClashError ≠ [] ∧ options.mutableGetterConflicts = false then .error mutFieldsClashError
  else .ok
    { internalIncludes :=
        (if options.exportMacroFilename = [] then [] else [options.exportMacroFilename]) ++
          dependencyIncludes file.dependencies
      externalIncludes := fixedIncludes options.toOptions ++
        handled.flatMap (·.externalIncludes) ++ qtTypesSet.map moduleHeader ++
          (if file.dependencies.contains (ascii "google/protobuf/any.proto") then [anySupportHeader]
          else [])
      systemIncludes := handled.flatMap (·.systemIncludes options.toOptions)
      classes := file.messages.flatMap (printClassDeclaration options.generateFieldEnum) }

/-! ## Nested messages -/

/-- A message of a file that is no map entry, and how many messages are around it. -/
inductive MessageFile.Nests (file : MessageFile) : Nat → MessageNode → Prop
  | outer {m : MessageNode} (h : m ∈ file.messages) : file.Nests 0 m
  | nested {depth : Nat} {m n : MessageNode} (h : file.Nests depth m) (hn : n ∈ m.nestedMessages) :
      file.Nests (depth + 1) n

/-- The nested types are declared one after the other, without the entries of maps. -/
theorem printNestedDeclarations_eq (generateFieldEnum : Bool) (nestedTypes : List MessageNode) :
    printNestedDeclarations generateFieldEnum nestedTypes =
      (nestedTypes.filter fun n => !n.isMap).flatMap (printClassDeclaration generateFieldEnum) := by
  induction nestedTypes with
  | nil => rw [printNestedDeclarations]; rfl
  | cons n nestedTypes ih =>
    rw [printNestedDeclarations, ih, List.filter_cons]
    cases n.isMap <;> simp

/-- A message is printed with all that are nested in it. -/
theorem printClassDeclaration_eq (generateFieldEnum : Bool) (m : MessageNode) :
    printClassDeclaration generateFieldEnum m =
      m.descriptor :: m.nestedMessages.flatMap (printClassDeclaration generateFieldEnum) := by
  obtain ⟨descriptor, enumTypeCount, nestedTypes⟩ := m
  rw [printClassDeclaration, printNestedDeclarations_eq]
  congr 1
  split
  · rfl
  · rename_i hnone
    have hempty : nestedTypes.filter (fun n => !n.isMap) = [] := by
      rw [List.filter_eq_nil_iff]
      intro n hn hmap
      apply hnone
      have hany : nestedTypes.any (fun n => !n.isMap) = true := List.any_eq_true.mpr ⟨n, hn, hmap⟩
      simp [MessageNode.hasNestedTypes, MessageNode.hasNestedMessages, MessageNode.nestedTypes, hany]
    rw [MessageNode.nestedMessages, MessageNode.nestedTypes, hempty]
    rfl

namespace MessageFile

variable {file : MessageFile} {generateFieldEnum : Bool}

/-- Every printed class is that of a message in the file. -/
theorem Nests.of_printed {m : MessageNode} {d : Descriptor}
    (hd : d ∈ printClassDeclaration generateFieldEnum m) {depth : Nat} (h : file.Nests depth m) :
    ∃ depth n, file.Nests depth n ∧ n.descriptor = d := by
  induction m using MessageNode.ind generalizing depth with
  | node descriptor enumTypeCount nestedTypes ih =>
    rw [printClassDeclaration_eq] at hd
    rcases List.mem_cons.mp hd with rfl | hnested
    · exact ⟨depth, _, h, rfl⟩
    · obtain ⟨n, hn, hd⟩ := List.mem_flatMap.mp hnested
      exact ih n (List.mem_filter.mp hn).1 hd (h.nested hn)

/-- And the class of every message in the file is printed. -/
theorem Nests.printed {m : MessageNode} {depth : Nat} (h : file.Nests depth m) {d : Descriptor}
    (hd : d ∈ printClassDeclaration generateFieldEnum m) :
    d ∈ file.messages.flatMap (printClassDeclaration generateFieldEnum) := by
  induction h with
  | outer h => exact List.mem_flatMap.mpr ⟨_, h, hd⟩
  | nested h hn ih =>
    apply ih
    rw [printClassDeclaration_eq]
    exact List.mem_cons_of_mem _ (List.mem_flatMap.mpr ⟨_, hn, hd⟩)

/-- The classes are those of the messages at every depth. -/
theorem mem_printed {d : Descriptor} :
    d ∈ file.messages.flatMap (printClassDeclaration generateFieldEnum) ↔
      ∃ depth m, file.Nests depth m ∧ m.descriptor = d := by
  constructor
  · intro hd
    obtain ⟨m, hm, hd⟩ := List.mem_flatMap.mp hd
    exact Nests.of_printed hd (.outer hm)
  · rintro ⟨depth, m, hm, rfl⟩
    apply hm.printed
    rw [printClassDeclaration_eq]
    exact List.mem_cons_self

/-- The messages that are handled are those outside of messages and those directly in them. -/
theorem mem_handledMessages {d : Descriptor} :
    d ∈ file.handledMessages ↔ ∃ depth ≤ 1, ∃ m, file.Nests depth m ∧ m.descriptor = d := by
  rw [handledMessages, List.mem_flatMap]
  constructor
  · rintro ⟨m, hm, hd⟩
    rcases List.mem_cons.mp hd with rfl | hd
    · exact ⟨0, Nat.zero_le 1, m, .outer hm, rfl⟩
    · obtain ⟨n, hn, rfl⟩ := List.mem_map.mp hd
      exact ⟨1, Nat.le_refl 1, n, (Nests.outer hm).nested hn, rfl⟩
  · rintro ⟨depth, hdepth, m, hm, rfl⟩
    cases hm with
    | outer hm => exact ⟨m, hm, List.mem_cons_self⟩
    | nested h hn =>
      cases h with
      | outer hm => exact ⟨_, hm, List.mem_cons_of_mem _ (List.mem_map_of_mem hn)⟩
      | nested h hn => omega

end MessageFile

/-! ## Names of headers -/

/-- The name behind the last slash. -/
theorem pathFilename_append (folder : Bytes) {filename : Bytes} (h : 47 ∉ filename) :
    pathFilename (folder ++ ascii "/" ++ filename) = filename := by
  have hall : ∀ c ∈ filename.reverse, (c != 47) = true := by
    intro c hc
    rw [bne_iff_ne]
    rintro rfl
    exact h (List.mem_reverse.mp hc)
  rw [pathFilename, List.reverse_append, List.reverse_append, List.takeWhile_append_of_pos hall]
  simp [ascii]

/-- The folder before it. -/
theorem pathParent_append (folder : Bytes) {filename : Bytes} (h : 47 ∉ filename) :
    pathParent (folder ++ ascii "/" ++ filename) = folder := by
  have hall : ∀ c ∈ filename.reverse, (c != 47) = true := by
    intro c hc
    rw [bne_iff_ne]
    rintro rfl
    exact h (List.mem_reverse.mp hc)
  rw [pathParent, List.reverse_append, List.reverse_append, List.dropWhile_append_of_pos hall]
  simp [ascii]

/-- A character that no value and no separator has is not in what they are joined to. -/
theorem not_mem_join {c : UInt8} {separator : Bytes} {values : List Bytes} (hseparator : c ∉ separator)
    (h : ∀ value ∈ values, c ∉ value) : c ∉ join separator values := by
  induction values with
  | nil => exact List.not_mem_nil
  | cons value values ih =>
    obtain ⟨hvalue, hvalues⟩ := List.forall_mem_cons.mp h
    cases values with
    | nil => exact hvalue
    | cons next values =>
      rw [join_cons_cons, List.mem_append, List.mem_append, not_or, not_or]
      exact ⟨⟨hvalue, hseparator⟩, ih hvalues⟩

/-- No package has a slash in its name. -/
theorem FileDescriptor.slash_not_mem_packageName (file : FileDescriptor) : 47 ∉ file.packageName := by
  apply not_mem_join (by decide)
  intro value hvalue
  obtain ⟨name, -, rfl⟩ := List.mem_map.mp hvalue
  exact name.not_mem_text (by decide)

/-- The header of a class lies in the folder of its package. -/
theorem classHeader_parent (t : TypeDescriptor) : pathParent (classHeader t) = t.file.packageName :=
  pathParent_append _ (t.name.not_mem_text (by decide))

/-- It has the name of the message. -/
theorem classHeader_filename (t : TypeDescriptor) : pathFilename (classHeader t) = t.name.text :=
  pathFilename_append _ (t.name.not_mem_text (by decide))

/-- A lower-case letter is no slash. -/
theorem toAsciiLower_ne_slash (c : UInt8) (h : c ≠ 47) : toAsciiLower c ≠ 47 :=
  forall_byte (P := fun c => c ≠ 47 → toAsciiLower c ≠ 47) (by decide +kernel) c h

/-- The header of a module is a file in a folder. -/
theorem moduleHeader_eq (package : Bytes) : moduleHeader package =
    (ascii "QtProtobuf" ++ package ++ ascii "Types") ++ ascii "/" ++
      (ascii "qtprotobuf" ++ package.map toAsciiLower ++ ascii "types.h") := by
  simp [moduleHeader, ascii]

/-- Its name has no slash. -/
theorem slash_not_mem_moduleFilename {package : Bytes} (h : 47 ∉ package) :
    47 ∉ ascii "qtprotobuf" ++ package.map toAsciiLower ++ ascii "types.h" := by
  simp only [List.mem_append, not_or]
  refine ⟨⟨by decide, ?_⟩, by decide⟩
  intro hmem
  obtain ⟨c, hc, hslash⟩ := List.mem_map.mp hmem
  exact toAsciiLower_ne_slash c (fun heq => h (heq ▸ hc)) hslash

/-- The folder of the header of a module. -/
theorem moduleHeader_parent {package : Bytes} (h : 47 ∉ package) :
    pathParent (moduleHeader package) = ascii "QtProtobuf" ++ package ++ ascii "Types" := by
  rw [moduleHeader_eq]
  exact pathParent_append _ (slash_not_mem_moduleFilename h)

/-- Its name. -/
theorem moduleHeader_filename {package : Bytes} (h : 47 ∉ package) :
    pathFilename (moduleHeader package) =
      ascii "qtprotobuf" ++ package.map toAsciiLower ++ ascii "types.h" := by
  rw [moduleHeader_eq]
  exact pathFilename_append _ (slash_not_mem_moduleFilename h)

/-- The header of a class tells its package and its name. -/
theorem classHeader_eq_iff {t u : TypeDescriptor} : classHeader t = classHeader u ↔
    t.file.packageName = u.file.packageName ∧ t.name.text = u.name.text := by
  constructor
  · intro h
    rw [← classHeader_parent t, ← classHeader_parent u, ← classHeader_filename t,
      ← classHeader_filename u, h]
    exact ⟨rfl, rfl⟩
  · rintro ⟨hpackage, hname⟩
    rw [classHeader, classHeader, hpackage, hname]

/-- Different packages have different headers. -/
theorem moduleHeader_inj {package other : Bytes} (h : 47 ∉ package) (hother : 47 ∉ other) :
    moduleHeader package = moduleHeader other ↔ package = other := by
  constructor
  · intro heq
    have hparent := congrArg pathParent heq
    rw [moduleHeader_parent h, moduleHeader_parent hother] at hparent
    exact List.append_cancel_left (List.append_cancel_right hparent)
  · rintro rfl
    rfl

/-- The file name of a header with an extension is no name of a class. -/
theorem classHeader_ne_of_dot {header : Bytes} (h : 46 ∈ pathFilename header) (t : TypeDescriptor) :
    classHeader t ≠ header := by
  rintro rfl
  rw [classHeader_filename] at h
  exact t.name.text_component.2.2 h

/-- The folder of the header of a module is named after it. -/
theorem moduleHeader_ne_of_folder {header package : Bytes} (hpackage : 47 ∉ package)
    (h : (ascii "Types").isSuffixOf (pathParent header) = false) : moduleHeader package ≠ header := by
  rintro rfl
  rw [moduleHeader_parent hpackage, Bool.eq_false_iff, ne_eq, List.isSuffixOf_iff_suffix] at h
  exact h (List.suffix_append _ _)

/-- The folders and the file names of the headers that stand for no class or module. -/
theorem headers_parts :
    pathParent oneofHeader = ascii "QtProtobuf" ∧
    pathFilename oneofHeader = ascii "qprotobufoneof.h" ∧
    pathParent (ascii "QtCore/QDateTime") = ascii "QtCore" ∧
    pathFilename (ascii "QtCore/QDateTime") = ascii "QDateTime" ∧
    pathParent anySupportHeader = ascii "QtProtobufWellKnownTypes" ∧
    pathFilename anySupportHeader = ascii "qprotobufanysupport.h" := by decide +kernel

/-- The header for oneofs has an extension. -/
theorem dot_mem_oneofHeader : 46 ∈ pathFilename oneofHeader := by
  rw [headers_parts.2.1]
  decide

/-- So has the one for `Any`. -/
theorem dot_mem_anySupportHeader : 46 ∈ pathFilename anySupportHeader := by
  rw [headers_parts.2.2.2.2.2]
  decide

/-- It is not the header of a module. -/
theorem moduleHeader_ne_anySupport {package : Bytes} (hpackage : 47 ∉ package) :
    moduleHeader package ≠ anySupportHeader := by
  intro h
  have hfilename := congrArg pathFilename h
  rw [moduleHeader_filename hpackage] at hfilename
  rw [headers_parts.2.2.2.2.2] at hfilename
  simp [ascii] at hfilename

/-- The headers of every file are none of a oneof, a class or a module. -/
theorem fixedIncludes_apart (options : Options) : ∀ header ∈ fixedIncludes options,
    header ≠ oneofHeader ∧ 46 ∈ pathFilename header ∧
      (ascii "Types").isSuffixOf (pathParent header) = false := by
  rw [fixedIncludes]
  cases options.hasQml <;> decide +kernel

/-! ## Completeness -/

/-- A singular field of the message is of this Qt type. -/
def Descriptor.UsesQtType (d : Descriptor) (t : TypeDescriptor) : Prop :=
  ∃ f ∈ d.generatedFields, f.isSingularQtType = true ∧ f.messageType = some t

/-- The message has an optional field. -/
def Descriptor.HasOptional (options : Options) (d : Descriptor) : Prop :=
  ∃ f ∈ d.generatedFields, f.isOptionalField options = true

/-- The include sets hold what the class of a message needs. -/
structure HeaderContents.Provides (options : Options) (header : HeaderContents) (d : Descriptor) :
    Prop where
  oneof : d.generatedOneofs options ≠ [] → oneofHeader ∈ header.externalIncludes
  optional : d.HasOptional options → ascii "optional" ∈ header.systemIncludes
  qtType : ∀ t, d.UsesQtType t → classHeader t ∈ header.externalIncludes ∧
    moduleHeader t.file.packageName ∈ header.externalIncludes

/-- A message outside of messages or directly in such a one. -/
def MessageFile.Shallow (file : MessageFile) (d : Descriptor) : Prop :=
  ∃ depth ≤ 1, ∃ m, file.Nests depth m ∧ m.descriptor = d

/-- Some message at the first two levels needs what a message needs, each time. The timestamp has a
header of its own that is the one of `QDateTime`. -/
structure MessageFile.Covers (options : Options) (file : MessageFile) (d : Descriptor) : Prop where
  oneof : d.generatedOneofs options ≠ [] → ∃ m, file.Shallow m ∧ m.oneofs ≠ []
  optional : d.HasOptional options → ∃ m, file.Shallow m ∧ m.HasOptional options
  qtClass : ∀ t, d.UsesQtType t → ∃ m, file.Shallow m ∧
    ((∃ u, m.UsesQtType u ∧ t.file.packageName = u.file.packageName ∧ t.name.text = u.name.text) ∨
      (t.file.packageName = ascii "QtCore" ∧ t.name.text = ascii "QDateTime") ∧
        m.type.fullName = ascii "google.protobuf.Timestamp")
  qtModule : ∀ t, d.UsesQtType t → ∃ m, file.Shallow m ∧
    ∃ u, m.UsesQtType u ∧ t.file.packageName = u.file.packageName

/-- The Qt types of a class are those its fields have. -/
theorem mem_qtTypes {d : Descriptor} {t : TypeDescriptor} : t ∈ d.qtTypes ↔ d.UsesQtType t := by
  simp [Descriptor.qtTypes, Descriptor.UsesQtType, and_assoc]

/-- What is in a list of one under a condition. -/
theorem mem_ite_singleton {p : Prop} [Decidable p] {header x : Bytes} :
    header ∈ (if p then [x] else []) ↔ p ∧ header = x := by
  split <;> simp [*]

/-- The headers a class needs beside those of messages. -/
theorem mem_externalIncludes {d : Descriptor} {header : Bytes} : header ∈ d.externalIncludes ↔
    (d.oneofs ≠ [] ∧ header = oneofHeader) ∨
    (d.type.fullName = ascii "google.protobuf.Timestamp" ∧ header = ascii "QtCore/QDateTime") ∨
    (d.type.fullName = ascii "google.protobuf.Any" ∧ header = anySupportHeader) ∨
    ∃ t, d.UsesQtType t ∧ header = classHeader t := by
  have hclasses : header ∈ d.qtTypes.map classHeader ↔ ∃ t, d.UsesQtType t ∧ header = classHeader t := by
    simp only [List.mem_map, mem_qtTypes, eq_comm]
  have honeof : header ∈ (if d.oneofs.isEmpty then [] else [oneofHeader]) ↔
      d.oneofs ≠ [] ∧ header = oneofHeader := by
    cases d.oneofs <;> simp
  rw [Descriptor.externalIncludes, List.mem_append, List.mem_append, List.mem_append, hclasses, honeof,
    mem_ite_singleton, mem_ite_singleton, or_assoc, or_assoc]

section

variable {options : MessageOptions} {file : MessageFile} {contents : HeaderContents}

/-- What the external include set consists of. -/
theorem mem_contents_external (h : generateHeader options file = .ok contents) {header : Bytes} :
    header ∈ contents.externalIncludes ↔ header ∈ fixedIncludes options.toOptions ∨
      (∃ d, file.Shallow d ∧ header ∈ d.externalIncludes) ∨
      (∃ d, file.Shallow d ∧ ∃ t, d.UsesQtType t ∧ header = moduleHeader t.file.packageName) ∨
      file.dependencies.contains (ascii "google/protobuf/any.proto") = true ∧
        header = anySupportHeader := by
  have hhandled : ∀ d, d ∈ file.handledMessages ↔ file.Shallow d :=
    fun d => MessageFile.mem_handledMessages
  rw [generateHeader] at h
  split at h
  · cases h
  · injection h with h
    subst h
    simp only [List.mem_append, mem_ite_singleton, List.mem_flatMap, List.mem_map, hhandled, mem_qtTypes, or_assoc]
    refine or_congr_right (or_congr_right (or_congr_left ?_))
    constructor
    · rintro ⟨package, ⟨d, hd, t, ht, rfl⟩, rfl⟩
      exact ⟨d, hd, t, ht, rfl⟩
    · rintro ⟨d, hd, t, ht, rfl⟩
      exact ⟨_, ⟨d, hd, t, ht, rfl⟩, rfl⟩

/-- `optional` is included for the fields of the messages that are looked at. -/
theorem mem_contents_system (h : generateHeader options file = .ok contents) :
    ascii "optional" ∈ contents.systemIncludes ↔
      ∃ d, file.Shallow d ∧ d.HasOptional options.toOptions := by
  rw [generateHeader] at h
  split at h
  · cases h
  · injection h with h
    subst h
    simp only [List.mem_flatMap]
    refine exists_congr fun d => and_congr MessageFile.mem_handledMessages ?_
    rw [Descriptor.systemIncludes, Descriptor.HasOptional, ← List.any_eq_true]
    split <;> simp [*]

/-- The header declares the messages of the file at any depth. -/
theorem mem_contents_classes (h : generateHeader options file = .ok contents) {d : Descriptor} :
    d ∈ contents.classes ↔ ∃ depth m, file.Nests depth m ∧ m.descriptor = d := by
  rw [generateHeader] at h
  split at h
  · cases h
  · injection h with h
    subst h
    exact MessageFile.mem_printed

/-- The header of a module has an extension. -/
theorem dot_mem_moduleFilename (t : TypeDescriptor) :
    46 ∈ pathFilename (moduleHeader t.file.packageName) := by
  rw [moduleHeader_filename t.file.slash_not_mem_packageName]
  exact List.mem_append_right _ (by decide)

/-- The header of the oneofs is included for no other reason. -/
theorem oneofHeader_mem_iff (h : generateHeader options file = .ok contents) :
    oneofHeader ∈ contents.externalIncludes ↔ ∃ d, file.Shallow d ∧ d.oneofs ≠ [] := by
  rw [mem_contents_external h]
  constructor
  · rintro (hfixed | ⟨d, hd, hmem⟩ | ⟨d, hd, t, ht, heq⟩ | ⟨-, hany⟩)
    · exact absurd rfl (fixedIncludes_apart _ _ hfixed).1
    · rcases mem_externalIncludes.mp hmem with ⟨honeof, -⟩ | ⟨-, heq⟩ | ⟨-, heq⟩ | ⟨t, -, heq⟩
      · exact ⟨d, hd, honeof⟩
      · exact absurd heq (by decide)
      · exact absurd heq (by decide)
      · exact absurd heq.symm (classHeader_ne_of_dot dot_mem_oneofHeader t)
    · refine absurd heq.symm (moduleHeader_ne_of_folder t.file.slash_not_mem_packageName ?_)
      rw [headers_parts.1]
      decide
    · exact absurd hany (by decide)
  · rintro ⟨d, hd, honeof⟩
    exact Or.inr (Or.inl ⟨d, hd, mem_externalIncludes.mpr (Or.inl ⟨honeof, rfl⟩)⟩)

/-- The header of a class is included if a field is of this class, or for a timestamp. -/
theorem classHeader_mem_iff (h : generateHeader options file = .ok contents) (t : TypeDescriptor) :
    classHeader t ∈ contents.externalIncludes ↔ ∃ m, file.Shallow m ∧
      ((∃ u, m.UsesQtType u ∧ t.file.packageName = u.file.packageName ∧ t.name.text = u.name.text) ∨
        (t.file.packageName = ascii "QtCore" ∧ t.name.text = ascii "QDateTime") ∧
          m.type.fullName = ascii "google.protobuf.Timestamp") := by
  have hdot : ∀ {header : Bytes}, 46 ∈ pathFilename header → classHeader t ≠ header :=
    fun hmem => classHeader_ne_of_dot hmem t
  rw [mem_contents_external h]
  constructor
  · rintro (hfixed | ⟨d, hd, hmem⟩ | ⟨d, hd, u, hu, heq⟩ | ⟨-, hany⟩)
    · exact absurd rfl (hdot (fixedIncludes_apart _ _ hfixed).2.1)
    · refine ⟨d, hd, ?_⟩
      rcases mem_externalIncludes.mp hmem with ⟨-, heq⟩ | ⟨htimestamp, heq⟩ | ⟨-, heq⟩ | ⟨u, hu, heq⟩
      · exact absurd heq (hdot dot_mem_oneofHeader)
      · refine Or.inr ⟨⟨?_, ?_⟩, htimestamp⟩
        · rw [← classHeader_parent, heq]
          exact headers_parts.2.2.1
        · rw [← classHeader_filename, heq]
          exact headers_parts.2.2.2.1
      · exact absurd heq (hdot dot_mem_anySupportHeader)
      · exact Or.inl ⟨u, hu, classHeader_eq_iff.mp heq⟩
    · exact absurd heq (hdot (dot_mem_moduleFilename u))
    · exact absurd hany (hdot dot_mem_anySupportHeader)
  · rintro ⟨d, hd, ⟨u, hu, heq⟩ | ⟨⟨hpackage, hname⟩, htimestamp⟩⟩
    · refine Or.inr (Or.inl ⟨d, hd, mem_externalIncludes.mpr ?_⟩)
      exact Or.inr (Or.inr (Or.inr ⟨u, hu, classHeader_eq_iff.mpr heq⟩))
    · refine Or.inr (Or.inl ⟨d, hd, mem_externalIncludes.mpr (Or.inr (Or.inl ⟨htimestamp, ?_⟩))⟩)
      rw [classHeader, hpackage, hname]
      rfl

/-- The header of a module is included if a field is of one of its classes. -/
theorem moduleHeader_mem_iff (h : generateHeader options file = .ok contents) (t : TypeDescriptor) :
    moduleHeader t.file.packageName ∈ contents.externalIncludes ↔ ∃ m, file.Shallow m ∧
      ∃ u, m.UsesQtType u ∧ t.file.packageName = u.file.packageName := by
  have hpackage := t.file.slash_not_mem_packageName
  have hfolder : ∀ {header : Bytes}, (ascii "Types").isSuffixOf (pathParent header) = false →
      moduleHeader t.file.packageName ≠ header := fun hheader => moduleHeader_ne_of_folder hpackage hheader
  rw [mem_contents_external h]
  constructor
  · rintro (hfixed | ⟨d, hd, hmem⟩ | ⟨d, hd, u, hu, heq⟩ | ⟨-, hany⟩)
    · exact absurd rfl (hfolder (fixedIncludes_apart _ _ hfixed).2.2)
    · rcases mem_externalIncludes.mp hmem with ⟨-, heq⟩ | ⟨-, heq⟩ | ⟨-, heq⟩ | ⟨u, -, heq⟩
      · exact absurd heq (hfolder (by rw [headers_parts.1]; decide))
      · exact absurd heq (hfolder (by rw [headers_parts.2.2.1]; decide))
      · exact absurd heq (moduleHeader_ne_anySupport hpackage)
      · exact absurd heq.symm (classHeader_ne_of_dot (dot_mem_moduleFilename t) u)
    · exact ⟨d, hd, u, hu, (moduleHeader_inj hpackage u.file.slash_not_mem_packageName).mp heq⟩
    · exact absurd hany (moduleHeader_ne_anySupport hpackage)
  · rintro ⟨d, hd, u, hu, heq⟩
    rw [heq]
    exact Or.inr (Or.inr (Or.inl ⟨d, hd, u, hu, rfl⟩))

/-- A header provides what a class needs exactly if its fields are covered. -/
theorem provides_iff_covers (h : generateHeader options file = .ok contents) (d : Descriptor) :
    contents.Provides options.toOptions d ↔ file.Covers options.toOptions d := by
  constructor
  · intro hprovides
    exact ⟨fun hd => (oneofHeader_mem_iff h).mp (hprovides.oneof hd),
      fun hd => (mem_contents_system h).mp (hprovides.optional hd),
      fun t ht => (classHeader_mem_iff h t).mp (hprovides.qtType t ht).1,
      fun t ht => (moduleHeader_mem_iff h t).mp (hprovides.qtType t ht).2⟩
  · intro hcovers
    exact ⟨fun hd => (oneofHeader_mem_iff h).mpr (hcovers.oneof hd),
      fun hd => (mem_contents_system h).mpr (hcovers.optional hd),
      fun t ht => ⟨(classHeader_mem_iff h t).mpr (hcovers.qtClass t ht),
        (moduleHeader_mem_iff h t).mpr (hcovers.qtModule t ht)⟩⟩

/-- A message at the first two levels covers itself. -/
theorem MessageFile.Shallow.covers {options : Options} {d : Descriptor} (h : file.Shallow d) :
    file.Covers options d where
  oneof honeof := ⟨d, h, fun hnil => honeof (by simp [Descriptor.generatedOneofs, hnil])⟩
  optional hoptional := ⟨d, h, hoptional⟩
  qtClass t ht := ⟨d, h, Or.inl ⟨t, ht, rfl, rfl⟩⟩
  qtModule t ht := ⟨d, h, t, ht, rfl⟩

/-- The include sets provide what every generated class needs exactly if what a message needs that
is nested in a nested one is needed at the first two levels too. -/
theorem includes_provide_iff (h : generateHeader options file = .ok contents) :
    (∀ d ∈ contents.classes, contents.Provides options.toOptions d) ↔
      ∀ depth m, file.Nests depth m → 2 ≤ depth → file.Covers options.toOptions m.descriptor := by
  constructor
  · intro hprovides depth m hm _
    exact (provides_iff_covers h _).mp
      (hprovides _ ((mem_contents_classes h).mpr ⟨depth, m, hm, rfl⟩))
  · intro hcovers d hd
    obtain ⟨depth, m, hm, rfl⟩ := (mem_contents_classes h).mp hd
    apply (provides_iff_covers h _).mpr
    by_cases hdepth : 2 ≤ depth
    · exact hcovers depth m hm hdepth
    · exact MessageFile.Shallow.covers ⟨depth, by omega, m, hm, rfl⟩

end

/-! ## An example -/

/-- `QtCore.QUrl`. -/
def urlType : TypeDescriptor where
  file :=
    { name := ascii "QtCore/QtCore.proto", package := [⟨ascii "QtCore", by decide, by decide, by decide⟩] }
  name := ⟨ascii "QUrl", by decide, by decide, by decide⟩

/-- The name of the message between the others. -/
def middleName : Identifier := ⟨ascii "Middle", by decide, by decide, by decide⟩

/-- `pkg.Sample.Middle.Inner`, with an optional field, a member of a oneof and one of type `QUrl`. -/
def innerDescriptor : Descriptor where
  type :=
    { file := sampleFile, containing := [sampleType.name, middleName]
      name := ⟨ascii "Inner", by decide, by decide, by decide⟩ }
  fields := [
    { sampleField ⟨ascii "count", by decide, by decide, by decide⟩ 1 .int64 with hasPresence := true },
    { sampleField ⟨ascii "choice_text", by decide, by decide, by decide⟩ 2 .string with
      containingOneof := some sampleOneof },
    { sampleField ⟨ascii "url", by decide, by decide, by decide⟩ 3 .message with
      messageType := some urlType }]
  oneofs := [sampleOneof]
  numbers_nodup := by decide
  numbers_bound := by decide

/-- A message of a type without fields. -/
def emptyDescriptor (type : TypeDescriptor) : Descriptor where
  type
  fields := []
  numbers_nodup := List.nodup_nil
  numbers_bound _ hf := absurd hf List.not_mem_nil

/-- The same message in the outermost one. -/
def besideDescriptor : Descriptor :=
  { innerDescriptor with
    type :=
      { file := sampleFile, containing := [sampleType.name]
        name := ⟨ascii "Inner", by decide, by decide, by decide⟩ } }

/-- Two messages, one in the other. -/
def shallowFile : MessageFile where
  file := sampleFile
  messages := [.node (emptyDescriptor sampleType) 0 [.node besideDescriptor 0 []]]

/-- No message of the file is nested in a nested one. -/
theorem shallowFile_nests {depth : Nat} {m : MessageNode} (h : shallowFile.Nests depth m) :
    depth = 0 ∧ m = .node (emptyDescriptor sampleType) 0 [.node besideDescriptor 0 []] ∨
      depth = 1 ∧ m = .node besideDescriptor 0 [] := by
  induction h with
  | outer h => exact .inl ⟨rfl, List.mem_singleton.mp h⟩
  | nested h hn ih =>
    rcases ih with ⟨rfl, rfl⟩ | ⟨rfl, rfl⟩
    · exact .inr ⟨rfl, List.mem_singleton.mp hn⟩
    · cases hn

/-- Everything that the class of a message in the outermost one needs is included. -/
theorem includes_provide_sample : ∃ contents, generateHeader {} shallowFile = .ok contents ∧
    besideDescriptor ∈ contents.classes ∧ ∀ d ∈ contents.classes, contents.Provides {} d := by
  refine ⟨_, rfl, .tail _ (.head _),
    (@includes_provide_iff {} shallowFile _ rfl).mpr fun depth m hnests hdepth => ?_⟩
  have hshallow := shallowFile_nests hnests
  omega

/-- Three messages, one in the other. -/
def nestedFile : MessageFile where
  file := sampleFile
  messages := [.node (emptyDescriptor sampleType) 0
    [.node (emptyDescriptor { file := sampleFile, containing := [sampleType.name], name := middleName })
      0 [.node innerDescriptor 0 []]]]

/-- The class of the innermost message is printed, and nothing that it needs is included. -/
theorem nestedFile_lacks : ∃ contents, generateHeader {} nestedFile = .ok contents ∧
    innerDescriptor ∈ contents.classes ∧
    innerDescriptor.generatedOneofs {} ≠ [] ∧ oneofHeader ∉ contents.externalIncludes ∧
    innerDescriptor.HasOptional {} ∧ ascii "optional" ∉ contents.systemIncludes ∧
    innerDescriptor.UsesQtType urlType ∧ classHeader urlType ∉ contents.externalIncludes ∧
    moduleHeader (ascii "QtCore") ∉ contents.externalIncludes ∧
    ¬ ∀ d ∈ contents.classes, contents.Provides {} d := by
  have hclass : ∀ contents, generateHeader {} nestedFile = .ok contents →
      innerDescriptor ∈ contents.classes := by
    intro contents h
    refine (mem_contents_classes h).mpr ⟨2, .node innerDescriptor 0 [], ?_, rfl⟩
    exact ((MessageFile.Nests.outer List.mem_cons_self).nested List.mem_cons_self).nested
      List.mem_cons_self
  have honeof : innerDescriptor.generatedOneofs {} ≠ [] := by decide
  have hnone : ∀ contents, generateHeader {} nestedFile = .ok contents →
      contents.externalIncludes = fixedIncludes {} ∧ contents.systemIncludes = [] := by
    intro contents h
    injection h with h
    subst h
    decide +kernel
  have hfixed : oneofHeader ∉ fixedIncludes {} ∧ classHeader urlType ∉ fixedIncludes {} ∧
      moduleHeader (ascii "QtCore") ∉ fixedIncludes {} := by decide +kernel
  refine ⟨_, rfl, hclass _ rfl, honeof, ?_, ?_, ?_, ?_, ?_, ?_, ?_⟩
  · rw [(hnone _ rfl).1]
    exact hfixed.1
  · exact ⟨_, List.mem_cons_self, by decide⟩
  · rw [(hnone _ rfl).2]
    exact List.not_mem_nil
  · exact ⟨_, List.mem_cons_of_mem _ (List.mem_cons_of_mem _ List.mem_cons_self), by decide, rfl⟩
  · rw [(hnone _ rfl).1]
    exact hfixed.2.1
  · rw [(hnone _ rfl).1]
    exact hfixed.2.2
  · intro hprovides
    have hmem := (hprovides innerDescriptor (hclass _ rfl)).oneof honeof
    rw [(hnone _ rfl).1] at hmem
    exact hfixed.1 hmem

end QtGrpc.Generator
