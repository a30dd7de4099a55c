import Mathlib.Algebra.GroupWithZero.Nat
import QtGrpc.Generator.TypeMap

/-!
# Properties of generated messages

`MessageDeclarationPrinter::printProperties` declares one or two properties for a field, and
`MessageDefinitionPrinter::printUintData` counts them in a loop of its own. The metadata of a field
names its property by that count, and takes the property behind it for the one that tells whether
the field is set.
-/

namespace QtGrpc.Generator

/-- A `Q_PROPERTY`. -/
structure Property where
  type : Bytes
  name : Bytes
  read : Bytes
  write : Option Bytes
  scriptable : Option Bool
  isFinal : Bool
deriving DecidableEq

namespace Property

variable (isFinal : Bool) (map : PropertyMap)

/-- The setter of a property. -/
def setter (map : PropertyMap) : Bytes := ascii "set" ++ map.propertyNameCap

/-- A property of this type and name that is read by the getter. -/
def ofGetter (type name : Bytes) : Property :=
  { type, name, read := map.propertyName, write := some (setter map),
    scriptable := some map.scriptable, isFinal }

/-- `PropertyTemplate`. -/
def template : Property := ofGetter isFinal map map.propertyType map.propertyName

/-- `PropertyRepeatedTemplate`. -/
def repeatedTemplate : Property := ofGetter isFinal map map.propertyListType map.propertyName

/-- `PropertyRepeatedMessageTemplate`. -/
def repeatedMessageTemplate : Property := ofGetter isFinal map map.propertyListType map.propertyName

/-- `PropertyRepeatedMessageTemplateDeprecated`. -/
def repeatedMessageTemplateDeprecated : Property :=
  ofGetter isFinal map map.propertyListType (map.propertyName ++ ascii "Data")

/-- `PropertyMessageTemplate`: the property of a message is a pointer. -/
def messageTemplate : Property :=
  { type := map.propertyType ++ ascii " *", name := map.propertyName ++ ascii "_p",
    read := map.propertyName ++ ascii "_p", write := some (setter map ++ ascii "_p"),
    scriptable := some false, isFinal }

/-- `PropertyOneofMessageTemplate`. -/
def oneofMessageTemplate : Property := messageTemplate isFinal map

/-- `PropertyOneofTemplate`. -/
def oneofTemplate : Property :=
  { type := map.propertyType, name := map.propertyName, read := map.propertyName ++ ascii "_p",
    write := some (setter map ++ ascii "_p"), scriptable := none, isFinal }

/-- `PropertyHasFieldTemplate`. -/
def hasFieldTemplate : Property :=
  { type := ascii "bool", name := ascii "has" ++ map.propertyNameCap,
    read := ascii "has" ++ map.propertyNameCap, write := none, scriptable := none, isFinal }

/-- `PropertyQmlMessageTemplate`. -/
def qmlMessageTemplate : Property :=
  { type := map.propertyType, name := map.propertyName, read := map.propertyName,
    write := some (setter map), scriptable := none, isFinal }

end Property

variable (options : Options) (d : Descriptor)

/-- What `printProperties` prints for a field. -/
def printFieldProperties (f : FieldDescriptor) : List Property :=
  let map := producePropertyMap options f d.type
  let isFinal := options.finalProperties
  if f.isOneofField options then
    [if f.isPureMessage then Property.oneofMessageTemplate isFinal map
      else Property.oneofTemplate isFinal map,
      Property.hasFieldTemplate isFinal map]
  else if f.isOptionalField options then
    [Property.oneofTemplate isFinal map, Property.hasFieldTemplate isFinal map]
  else if f.isPureMessage then
    [Property.messageTemplate isFinal map, Property.hasFieldTemplate isFinal map]
  else if f.isRepeatedMessage then
    [Property.repeatedMessageTemplate isFinal map,
      Property.repeatedMessageTemplateDeprecated isFinal map]
  else if f.isRepeated && !f.isMap then [Property.repeatedTemplate isFinal map]
  else [Property.template isFinal map]

/-- The properties for QML, behind those of all fields. -/
def printQmlProperties : List Property :=
  if options.hasQml then
    (d.fields.filter (·.isPureMessage)).map fun f =>
      Property.qmlMessageTemplate options.finalProperties (producePropertyMap options f d.type)
  else []

/-- `MessageDeclarationPrinter::printProperties`. -/
def printProperties : List Property :=
  d.generatedFields.flatMap (printFieldProperties options d) ++ printQmlProperties options d

/-- The variables of `printUintData` for a field. -/
structure UintVariables where
  jsonNameOffset : Nat
  fieldNumber : Nat
  propertyIndex : Nat
  fieldFlags : Bytes
  jsonName : Bytes
deriving DecidableEq

/-- The loop of `printUintData` over the fields that are left. -/
def uintVariables : (jsonOffset propertyIndex : Nat) → List FieldDescriptor → List UintVariables
  | _, _, [] => []
  | jsonOffset, propertyIndex, f :: fields =>
    if f.isGroupField then uintVariables jsonOffset propertyIndex fields
    else
      let entry : UintVariables :=
        { jsonNameOffset := jsonOffset, fieldNumber := f.number, propertyIndex,
          fieldFlags := f.collectFieldFlags options,
          jsonName := escapeBlockComment (escapeCString f.jsonName) }
      let next :=
        if f.isOneofField options || f.isOptionalField options || f.isPureMessage ||
          f.isRepeatedMessage then propertyIndex + 1 else propertyIndex
      entry :: uintVariables (jsonOffset + f.jsonName.length + 1) (next + 1) fields

/-- `MessageDefinitionPrinter::metaCharDataSize`. -/
def metaCharDataSize : Nat := d.type.fullName.length

/-- The variables of `MessageDefinitionPrinter::printUintData`. -/
def printUintData : List UintVariables := uintVariables options (metaCharDataSize d + 1) 0 d.fields

/-! ## The count and the properties -/

/-- The first property of a field is that of its pointer, if it is a message, or of its value. -/
def FieldDescriptor.accessName (f : FieldDescriptor) : Bytes :=
  if f.isPureMessage then f.propertyName ++ ascii "_p" else f.propertyName

/-- The variables of a field follow from what is in front of it. -/
theorem uintVariables_getElem? (jsonOffset propertyIndex : Nat) (fields : List FieldDescriptor)
    {i : Nat} {f : FieldDescriptor} (h : (fields.filter fun f => !f.isGroupField)[i]? = some f) :
    (uintVariables options jsonOffset propertyIndex fields)[i]? = some
      { jsonNameOffset := jsonOffset +
          (((fields.filter fun f => !f.isGroupField).take i).map fun f => f.jsonName.length + 1).sum
        fieldNumber := f.number
        propertyIndex := propertyIndex + (((fields.filter fun f => !f.isGroupField).take i).map
          fun f => (printFieldProperties options d f).length).sum
        fieldFlags := f.collectFieldFlags options
        jsonName := escapeBlockComment (escapeCString f.jsonName) } := by
  induction fields generalizing jsonOffset propertyIndex i with
  | nil => simp at h
  | cons g fields ih =>
    rw [uintVariables]
    cases hgroup : g.isGroupField with
    | true =>
      rw [List.filter_cons_of_neg (by simp [hgroup])] at h ⊢
      exact ih jsonOffset propertyIndex h
    | false =>
      rw [List.filter_cons_of_pos (by simp [hgroup])] at h ⊢
      cases i with
      | zero =>
        obtain rfl : g = f := by simpa using h
        simp
      | succ i =>
        have hlength : (printFieldProperties options d g).length =
            if g.isOneofField options || g.isOptionalField options || g.isPureMessage ||
              g.isRepeatedMessage then 2 else 1 := by
          rw [printFieldProperties]
          cases g.isOneofField options <;> cases g.isOptionalField options <;>
            cases g.isPureMessage <;> cases g.isRepeatedMessage <;>
            cases g.isRepeated <;> cases g.isMap <;> rfl
        have hnext := ih (jsonOffset + g.jsonName.length + 1)
          (propertyIndex + (printFieldProperties options d g).length) (by simpa using h)
        have hcount : (if g.isOneofField options || g.isOptionalField options || g.isPureMessage ||
              g.isRepeatedMessage then propertyIndex + 1 else propertyIndex) + 1 =
            propertyIndex + (printFieldProperties options d g).length := by
          rw [hlength]
          split <;> rfl
        simp only [Bool.false_eq_true, if_false, List.getElem?_cons_succ, hcount]
        rw [hnext]
        simp only [List.take_succ_cons, List.map_cons, List.sum_cons, Nat.add_assoc]

/-- There is one entry for each field that is no group. -/
theorem length_uintVariables (jsonOffset propertyIndex : Nat) (fields : List FieldDescriptor) :
    (uintVariables options jsonOffset propertyIndex fields).length =
      (fields.filter fun f => !f.isGroupField).length := by
  induction fields generalizing jsonOffset propertyIndex with
  | nil => rfl
  | cons f fields ih =>
    rw [uintVariables]
    cases h : f.isGroupField with
    | true =>
      rw [List.filter_cons_of_neg (by simp [h])]
      exact ih jsonOffset propertyIndex
    | false =>
      rw [List.filter_cons_of_pos (by simp [h])]
      simp [ih]

/-- The position of the property of a field: behind the properties of the fields in front of it. -/
def propertyPosition (i : Nat) : Nat :=
  ((d.generatedFields.take i).map fun f => (printFieldProperties options d f).length).sum

/-- The offset of the JSON name of a field: behind the names in front of it. -/
def jsonNamePosition (i : Nat) : Nat :=
  metaCharDataSize d + 1 + ((d.generatedFields.take i).map fun f => f.jsonName.length + 1).sum

/-- The variables of a field and its position. -/
def uintEntry (p : FieldDescriptor × Nat) : UintVariables :=
  { jsonNameOffset := jsonNamePosition d p.2
    fieldNumber := p.1.number
    propertyIndex := propertyPosition options d p.2
    fieldFlags := p.1.collectFieldFlags options
    jsonName := escapeBlockComment (escapeCString p.1.jsonName) }

/-- The entry of a generated field stands at its own place. -/
theorem printUintData_getElem? {i : Nat} {f : FieldDescriptor}
    (h : d.generatedFields[i]? = some f) :
    (printUintData options d)[i]? = some (uintEntry options d (f, i)) := by
  have hget := uintVariables_getElem? options d (metaCharDataSize d + 1) 0 d.fields h
  rw [Nat.zero_add] at hget
  exact hget

/-- The loop prints an entry for each field that is generated. -/
theorem printUintData_eq :
    printUintData options d = d.generatedFields.zipIdx.map (uintEntry options d) := by
  apply List.ext_getElem?
  intro i
  rw [List.getElem?_map, List.getElem?_zipIdx]
  cases hf : d.generatedFields[i]? with
  | none =>
    have hlength := List.getElem?_eq_none_iff.mp hf
    rw [List.getElem?_eq_none_iff.mpr]
    · rfl
    · rw [printUintData, length_uintVariables]
      exact hlength
  | some f =>
    rw [printUintData_getElem? options d hf]
    simp

/-- Behind the lists of the elements in front of an element stands its own. -/
theorem getElem?_flatMap_add {A B : Type} (lists : A → List B) (l : List A) {i j : Nat} {a : A}
    {b : B} (h : l[i]? = some a) (hb : (lists a)[j]? = some b) :
    (l.flatMap lists)[((l.take i).map fun a => (lists a).length).sum + j]? = some b := by
  induction l generalizing i with
  | nil => simp at h
  | cons c l ih =>
    rw [List.flatMap_cons]
    cases i with
    | zero =>
      obtain rfl : c = a := by simpa using h
      obtain ⟨hj, -⟩ := List.getElem?_eq_some_iff.mp hb
      rw [List.take_zero, List.map_nil, List.sum_nil, Nat.zero_add, List.getElem?_append_left hj, hb]
    | succ i =>
      rw [List.take_succ_cons, List.map_cons, List.sum_cons, Nat.add_assoc,
        List.getElem?_append_right (by omega), Nat.add_sub_cancel_left, ih (by simpa using h)]

/-- A field whose flags tell of explicit presence is a oneof member, optional or a message. -/
theorem explicitPresence_mem_writtenFlags (f : FieldDescriptor) :
    FieldFlag.explicitPresence ∈ f.writtenFlags options ↔ f.hasExplicitPresence options := by
  simp [FieldDescriptor.writtenFlags]

/-- No message field counts as optional. -/
theorem isPureMessage_eq_false {f : FieldDescriptor} (h : f.isOptionalField options) :
    f.isPureMessage = false := by
  have htype : (f.type != .message) = true := (Bool.and_eq_true_iff.mp h).1
  have hne : (f.type == .message) = false := by simpa using htype
  simp [FieldDescriptor.isPureMessage, hne]

/-- The properties of a field begin with that of its value. -/
theorem printFieldProperties_zero (f : FieldDescriptor) :
    (printFieldProperties options d f)[0]?.map (·.name) = some f.accessName := by
  rw [printFieldProperties, FieldDescriptor.accessName]
  cases honeof : f.isOneofField options with
  | true => cases f.isPureMessage <;> rfl
  | false =>
    cases hoptional : f.isOptionalField options with
    | true =>
      rw [isPureMessage_eq_false options hoptional]
      rfl
    | false =>
      cases f.isPureMessage <;> cases f.isRepeatedMessage <;> cases f.isRepeated <;>
        cases f.isMap <;> rfl

/-- The second property of a field with explicit presence tells whether it is set. -/
theorem printFieldProperties_one {f : FieldDescriptor} (h : f.hasExplicitPresence options) :
    (printFieldProperties options d f)[1]? = some
      (Property.hasFieldTemplate options.finalProperties (producePropertyMap options f d.type)) := by
  rw [printFieldProperties]
  rw [FieldDescriptor.hasExplicitPresence] at h
  cases honeof : f.isOneofField options with
  | true => rfl
  | false =>
    cases hoptional : f.isOptionalField options with
    | true => rfl
    | false =>
      cases hpure : f.isPureMessage with
      | true => rfl
      | false => simp [honeof, hoptional, hpure] at h

/-- The properties of a field stand behind those of the fields in front of it. -/
theorem printProperties_getElem? {i j : Nat} {f : FieldDescriptor} {p : Property}
    (h : d.generatedFields[i]? = some f) (hp : (printFieldProperties options d f)[j]? = some p) :
    (printProperties options d)[propertyPosition options d i + j]? = some p := by
  have hget := getElem?_flatMap_add (printFieldProperties options d) d.generatedFields h hp
  obtain ⟨hlt, -⟩ := List.getElem?_eq_some_iff.mp hget
  rw [printProperties, propertyPosition, List.getElem?_append_left hlt, hget]

/-- The property index of a field is the position of its property, and the one that tells whether
it is set stands behind it. -/
theorem propertyIndex_eq_position {i : Nat} {f : FieldDescriptor}
    (h : d.generatedFields[i]? = some f) : ∃ entry, (printUintData options d)[i]? = some entry ∧
      entry.fieldNumber = f.number ∧
      (printProperties options d)[entry.propertyIndex]?.map (·.name) = some f.accessName ∧
      (FieldFlag.explicitPresence ∈ f.writtenFlags options →
        (printProperties options d)[entry.propertyIndex + 1]? = some
          (Property.hasFieldTemplate options.finalProperties
            (producePropertyMap options f d.type))) := by
  refine ⟨_, printUintData_getElem? options d h, rfl, ?_, ?_⟩
  · obtain ⟨p, hp, hname⟩ := Option.map_eq_some_iff.mp (printFieldProperties_zero options d f)
    have hget := printProperties_getElem? options d h hp
    rw [Nat.add_zero] at hget
    exact Option.map_eq_some_iff.mpr ⟨p, hget, hname⟩
  · intro hflag
    have hpresence := (explicitPresence_mem_writtenFlags options f).mp hflag
    exact printProperties_getElem? options d h (printFieldProperties_one options d hpresence)

/-! ## An example -/

def samplePackage : Identifier := ⟨ascii "pkg", by decide, by decide, by decide⟩

def sampleFile : FileDescriptor := { name := ascii "sample.proto", package := [samplePackage] }

def sampleType : TypeDescriptor :=
  { file := sampleFile, name := ⟨ascii "Sample", by decide, by decide, by decide⟩ }

/-- A field of the message `pkg.Sample`. -/
def sampleField (name : Identifier) (number : Nat) (type : FieldType) : FieldDescriptor :=
  { file := sampleFile, name, camelcaseName := name.text, jsonName := name.text, number, type,
    messageType := if type = .message then some sampleType else none }

def sampleName : Identifier := ⟨ascii "a", by decide, by decide, by decide⟩

def sampleOneof : OneofDescriptor := { name := ⟨ascii "choice", by decide, by decide, by decide⟩ }

/-- A repeated message, a group, a member of a oneof and an optional field. -/
def sampleDescriptor : Descriptor where
  type := sampleType
  fields := [
    { sampleField sampleName 5 .message with label := .repeated },
    sampleField ⟨ascii "b", by decide, by decide, by decide⟩ 6 .group,
    { sampleField ⟨ascii "c", by decide, by decide, by decide⟩ 1 .message with
      containingOneof := some sampleOneof },
    { sampleField ⟨ascii "d", by decide, by decide, by decide⟩ 2 .int64 with hasPresence := true }]
  oneofs := [sampleOneof]
  numbers_nodup := by decide
  numbers_bound := by decide

/-- In the sample the entry leads to the field's property, with the presence behind it. -/
theorem propertyIndex_eq_position_sample : ∃ entry,
    (printUintData {} sampleDescriptor)[2]? = some entry ∧ entry.fieldNumber = 2 ∧
      (printProperties {} sampleDescriptor)[entry.propertyIndex]?.map (·.name) = some (ascii "d") ∧
      (printProperties {} sampleDescriptor)[entry.propertyIndex + 1]?.map (·.name) =
        some (ascii "hasD") := by
  obtain ⟨entry, hentry, hnumber, hname, hhas⟩ :=
    propertyIndex_eq_position {} sampleDescriptor (i := 2) rfl
  refine ⟨entry, hentry, hnumber, hname.trans (by decide), ?_⟩
  rw [hhas (by decide)]
  decide

end QtGrpc.Generator
