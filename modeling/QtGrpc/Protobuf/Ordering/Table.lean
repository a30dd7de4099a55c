import QtGrpc.Bytes
import QtGrpc.Library.Memory
import Mathlib.Data.List.Nodup

/-!
# Property ordering tables

`QProtobufPropertyOrdering`: what the serializers know of a message type lies in one block of
memory. Behind a header stand four columns of unsigned integers, for the offset of each field's
JSON name, its number, its property index and its flags; the first column has one entry more.
Behind the columns stand the characters of the names, each name followed by a NUL.
-/

namespace QtGrpc.Protobuf.Ordering

/-- `QProtobufPropertyOrdering::Data`. -/
structure Data where
  version : BitVec 32
  numFields : BitVec 32
  fieldNumberOffset : BitVec 32
  propertyIndexOffset : BitVec 32
  flagsOffset : BitVec 32
  fullPackageNameSize : BitVec 32
deriving DecidableEq

/-- `sizeof(Data)`. -/
def sizeofData : Nat := 24

/-- A table: its header and the memory of its block, by the distance from the header. -/
structure QProtobufPropertyOrdering where
  data : Data
  memory : Memory

/-- What a table says of one field. -/
structure FieldDefinition where
  jsonName : Bytes
  fieldNumber : BitVec 32
  propertyIndex : BitVec 32
  flags : BitVec 32
deriving DecidableEq

/-- `ProtobufFieldNumMin`. -/
def fieldNumMin : Nat := 1

/-- `ProtobufFieldNumMax`. -/
def fieldNumMax : Nat := 536870911

/-- `ProtobufFieldMaxCount`. -/
def fieldMaxCount : Nat := fieldNumMax - fieldNumMin + 1

/-- `NullTerminator`. -/
def nullTerminator : Nat := 1

/-- `jsonNameOffsetsOffset`. -/
def jsonNameOffsetsOffset : BitVec 32 := 0

namespace QProtobufPropertyOrdering

variable (t : QProtobufPropertyOrdering)

def fieldCount : Int := t.data.numFields.toInt

/-- `uint_data`: where the columns begin. -/
def uintData : Nat := sizeofData

/-- `char_data`: where the characters begin. -/
def charData : Nat := uintData + 4 * (t.data.flagsOffset + t.data.numFields).toNat

/-- `uint_dataForIndex`. -/
def uintDataForIndex (index : Int) (offset : BitVec 32) : BitVec 32 :=
  t.memory.readWord (uintData + 4 * (offset.toNat + index.toNat))

def messageFullName : Bytes := t.memory.read t.charData t.data.fullPackageNameSize.toNat

/-- An index for which there is no field. -/
def isOutOfBounds (index : Int) : Bool := decide (index < 0 ∨ index ≥ t.fieldCount)

def jsonName (index : Int) : Bytes :=
  if t.isOutOfBounds index then []
  else
    let stringOffset := t.uintDataForIndex index jsonNameOffsetsOffset
    let nameLength := t.uintDataForIndex (index + 1) jsonNameOffsetsOffset -
      BitVec.ofNat 32 nullTerminator - stringOffset
    t.memory.read (t.charData + stringOffset.toNat) nameLength.toNat

/-- An entry of a column that an `int` can hold. -/
def intForIndex (index : Int) (offset : BitVec 32) : Int :=
  if t.isOutOfBounds index then -1
  else
    let value := t.uintDataForIndex index offset
    if value.toNat > 2 ^ 31 - 1 then -1 else value.toNat

def fieldNumber (index : Int) : Int := t.intForIndex index t.data.fieldNumberOffset

def propertyIndex (index : Int) : Int := t.intForIndex index t.data.propertyIndexOffset

def fieldFlags (index : Int) : BitVec 32 :=
  if t.isOutOfBounds index then 0 else t.uintDataForIndex index t.data.flagsOffset

def indexOfFieldNumber (fieldNumber : Int) : Int :=
  if fieldNumber > 0 then
    match (List.range t.fieldCount.toNat).find? fun i : Nat =>
        t.uintDataForIndex i t.data.fieldNumberOffset == BitVec.ofInt 32 fieldNumber with
    | some i => i
    | none => -1
  else -1

end QProtobufPropertyOrdering

/-- The names of the fields with the NUL behind each. -/
def jsonNames (fields : List FieldDefinition) : Bytes := fields.flatMap fun f => f.jsonName ++ [0]

/-- The characters behind the columns. -/
def charTable (name : Bytes) (fields : List FieldDefinition) : Bytes :=
  name ++ 0 :: (jsonNames fields ++ [0])

/-- Where the name of a field begins; for the index behind the last field, where the names end. -/
def nameOffset (name : Bytes) (fields : List FieldDefinition) (index : Nat) : Nat :=
  name.length + nullTerminator + (jsonNames (fields.take index)).length

/-- The first name stands in front, ended by a zero. -/
theorem jsonNames_cons (f : FieldDefinition) (fields : List FieldDefinition) :
    jsonNames (f :: fields) = f.jsonName ++ 0 :: jsonNames fields := by
  simp [jsonNames]

/-- The names of two lists stand one behind the other. -/
theorem jsonNames_append (fields rest : List FieldDefinition) :
    jsonNames (fields ++ rest) = jsonNames fields ++ jsonNames rest := by
  simp [jsonNames]

/-- The first name begins behind the name of the type. -/
@[simp] theorem nameOffset_zero (name : Bytes) (fields : List FieldDefinition) :
    nameOffset name fields 0 = name.length + nullTerminator := by
  simp [nameOffset, jsonNames]

/-- Two successive offsets differ by the length of a name and its NUL. -/
theorem nameOffset_succ (name : Bytes) {fields : List FieldDefinition} {i : Nat}
    {f : FieldDefinition} (h : fields[i]? = some f) :
    nameOffset name fields (i + 1) =
      nameOffset name fields i + f.jsonName.length + nullTerminator := by
  obtain ⟨hi, hf⟩ := List.getElem?_eq_some_iff.mp h
  rw [nameOffset, nameOffset, List.take_add_one, h, jsonNames_append]
  simp only [Option.toList_some, List.length_append, jsonNames, List.flatMap_cons, List.flatMap_nil,
    List.length_nil, List.length_cons, nullTerminator]
  omega

/-- The characters from the offset of a field on begin with its name. -/
theorem drop_charTable (name : Bytes) {fields : List FieldDefinition} {i : Nat}
    {f : FieldDefinition} (h : fields[i]? = some f) :
    (charTable name fields).drop (nameOffset name fields i) =
      f.jsonName ++ 0 :: (jsonNames (fields.drop (i + 1)) ++ [0]) := by
  obtain ⟨hi, hf⟩ := List.getElem?_eq_some_iff.mp h
  have hsplit : jsonNames fields =
      jsonNames (fields.take i) ++ (f.jsonName ++ 0 :: jsonNames (fields.drop (i + 1))) := by
    rw [← jsonNames_cons, ← jsonNames_append, ← hf, List.getElem_cons_drop hi, List.take_append_drop]
  have hchars : charTable name fields = (name ++ 0 :: jsonNames (fields.take i)) ++
      (f.jsonName ++ 0 :: (jsonNames (fields.drop (i + 1)) ++ [0])) := by
    rw [charTable, hsplit]
    simp
  have hlength : nameOffset name fields i = (name ++ 0 :: jsonNames (fields.take i)).length := by
    simp only [nameOffset, nullTerminator, List.length_append, List.length_cons]
    omega
  rw [hchars, hlength, List.drop_left]

/-- The entries of the columns, one column behind the other. -/
structure Columns (t : QProtobufPropertyOrdering) (name : Bytes) (fields : List FieldDefinition) :
    Prop where
  offset : ∀ i ≤ fields.length, t.uintDataForIndex i jsonNameOffsetsOffset =
    BitVec.ofNat 32 (nameOffset name fields i)
  fieldNumber : ∀ (i : Nat) f, fields[i]? = some f →
    t.uintDataForIndex i t.data.fieldNumberOffset = f.fieldNumber
  propertyIndex : ∀ (i : Nat) f, fields[i]? = some f →
    t.uintDataForIndex i t.data.propertyIndexOffset = f.propertyIndex
  flags : ∀ (i : Nat) f, fields[i]? = some f → t.uintDataForIndex i t.data.flagsOffset = f.flags

/-- A table holds a message name and fields. -/
structure Holds (t : QProtobufPropertyOrdering) (name : Bytes) (fields : List FieldDefinition) :
    Prop where
  count_lt : fields.length < 2 ^ 31
  numFields : t.data.numFields = BitVec.ofNat 32 fields.length
  fullPackageNameSize : t.data.fullPackageNameSize = BitVec.ofNat 32 name.length
  columns : Columns t name fields
  chars : ∀ offset length, offset + length ≤ (charTable name fields).length →
    t.memory.read (t.charData + offset) length =
      ((charTable name fields).drop offset).take length

namespace Holds

variable {t : QProtobufPropertyOrdering} {name : Bytes} {fields : List FieldDefinition}

/-- A table that holds the fields counts them. -/
theorem fieldCount_eq (h : Holds t name fields) : t.fieldCount = fields.length := by
  have hlt := h.count_lt
  rw [QProtobufPropertyOrdering.fieldCount, h.numFields, BitVec.toInt_eq_toNat_cond,
    BitVec.toNat_ofNat]
  omega

/-- The place of a field is within the bounds. -/
theorem isOutOfBounds_eq_false (h : Holds t name fields) {i : Nat} {f : FieldDefinition}
    (hf : fields[i]? = some f) : t.isOutOfBounds i = false := by
  obtain ⟨hi, -⟩ := List.getElem?_eq_some_iff.mp hf
  rw [QProtobufPropertyOrdering.isOutOfBounds, h.fieldCount_eq]
  simp only [decide_eq_false_iff_not]
  omega

/-- A message name whose length fits the header is answered. -/
theorem messageFullName_eq (h : Holds t name fields) (hfits : name.length < 2 ^ 32) :
    t.messageFullName = name := by
  have hread := h.chars 0 name.length (by simp [charTable])
  rw [QProtobufPropertyOrdering.messageFullName, h.fullPackageNameSize, BitVec.toNat_ofNat,
    Nat.mod_eq_of_lt hfits]
  simpa [charTable] using hread

/-- A JSON name is answered if its offset fits the column and 32 bits hold its length. -/
theorem jsonName_eq (h : Holds t name fields) {i : Nat} {f : FieldDefinition}
    (hf : fields[i]? = some f) (hfits : nameOffset name fields i < 2 ^ 32)
    (hname : f.jsonName.length < 2 ^ 32) : t.jsonName i = f.jsonName := by
  obtain ⟨hi, -⟩ := List.getElem?_eq_some_iff.mp hf
  have hsucc := nameOffset_succ name hf
  have hdrop := drop_charTable name hf
  have hbound : nameOffset name fields i + f.jsonName.length ≤ (charTable name fields).length := by
    have hlength := congrArg List.length hdrop
    rw [List.length_drop, List.length_append, List.length_cons] at hlength
    omega
  have hoffset : t.uintDataForIndex i jsonNameOffsetsOffset =
      BitVec.ofNat 32 (nameOffset name fields i) := h.columns.offset i (by omega)
  have hnext : t.uintDataForIndex ((i : Int) + 1) jsonNameOffsetsOffset =
      BitVec.ofNat 32 (nameOffset name fields (i + 1)) := h.columns.offset (i + 1) (by omega)
  have hnameLength : (BitVec.ofNat 32 (nameOffset name fields (i + 1)) -
      BitVec.ofNat 32 nullTerminator - BitVec.ofNat 32 (nameOffset name fields i)).toNat =
      f.jsonName.length := by
    simp only [BitVec.toNat_sub, BitVec.toNat_ofNat, hsucc, nullTerminator]
    omega
  have hstart : (BitVec.ofNat 32 (nameOffset name fields i)).toNat = nameOffset name fields i := by
    rw [BitVec.toNat_ofNat]
    omega
  rw [QProtobufPropertyOrdering.jsonName, h.isOutOfBounds_eq_false hf]
  simp only [Bool.false_eq_true, if_false, hoffset, hnext, hnameLength, hstart]
  rw [h.chars _ _ hbound, hdrop, List.take_left]

/-- An entry of a column is answered if an `int` can hold it. -/
theorem intForIndex_eq (h : Holds t name fields) {i : Nat} {f : FieldDefinition}
    (hf : fields[i]? = some f) {offset value : BitVec 32}
    (hvalue : t.uintDataForIndex i offset = value) :
    t.intForIndex i offset = if value.toNat > 2 ^ 31 - 1 then -1 else (value.toNat : Int) := by
  rw [QProtobufPropertyOrdering.intForIndex, h.isOutOfBounds_eq_false hf, hvalue]
  simp

/-- A number below the largest `int` is answered as it is. -/
theorem fieldNumber_eq (h : Holds t name fields) {i : Nat} {f : FieldDefinition}
    (hf : fields[i]? = some f) (hfits : f.fieldNumber.toNat < 2 ^ 31) :
    t.fieldNumber i = f.fieldNumber.toNat := by
  rw [QProtobufPropertyOrdering.fieldNumber, h.intForIndex_eq hf (h.columns.fieldNumber i f hf),
    if_neg (by omega)]

/-- An index is answered as it is up to the largest `int`, and with -1 above. -/
theorem propertyIndex_eq (h : Holds t name fields) {i : Nat} {f : FieldDefinition}
    (hf : fields[i]? = some f) : t.propertyIndex i =
      if f.propertyIndex.toNat > 2 ^ 31 - 1 then -1 else (f.propertyIndex.toNat : Int) :=
  h.intForIndex_eq hf (h.columns.propertyIndex i f hf)

/-- The flags of a field are answered as they are. -/
theorem fieldFlags_eq (h : Holds t name fields) {i : Nat} {f : FieldDefinition}
    (hf : fields[i]? = some f) : t.fieldFlags i = f.flags := by
  rw [QProtobufPropertyOrdering.fieldFlags, h.isOutOfBounds_eq_false hf]
  exact h.columns.flags i f hf

/-- The search finds a field number where it stands, as it stands nowhere else. -/
theorem indexOfFieldNumber_eq (h : Holds t name fields)
    (hnodup : (fields.map (·.fieldNumber)).Nodup) {i : Nat} {f : FieldDefinition}
    (hf : fields[i]? = some f) (hpos : 0 < f.fieldNumber.toNat) :
    t.indexOfFieldNumber f.fieldNumber.toNat = i := by
  obtain ⟨hi, -⟩ := List.getElem?_eq_some_iff.mp hf
  have hcast : BitVec.ofInt 32 (f.fieldNumber.toNat : Int) = f.fieldNumber := by
    rw [BitVec.ofInt_natCast, BitVec.ofNat_toNat, BitVec.setWidth_eq]
  have hfound : (List.range fields.length).find? (fun j : Nat =>
      t.uintDataForIndex j t.data.fieldNumberOffset == f.fieldNumber) = some i := by
    rw [List.find?_range_eq_some]
    refine ⟨?_, List.mem_range.mpr hi, ?_⟩
    · simpa using h.columns.fieldNumber i f hf
    · intro j hj
      have hjf : fields[j]? = some fields[j] := List.getElem?_eq_getElem (by omega)
      have hne : fields[j].fieldNumber ≠ f.fieldNumber := by
        have hdistinct := List.nodup_iff_getElem?_ne_getElem?.mp hnodup j i hj (by simpa using hi)
        simpa [hjf, hf] using hdistinct
      have hcolumn := h.columns.fieldNumber j _ hjf
      simpa [hcolumn] using hne
  have hcount : t.fieldCount.toNat = fields.length := by
    rw [h.fieldCount_eq]
    rfl
  rw [QProtobufPropertyOrdering.indexOfFieldNumber, if_pos (by omega), hcount, hcast, hfound]

/-- The search finds no number that no field has. -/
theorem indexOfFieldNumber_eq_neg_one (h : Holds t name fields) {n : Int} (hn : n < 2 ^ 31)
    (habsent : ∀ f ∈ fields, (f.fieldNumber.toNat : Int) ≠ n) : t.indexOfFieldNumber n = -1 := by
  by_cases hpos : n > 0
  · have hcount : t.fieldCount.toNat = fields.length := by
      rw [h.fieldCount_eq]
      rfl
    have hnone : (List.range fields.length).find? (fun j : Nat =>
        t.uintDataForIndex j t.data.fieldNumberOffset == BitVec.ofInt 32 n) = none := by
      rw [List.find?_eq_none]
      intro j hj
      have hlt := List.mem_range.mp hj
      have hcolumn := h.columns.fieldNumber j _ (List.getElem?_eq_getElem hlt)
      have hne := habsent _ (List.getElem_mem hlt)
      rw [hcolumn]
      intro heq
      have hvalue := congrArg BitVec.toNat (eq_of_beq heq)
      rw [BitVec.toNat_ofInt] at hvalue
      omega
    rw [QProtobufPropertyOrdering.indexOfFieldNumber, if_pos hpos, hcount, hnone]
  · rw [QProtobufPropertyOrdering.indexOfFieldNumber, if_neg hpos]

end Holds

/-- The words of the columns. -/
def columnWords (name : Bytes) (fields : List FieldDefinition) : List (BitVec 32) :=
  (List.range (fields.length + 1)).map (fun i => BitVec.ofNat 32 (nameOffset name fields i)) ++
    (fields.map (·.fieldNumber) ++ (fields.map (·.propertyIndex) ++ fields.map (·.flags)))

/-- The header of a table. -/
def tableHeader (name : Bytes) (fields : List FieldDefinition) : Data where
  version := 0
  numFields := BitVec.ofNat 32 fields.length
  fieldNumberOffset := BitVec.ofNat 32 (fields.length * 1 + 1)
  propertyIndexOffset := BitVec.ofNat 32 (fields.length * 2 + 1)
  flagsOffset := BitVec.ofNat 32 (fields.length * 3 + 1)
  fullPackageNameSize := BitVec.ofNat 32 name.length

/-- The block of a table, laid out at once. -/
def layOut (name : Bytes) (fields : List FieldDefinition) (memory : Memory) :
    QProtobufPropertyOrdering where
  data := tableHeader name fields
  memory := (memory.writeWords sizeofData (columnWords name fields)).write
    (sizeofData + 4 * (columnWords name fields).length) (charTable name fields)

/-- The words are four columns and the last offset. -/
theorem length_columnWords (name : Bytes) (fields : List FieldDefinition) :
    (columnWords name fields).length = fields.length * 4 + 1 := by
  simp only [columnWords, List.length_append, List.length_map, List.length_range]
  omega

/-- A block that is laid out holds the name and the fields. -/
theorem layOut_holds (name : Bytes) (fields : List FieldDefinition) (memory : Memory)
    (hcount : fields.length ≤ fieldMaxCount) : Holds (layOut name fields memory) name fields := by
  have hmax : fieldMaxCount = 536870911 := rfl
  have hlength := length_columnWords name fields
  have hentry : ∀ (offset : BitVec 32) (i : Nat) word,
      (columnWords name fields)[offset.toNat + i]? = some word →
      (layOut name fields memory).uintDataForIndex i offset = word := by
    intro offset i word hword
    obtain ⟨hlt, -⟩ := List.getElem?_eq_some_iff.mp hword
    rw [QProtobufPropertyOrdering.uintDataForIndex, layOut, QProtobufPropertyOrdering.uintData,
      Int.toNat_natCast, Memory.readWord_write_of_disjoint _ _ (by omega)]
    exact Memory.readWord_writeWords memory sizeofData _ hword
  have hchars : (layOut name fields memory).charData =
      sizeofData + 4 * (columnWords name fields).length := by
    rw [QProtobufPropertyOrdering.charData, hlength, layOut, QProtobufPropertyOrdering.uintData]
    simp only [tableHeader, BitVec.toNat_add, BitVec.toNat_ofNat]
    omega
  have hnumber : (tableHeader name fields).fieldNumberOffset.toNat = fields.length + 1 := by
    simp only [tableHeader, BitVec.toNat_ofNat]
    omega
  have hproperty : (tableHeader name fields).propertyIndexOffset.toNat = fields.length * 2 + 1 := by
    simp only [tableHeader, BitVec.toNat_ofNat]
    omega
  have hflags : (tableHeader name fields).flagsOffset.toNat = fields.length * 3 + 1 := by
    simp only [tableHeader, BitVec.toNat_ofNat]
    omega
  refine ⟨by omega, rfl, rfl, ⟨?_, ?_, ?_, ?_⟩, ?_⟩
  · intro i hi
    apply hentry
    rw [jsonNameOffsetsOffset, show (0 : BitVec 32).toNat + i = i by simp, columnWords,
      List.getElem?_append_left (by simpa using Nat.lt_succ_of_le hi), List.getElem?_map,
      List.getElem?_range (Nat.lt_succ_of_le hi)]
    rfl
  · intro i f hf
    obtain ⟨hi, -⟩ := List.getElem?_eq_some_iff.mp hf
    apply hentry
    change (columnWords name fields)[(tableHeader name fields).fieldNumberOffset.toNat + i]? = _
    rw [hnumber, columnWords, List.getElem?_append_right (by simp),
      List.getElem?_append_left (by simp; omega), List.getElem?_map]
    simp [hf]
  · intro i f hf
    obtain ⟨hi, -⟩ := List.getElem?_eq_some_iff.mp hf
    apply hentry
    change (columnWords name fields)[(tableHeader name fields).propertyIndexOffset.toNat + i]? = _
    rw [hproperty, columnWords, List.getElem?_append_right (by simp; omega),
      List.getElem?_append_right (by simp; omega), List.getElem?_append_left (by simp; omega),
      List.getElem?_map]
    simp only [List.length_map, List.length_range]
    rw [show fields.length * 2 + 1 + i - (fields.length + 1) - fields.length = i by omega, hf]
    rfl
  · intro i f hf
    obtain ⟨hi, -⟩ := List.getElem?_eq_some_iff.mp hf
    apply hentry
    change (columnWords name fields)[(tableHeader name fields).flagsOffset.toNat + i]? = _
    rw [hflags, columnWords, List.getElem?_append_right (by simp; omega),
      List.getElem?_append_right (by simp; omega), List.getElem?_append_right (by simp; omega),
      List.getElem?_map]
    simp only [List.length_map, List.length_range]
    rw [show fields.length * 3 + 1 + i - (fields.length + 1) - fields.length - fields.length = i by
      omega, hf]
    rfl
  · intro offset length hfits
    rw [hchars, layOut, Memory.read_write_inside _ _ _ _ _ hfits]

/-- The accessors answer exactly a message name and fields. -/
structure Answers (t : QProtobufPropertyOrdering) (name : Bytes) (fields : List FieldDefinition) :
    Prop where
  messageFullName : t.messageFullName = name
  fieldCount : t.fieldCount = fields.length
  jsonName : ∀ (i : Nat) f, fields[i]? = some f → t.jsonName i = f.jsonName
  fieldNumber : ∀ (i : Nat) f, fields[i]? = some f → t.fieldNumber i = f.fieldNumber.toNat
  propertyIndex : ∀ (i : Nat) f, fields[i]? = some f → t.propertyIndex i = f.propertyIndex.toNat
  fieldFlags : ∀ (i : Nat) f, fields[i]? = some f → t.fieldFlags i = f.flags
  indexOfFieldNumber : ∀ (i : Nat) f, fields[i]? = some f →
    t.indexOfFieldNumber (t.fieldNumber i) = i
  indexOfFieldNumber_absent : ∀ n : Int, n < 2 ^ 31 →
    (∀ f ∈ fields, (f.fieldNumber.toNat : Int) ≠ n) → t.indexOfFieldNumber n = -1

/-- The accessors answer a message name and fields as far as the 32 bits of an entry go. -/
structure AnswersWithinWidth (t : QProtobufPropertyOrdering) (name : Bytes)
    (fields : List FieldDefinition) : Prop where
  messageFullName : name.length < 2 ^ 32 → t.messageFullName = name
  fieldCount : t.fieldCount = fields.length
  jsonName : ∀ (i : Nat) f, fields[i]? = some f → nameOffset name fields i < 2 ^ 32 →
    f.jsonName.length < 2 ^ 32 → t.jsonName i = f.jsonName
  fieldNumber : ∀ (i : Nat) f, fields[i]? = some f → t.fieldNumber i = f.fieldNumber.toNat
  propertyIndex : ∀ (i : Nat) f, fields[i]? = some f → t.propertyIndex i =
    if f.propertyIndex.toNat > 2 ^ 31 - 1 then -1 else (f.propertyIndex.toNat : Int)
  fieldFlags : ∀ (i : Nat) f, fields[i]? = some f → t.fieldFlags i = f.flags
  indexOfFieldNumber : ∀ (i : Nat) f, fields[i]? = some f →
    t.indexOfFieldNumber (t.fieldNumber i) = i
  indexOfFieldNumber_absent : ∀ n : Int, n < 2 ^ 31 →
    (∀ f ∈ fields, (f.fieldNumber.toNat : Int) ≠ n) → t.indexOfFieldNumber n = -1

section

variable {t : QProtobufPropertyOrdering} {name : Bytes} {fields : List FieldDefinition}

/-- A table that holds fields with distinct numbers answers them. -/
theorem Holds.answersWithinWidth (h : Holds t name fields)
    (hnodup : (fields.map (·.fieldNumber)).Nodup)
    (hrange : ∀ f ∈ fields, 0 < f.fieldNumber.toNat ∧ f.fieldNumber.toNat < 2 ^ 31) :
    AnswersWithinWidth t name fields where
  messageFullName := h.messageFullName_eq
  fieldCount := h.fieldCount_eq
  jsonName _ _ hf := h.jsonName_eq hf
  fieldNumber _ f hf := h.fieldNumber_eq hf (hrange f (List.mem_of_getElem? hf)).2
  propertyIndex _ _ hf := h.propertyIndex_eq hf
  fieldFlags _ _ hf := h.fieldFlags_eq hf
  indexOfFieldNumber i f hf := by
    have hf' := hrange f (List.mem_of_getElem? hf)
    rw [h.fieldNumber_eq hf hf'.2, h.indexOfFieldNumber_eq hnodup hf hf'.1]
  indexOfFieldNumber_absent _ hn habsent := h.indexOfFieldNumber_eq_neg_one hn habsent

/-- The offsets grow from field to field. -/
theorem nameOffset_le (name : Bytes) (fields : List FieldDefinition) (i : Nat) :
    nameOffset name fields i ≤ nameOffset name fields fields.length := by
  have hsplit := congrArg jsonNames (List.take_append_drop i fields)
  rw [jsonNames_append] at hsplit
  have hlength := congrArg List.length hsplit
  rw [List.length_append] at hlength
  rw [nameOffset, nameOffset, List.take_length]
  omega

/-- If no entry is wider than 32 bits, nor a property index than 31, the answers are exact. -/
theorem AnswersWithinWidth.answers (h : AnswersWithinWidth t name fields)
    (hfits : nameOffset name fields fields.length < 2 ^ 32)
    (hindex : ∀ f ∈ fields, f.propertyIndex.toNat < 2 ^ 31) : Answers t name fields where
  messageFullName := by
    have hzero := nameOffset_le name fields 0
    rw [nameOffset_zero, nullTerminator] at hzero
    exact h.messageFullName (by omega)
  fieldCount := h.fieldCount
  jsonName i f hf := by
    have hend := (nameOffset_le name fields (i + 1)).trans_lt hfits
    rw [nameOffset_succ name hf] at hend
    exact h.jsonName i f hf (by omega) (by omega)
  fieldNumber := h.fieldNumber
  propertyIndex i f hf := by
    have hlt := hindex f (List.mem_of_getElem? hf)
    rw [h.propertyIndex i f hf, if_neg (by omega)]
  fieldFlags := h.fieldFlags
  indexOfFieldNumber := h.indexOfFieldNumber
  indexOfFieldNumber_absent := h.indexOfFieldNumber_absent

end

end QtGrpc.Protobuf.Ordering
