import QtGrpc.Protobuf.Ordering.Table

/-!
# The builder of property ordering tables

`QProtobufPropertyOrderingBuilder` allocates the block of a table and fills it: the header, then in
one loop the four columns, then the characters. The offsets of the names are summed up in an
unsigned integer.
-/

namespace QtGrpc.Protobuf.Ordering

/-- `QProtobufPropertyOrderingBuilder`. -/
structure QProtobufPropertyOrderingBuilder where
  packageName : Bytes
  fields : List FieldDefinition := []

/-- `calloc`. -/
def calloc (memory : Memory) (spaceNeeded : Nat) : Memory :=
  memory.write 0 (List.replicate spaceNeeded 0)

/-- An assignment to `uintData[index]`. -/
def setUInt (memory : Memory) (index : BitVec 32) (value : BitVec 32) : Memory :=
  memory.writeWord (QProtobufPropertyOrdering.uintData + 4 * index.toNat) value

/-- A field number that is not one. -/
def isOutOfRange (fieldNumber : BitVec 32) : Bool :=
  decide (fieldNumber.toNat > fieldNumMax ∨ fieldNumber.toNat < fieldNumMin)

/-- The loop of `build` from a field on, with the offset of that field's name. -/
def writeFields (data : Data) :
    BitVec 32 → BitVec 32 → List FieldDefinition → Memory → Option (BitVec 32 × Memory)
  | _, jsonArrayOffset, [], memory => some (jsonArrayOffset, memory)
  | i, jsonArrayOffset, field :: fields, memory =>
    if isOutOfRange field.fieldNumber then none
    else
      let memory := setUInt memory i jsonArrayOffset
      let memory := setUInt memory (i + data.fieldNumberOffset) field.fieldNumber
      let memory := setUInt memory (i + data.propertyIndexOffset) field.propertyIndex
      let memory := setUInt memory (i + data.flagsOffset) field.flags
      writeFields data (i + 1)
        (jsonArrayOffset + BitVec.ofNat 32 (field.jsonName.length + nullTerminator)) fields memory

/-- The names of the fields are copied one behind the other. -/
def copyNames : List FieldDefinition → Nat → Memory → Nat × Memory
  | [], charData, memory => (charData, memory)
  | field :: fields, charData, memory =>
    copyNames fields (charData + field.jsonName.length + nullTerminator)
      (memory.write charData (field.jsonName ++ [0]))

namespace QProtobufPropertyOrderingBuilder

variable (b : QProtobufPropertyOrderingBuilder)

def charSpaceNeeded : Nat :=
  nullTerminator + b.packageName.length + nullTerminator +
    (b.fields.map fun field => field.jsonName.length + nullTerminator).sum

def uintSpaceNeeded : Nat := sizeofData + b.fields.length * 4 * 4 + 4

def spaceNeeded : Nat := b.uintSpaceNeeded + b.charSpaceNeeded

/-- The header. -/
def header : Data where
  version := 0
  numFields := BitVec.ofNat 32 b.fields.length
  fieldNumberOffset := BitVec.ofNat 32 (b.fields.length * 1 + 1)
  propertyIndexOffset := BitVec.ofNat 32 (b.fields.length * 2 + 1)
  flagsOffset := BitVec.ofNat 32 (b.fields.length * 3 + 1)
  fullPackageNameSize := BitVec.ofNat 32 b.packageName.length

/-- `build`, with the memory that `calloc` takes the block from. -/
def build (memory : Memory) : Option QProtobufPropertyOrdering :=
  if b.fields.length > fieldMaxCount then none
  else
    let data := b.header
    let jsonArrayOffset := data.fullPackageNameSize + BitVec.ofNat 32 nullTerminator
    match writeFields data 0 jsonArrayOffset b.fields (calloc memory b.spaceNeeded) with
    | none => none
    | some (jsonArrayOffset, memory) =>
      let memory := setUInt memory (BitVec.ofNat 32 b.fields.length) jsonArrayOffset
      let charData := QProtobufPropertyOrdering.charData { data, memory }
      let memory := memory.write charData (b.packageName ++ [0])
      let (charData, memory) :=
        copyNames b.fields (charData + b.packageName.length + nullTerminator) memory
      some { data, memory := memory.write charData [0] }

end QProtobufPropertyOrderingBuilder

/-! ## The columns -/

/-- The word at an index of the columns. -/
def wordAt (memory : Memory) (index : Nat) : BitVec 32 :=
  memory.readWord (QProtobufPropertyOrdering.uintData + 4 * index)

/-- A word that is set is read there, and the others stay. -/
theorem wordAt_setUInt (memory : Memory) (i value : BitVec 32) (index : Nat) :
    wordAt (setUInt memory i value) index =
      if index = i.toNat then value else wordAt memory index := by
  split
  · rename_i h
    rw [wordAt, setUInt, h, Memory.readWord_writeWord_self]
  · rw [wordAt, setUInt, Memory.readWord_writeWord_of_disjoint _ _ (by omega), wordAt]

/-- A header whose columns have room for a number of fields. -/
structure Data.Spans (data : Data) (count : Nat) : Prop where
  count_le : count ≤ fieldMaxCount
  fieldNumberOffset : data.fieldNumberOffset.toNat = count + 1
  propertyIndexOffset : data.propertyIndexOffset.toNat = count * 2 + 1
  flagsOffset : data.flagsOffset.toNat = count * 3 + 1

/-- The header spans the columns of the fields. -/
theorem QProtobufPropertyOrderingBuilder.header_spans (b : QProtobufPropertyOrderingBuilder)
    (h : b.fields.length ≤ fieldMaxCount) : b.header.Spans b.fields.length := by
  have hmax : fieldMaxCount = 536870911 := rfl
  constructor
  · exact h
  all_goals
    simp only [header, BitVec.toNat_ofNat]
    omega

/-- The indices of an iteration, as numbers. -/
theorem Data.Spans.toNat_index {data : Data} {count i : Nat} (hspans : data.Spans count)
    (hi : i < count) : (BitVec.ofNat 32 i).toNat = i ∧
      (BitVec.ofNat 32 i + data.fieldNumberOffset).toNat = count + 1 + i ∧
      (BitVec.ofNat 32 i + data.propertyIndexOffset).toNat = count * 2 + 1 + i ∧
      (BitVec.ofNat 32 i + data.flagsOffset).toNat = count * 3 + 1 + i := by
  have hmax : fieldMaxCount = 536870911 := rfl
  have hle := hspans.count_le
  have hplain : (BitVec.ofNat 32 i).toNat = i := by
    rw [BitVec.toNat_ofNat]
    omega
  refine ⟨hplain, ?_, ?_, ?_⟩
  · rw [BitVec.toNat_add, hplain, hspans.fieldNumberOffset]
    omega
  · rw [BitVec.toNat_add, hplain, hspans.propertyIndexOffset]
    omega
  · rw [BitVec.toNat_add, hplain, hspans.flagsOffset]
    omega

/-- What one iteration leaves at each index of the columns. -/
theorem wordAt_iteration {data : Data} {count i : Nat} (hspans : data.Spans count) (hi : i < count)
    (memory : Memory) (offset number property flags : BitVec 32) (index : Nat) :
    wordAt (setUInt (setUInt (setUInt (setUInt memory (BitVec.ofNat 32 i) offset)
        (BitVec.ofNat 32 i + data.fieldNumberOffset) number)
        (BitVec.ofNat 32 i + data.propertyIndexOffset) property)
        (BitVec.ofNat 32 i + data.flagsOffset) flags) index =
      if index = count * 3 + 1 + i then flags
      else if index = count * 2 + 1 + i then property
      else if index = count + 1 + i then number
      else if index = i then offset
      else wordAt memory index := by
  obtain ⟨hplain, hnumber, hproperty, hflags⟩ := hspans.toNat_index hi
  rw [wordAt_setUInt, wordAt_setUInt, wordAt_setUInt, wordAt_setUInt, hplain, hnumber, hproperty,
    hflags]

/-- The loop writes to the columns of the fields it goes through and to nothing else. -/
theorem wordAt_writeFields_of_untouched {data : Data} {count : Nat} (hspans : data.Spans count)
    (fields : List FieldDefinition) {i : Nat} {offset : BitVec 32} {memory : Memory}
    {result : BitVec 32 × Memory} (hcount : i + fields.length = count)
    (h : writeFields data (BitVec.ofNat 32 i) offset fields memory = some result) {index : Nat}
    (huntouched : ∀ j, i ≤ j → j < count → index ≠ j ∧ index ≠ count + 1 + j ∧
      index ≠ count * 2 + 1 + j ∧ index ≠ count * 3 + 1 + j) :
    wordAt result.2 index = wordAt memory index := by
  induction fields generalizing i offset memory with
  | nil =>
    cases h
    rfl
  | cons field fields ih =>
    rw [List.length_cons] at hcount
    rw [writeFields] at h
    split at h
    · cases h
    · have hnext : BitVec.ofNat 32 i + 1 = BitVec.ofNat 32 (i + 1) := (BitVec.ofNat_add i 1).symm
      rw [hnext] at h
      rw [ih (by omega) h fun j hj => huntouched j (by omega),
        wordAt_iteration hspans (by omega)]
      have hthis := huntouched i (by omega) (by omega)
      simp [hthis]

/-- What the loop leaves in the columns. -/
structure Written (count i : Nat) (offset : BitVec 32) (fields : List FieldDefinition)
    (memory : Memory) : Prop where
  offset : ∀ j f, fields[j]? = some f →
    wordAt memory (i + j) = offset + BitVec.ofNat 32 (jsonNames (fields.take j)).length
  fieldNumber : ∀ j f, fields[j]? = some f → wordAt memory (count + 1 + (i + j)) = f.fieldNumber
  propertyIndex : ∀ j f, fields[j]? = some f →
    wordAt memory (count * 2 + 1 + (i + j)) = f.propertyIndex
  flags : ∀ j f, fields[j]? = some f → wordAt memory (count * 3 + 1 + (i + j)) = f.flags
  inRange : ∀ f ∈ fields, isOutOfRange f.fieldNumber = false

/-- A name takes its length and the zero behind it. -/
theorem length_jsonNames_cons (f : FieldDefinition) (fields : List FieldDefinition) :
    (jsonNames (f :: fields)).length =
      f.jsonName.length + nullTerminator + (jsonNames fields).length := by
  rw [jsonNames_cons, List.length_append, List.length_cons, nullTerminator]
  omega

/-- What the loop writes for the fields is read at their places. -/
theorem writeFields_written {data : Data} {count : Nat} (hspans : data.Spans count)
    (fields : List FieldDefinition) {i : Nat} {offset : BitVec 32} {memory : Memory}
    {result : BitVec 32 × Memory} (hcount : i + fields.length = count)
    (h : writeFields data (BitVec.ofNat 32 i) offset fields memory = some result) :
    Written count i offset fields result.2 ∧
      result.1 = offset + BitVec.ofNat 32 (jsonNames fields).length := by
  induction fields generalizing i offset memory with
  | nil =>
    cases h
    refine ⟨⟨?_, ?_, ?_, ?_, ?_⟩, ?_⟩ <;> simp [jsonNames]
  | cons field fields ih =>
    rw [List.length_cons] at hcount
    rw [writeFields] at h
    split at h
    · cases h
    · rename_i hrange
      have hnext : BitVec.ofNat 32 i + 1 = BitVec.ofNat 32 (i + 1) := (BitVec.ofNat_add i 1).symm
      rw [hnext] at h
      obtain ⟨hrest, hend⟩ := ih (by omega) h
      have hhead : ∀ index, (index = i ∨ index = count + 1 + i ∨ index = count * 2 + 1 + i ∨
          index = count * 3 + 1 + i) → wordAt result.2 index = _ := fun index hindex =>
        (wordAt_writeFields_of_untouched hspans fields (by omega) h (by omega)).trans
          (wordAt_iteration hspans (by omega) _ _ _ _ _ index)
      refine ⟨⟨?_, ?_, ?_, ?_, ?_⟩, ?_⟩
      · intro j f hf
        cases j with
        | zero =>
          rw [Nat.add_zero, hhead i (by omega), if_neg (by omega), if_neg (by omega),
            if_neg (by omega), if_pos rfl]
          simp [jsonNames]
        | succ j =>
          rw [show i + (j + 1) = i + 1 + j by omega, hrest.offset j f (by simpa using hf),
            List.take_succ_cons, length_jsonNames_cons,
            BitVec.ofNat_add (field.jsonName.length + nullTerminator), BitVec.add_assoc]
      · intro j f hf
        cases j with
        | zero =>
          obtain rfl : field = f := by simpa using hf
          rw [Nat.add_zero, hhead _ (by omega), if_neg (by omega), if_neg (by omega),
            if_pos (by omega)]
        | succ j =>
          rw [show i + (j + 1) = i + 1 + j by omega]
          exact hrest.fieldNumber j f (by simpa using hf)
      · intro j f hf
        cases j with
        | zero =>
          obtain rfl : field = f := by simpa using hf
          rw [Nat.add_zero, hhead _ (by omega), if_neg (by omega), if_pos (by omega)]
        | succ j =>
          rw [show i + (j + 1) = i + 1 + j by omega]
          exact hrest.propertyIndex j f (by simpa using hf)
      · intro j f hf
        cases j with
        | zero =>
          obtain rfl : field = f := by simpa using hf
          rw [Nat.add_zero, hhead _ (by omega), if_pos (by omega)]
        | succ j =>
          rw [show i + (j + 1) = i + 1 + j by omega]
          exact hrest.flags j f (by simpa using hf)
      · intro f hf
        rcases List.mem_cons.mp hf with rfl | hf
        · simpa using hrange
        · exact hrest.inRange f hf
      · rw [hend, length_jsonNames_cons, BitVec.ofNat_add (field.jsonName.length + nullTerminator),
          BitVec.add_assoc]

/-! ## The characters -/

/-- The names are one block of characters. -/
theorem copyNames_eq (fields : List FieldDefinition) (charData : Nat) (memory : Memory) :
    copyNames fields charData memory =
      (charData + (jsonNames fields).length, memory.write charData (jsonNames fields)) := by
  induction fields generalizing charData memory with
  | nil => rfl
  | cons field fields ih =>
    have hnames : jsonNames (field :: fields) = (field.jsonName ++ [0]) ++ jsonNames fields := by
      simp [jsonNames]
    rw [copyNames, ih, hnames, Memory.write_append memory charData (field.jsonName ++ [0]),
      List.length_append, List.length_append, List.length_singleton, nullTerminator]
    simp only [Nat.add_assoc]

/-- The characters are copied as one block, which ends the table. -/
theorem writeChars_eq (b : QProtobufPropertyOrderingBuilder) (charData : Nat) (memory : Memory) :
    (copyNames b.fields (charData + b.packageName.length + nullTerminator)
      (memory.write charData (b.packageName ++ [0]))).2.write
        (copyNames b.fields (charData + b.packageName.length + nullTerminator)
          (memory.write charData (b.packageName ++ [0]))).1 [0] =
      memory.write charData (charTable b.packageName b.fields) := by
  have hchars : charTable b.packageName b.fields =
      (b.packageName ++ [0]) ++ (jsonNames b.fields ++ [0]) := by
    simp [charTable]
  rw [copyNames_eq, hchars, Memory.write_append memory charData (b.packageName ++ [0]),
    Memory.write_append _ _ (jsonNames b.fields), List.length_append, List.length_singleton,
    nullTerminator]
  simp only [Nat.add_assoc]

/-! ## The table -/

section

variable {b : QProtobufPropertyOrderingBuilder} {memory : Memory} {t : QProtobufPropertyOrdering}

/-- A table that is built consists of the columns and the characters behind them. -/
theorem build_eq_some (h : b.build memory = some t) :
    b.fields.length ≤ fieldMaxCount ∧ t.data = b.header ∧ ∃ result,
      writeFields b.header 0 (b.header.fullPackageNameSize + BitVec.ofNat 32 nullTerminator) b.fields
        (calloc memory b.spaceNeeded) = some result ∧
      t.memory = (setUInt result.2 (BitVec.ofNat 32 b.fields.length) result.1).write
        (QProtobufPropertyOrdering.uintData + 4 * (b.fields.length * 4 + 1))
        (charTable b.packageName b.fields) := by
  rw [QProtobufPropertyOrderingBuilder.build] at h
  split at h
  · cases h
  · rename_i hcount
    have hmax : fieldMaxCount = 536870911 := rfl
    have hcharData : (b.header.flagsOffset + b.header.numFields).toNat = b.fields.length * 4 + 1 := by
      simp only [QProtobufPropertyOrderingBuilder.header, BitVec.toNat_add, BitVec.toNat_ofNat]
      omega
    cases hresult : writeFields b.header 0
        (b.header.fullPackageNameSize + BitVec.ofNat 32 nullTerminator) b.fields
        (calloc memory b.spaceNeeded) with
    | none => simp only [hresult, reduceCtorEq] at h
    | some result =>
      simp only [hresult, Option.some.injEq] at h
      refine ⟨by omega, by rw [← h], result, rfl, ?_⟩
      rw [← h, writeChars_eq, QProtobufPropertyOrdering.charData, hcharData]

/-- A table that is built holds what was given to the builder. -/
theorem build_holds (h : b.build memory = some t) : Holds t b.packageName b.fields ∧
    ∀ f ∈ b.fields, isOutOfRange f.fieldNumber = false := by
  obtain ⟨hcount, hdata, result, hresult, hmemory⟩ := build_eq_some h
  have hmax : fieldMaxCount = 536870911 := rfl
  have hspans := b.header_spans hcount
  have hstart : b.header.fullPackageNameSize + BitVec.ofNat 32 nullTerminator =
      BitVec.ofNat 32 (b.packageName.length + nullTerminator) := (BitVec.ofNat_add _ _).symm
  rw [hstart] at hresult
  obtain ⟨hwritten, hend⟩ := writeFields_written hspans b.fields (Nat.zero_add _) hresult
  have hlast : (BitVec.ofNat 32 b.fields.length).toNat = b.fields.length := by
    rw [BitVec.toNat_ofNat]
    omega
  -- The characters lie behind the columns.
  have hword : ∀ index, index < b.fields.length * 4 + 1 → wordAt t.memory index =
      if index = b.fields.length then result.1 else wordAt result.2 index := by
    intro index hindex
    rw [hmemory, wordAt, Memory.readWord_write_of_disjoint _ _ (by omega), ← wordAt, wordAt_setUInt,
      hlast]
  have hentry : ∀ (offset : BitVec 32) (i : Nat),
      t.uintDataForIndex i offset = wordAt t.memory (offset.toNat + i) := fun _ _ => rfl
  have hchars : t.charData = QProtobufPropertyOrdering.uintData + 4 * (b.fields.length * 4 + 1) := by
    rw [QProtobufPropertyOrdering.charData, hdata]
    simp only [QProtobufPropertyOrderingBuilder.header, BitVec.toNat_add, BitVec.toNat_ofNat]
    omega
  refine ⟨⟨by omega, by rw [hdata]; rfl, by rw [hdata]; rfl, ⟨?_, ?_, ?_, ?_⟩, ?_⟩, hwritten.inRange⟩
  · intro i hi
    rw [hentry, jsonNameOffsetsOffset, show (0 : BitVec 32).toNat + i = i by simp,
      hword i (by omega)]
    split
    · rename_i heq
      rw [hend, heq, ← BitVec.ofNat_add, nameOffset, List.take_length]
    · have hget : b.fields[i]? = some b.fields[i] := List.getElem?_eq_getElem (by omega)
      have hoffset := hwritten.offset i _ hget
      rw [Nat.zero_add] at hoffset
      rw [hoffset, ← BitVec.ofNat_add, nameOffset]
  · intro i f hf
    obtain ⟨hi, -⟩ := List.getElem?_eq_some_iff.mp hf
    have hnumber := hwritten.fieldNumber i f hf
    rw [Nat.zero_add] at hnumber
    rw [hentry, hdata, hspans.fieldNumberOffset, hword _ (by omega), if_neg (by omega), hnumber]
  · intro i f hf
    obtain ⟨hi, -⟩ := List.getElem?_eq_some_iff.mp hf
    have hproperty := hwritten.propertyIndex i f hf
    rw [Nat.zero_add] at hproperty
    rw [hentry, hdata, hspans.propertyIndexOffset, hword _ (by omega), if_neg (by omega), hproperty]
  · intro i f hf
    obtain ⟨hi, -⟩ := List.getElem?_eq_some_iff.mp hf
    have hflags := hwritten.flags i f hf
    rw [Nat.zero_add] at hflags
    rw [hentry, hdata, hspans.flagsOffset, hword _ (by omega), if_neg (by omega), hflags]
  · intro offset length hfits
    rw [hchars, hmemory, Memory.read_write_inside _ _ _ _ _ hfits]

/-- The loop ends early exactly if a field number is out of range. -/
theorem isSome_writeFields (data : Data) (fields : List FieldDefinition) (i offset : BitVec 32)
    (memory : Memory) : (writeFields data i offset fields memory).isSome ↔
      ∀ f ∈ fields, isOutOfRange f.fieldNumber = false := by
  induction fields generalizing i offset memory with
  | nil => simp [writeFields]
  | cons field fields ih =>
    rw [writeFields]
    split
    · rename_i hrange
      simp [hrange]
    · rename_i hrange
      simp [ih, hrange]

/-- There is a table exactly if there are not too many fields and their numbers are field numbers. -/
theorem isSome_build (b : QProtobufPropertyOrderingBuilder) (memory : Memory) :
    (b.build memory).isSome ↔ b.fields.length ≤ fieldMaxCount ∧
      ∀ f ∈ b.fields, isOutOfRange f.fieldNumber = false := by
  rw [← isSome_writeFields b.header b.fields 0
    (b.header.fullPackageNameSize + BitVec.ofNat 32 nullTerminator) (calloc memory b.spaceNeeded),
    QProtobufPropertyOrderingBuilder.build]
  split
  · simp only [Option.isSome_none, Bool.false_eq_true, false_iff, not_and]
    omega
  · rename_i hcount
    cases hresult : writeFields b.header 0
        (b.header.fullPackageNameSize + BitVec.ofNat 32 nullTerminator) b.fields
        (calloc memory b.spaceNeeded) with
    | none => simp only [hresult, Option.isSome_none, Bool.false_eq_true, and_false]
    | some result =>
      simp only [hresult, Option.isSome_some, and_true, true_iff]
      omega

/-- The characters fill the space that was allocated for them. -/
theorem length_charTable (b : QProtobufPropertyOrderingBuilder) :
    (charTable b.packageName b.fields).length = b.charSpaceNeeded := by
  have hnames : (jsonNames b.fields).length =
      (b.fields.map fun field => field.jsonName.length + nullTerminator).sum := by
    simp [jsonNames, List.length_flatMap, nullTerminator]
  rw [QProtobufPropertyOrderingBuilder.charSpaceNeeded, charTable, List.length_append,
    List.length_cons, List.length_append, hnames, List.length_singleton, nullTerminator]
  omega

/-- Setting a word leaves the bytes outside it. -/
theorem setUInt_of_outside (memory : Memory) (index value : BitVec 32) {a : Nat}
    (ha : QProtobufPropertyOrdering.uintData + 4 * (index.toNat + 1) ≤ a) :
    setUInt memory index value a = memory a := by
  rw [setUInt, Memory.writeWord, Memory.write_of_outside]
  rw [ByteOrder.length_toLittleEndian]
  omega

/-- The loop writes to the columns only. -/
theorem writeFields_of_outside {data : Data} {count : Nat} (hspans : data.Spans count)
    (fields : List FieldDefinition) {i : Nat} {offset : BitVec 32} {memory : Memory}
    {result : BitVec 32 × Memory} (hcount : i + fields.length = count)
    (h : writeFields data (BitVec.ofNat 32 i) offset fields memory = some result) {a : Nat}
    (ha : QProtobufPropertyOrdering.uintData + 4 * (count * 4 + 1) ≤ a) :
    result.2 a = memory a := by
  induction fields generalizing i offset memory with
  | nil =>
    cases h
    rfl
  | cons field fields ih =>
    rw [List.length_cons] at hcount
    rw [writeFields] at h
    split at h
    · cases h
    · have hnext : BitVec.ofNat 32 i + 1 = BitVec.ofNat 32 (i + 1) := (BitVec.ofNat_add i 1).symm
      rw [hnext] at h
      obtain ⟨hplain, hnumber, hproperty, hflags⟩ := hspans.toNat_index (i := i) (by omega)
      rw [ih (by omega) h, setUInt_of_outside _ _ _ (by omega), setUInt_of_outside _ _ _ (by omega),
        setUInt_of_outside _ _ _ (by omega), setUInt_of_outside _ _ _ (by omega)]

/-- The builder writes to the block it allocates only. -/
theorem build_of_outside (h : b.build memory = some t) {a : Nat} (ha : b.spaceNeeded ≤ a) :
    t.memory a = memory a := by
  obtain ⟨hcount, -, result, hresult, hmemory⟩ := build_eq_some h
  have hmax : fieldMaxCount = 536870911 := rfl
  have hchars := length_charTable b
  have hspace : b.spaceNeeded = QProtobufPropertyOrdering.uintData +
      4 * (b.fields.length * 4 + 1) + b.charSpaceNeeded := by
    rw [QProtobufPropertyOrderingBuilder.spaceNeeded,
      QProtobufPropertyOrderingBuilder.uintSpaceNeeded, QProtobufPropertyOrdering.uintData]
    omega
  have hlast : (BitVec.ofNat 32 b.fields.length).toNat = b.fields.length := by
    rw [BitVec.toNat_ofNat]
    omega
  rw [hmemory, Memory.write_of_outside _ _ (by omega), setUInt_of_outside _ _ _ (by omega),
    writeFields_of_outside (b.header_spans hcount) b.fields (Nat.zero_add _) hresult (by omega),
    calloc, Memory.write_of_outside]
  rw [List.length_replicate]
  omega

/-- The table of fields with distinct numbers answers them, and no other field number. -/
theorem build_answersWithinWidth (hnodup : (b.fields.map (·.fieldNumber)).Nodup)
    (h : b.build memory = some t) : AnswersWithinWidth t b.packageName b.fields := by
  obtain ⟨hholds, hrange⟩ := build_holds h
  refine hholds.answersWithinWidth hnodup fun f hf => ?_
  have hnumber := hrange f hf
  have hmax : fieldNumMax = 536870911 := rfl
  have hmin : fieldNumMin = 1 := rfl
  simp only [isOutOfRange, decide_eq_false_iff_not] at hnumber
  omega

end

/-- A message with a field of every kind of flags and a nameless one. -/
def sampleBuilder : QProtobufPropertyOrderingBuilder where
  packageName := ascii "pkg.Sample"
  fields := [⟨ascii "id", 7, 0, 0⟩, ⟨[], 1, 1, 0x14⟩, ⟨ascii "values", 536870911, 3, 0x40⟩]

/-- The sample table answers for its fields. -/
theorem build_answersWithinWidth_sample : ∃ t, sampleBuilder.build (fun _ => 0xaa) = some t ∧
    AnswersWithinWidth t sampleBuilder.packageName sampleBuilder.fields := by
  obtain ⟨t, ht⟩ := Option.isSome_iff_exists.mp
    ((isSome_build sampleBuilder (fun _ => 0xaa)).mpr (by decide))
  exact ⟨t, ht, build_answersWithinWidth (by decide) ht⟩

/-- A property index that no `int` can hold. -/
def largeIndexBuilder : QProtobufPropertyOrderingBuilder where
  packageName := []
  fields := [⟨[], 1, 0x80000000, 0⟩]

/-- A builder that has a message name only. -/
def nameBuilder (name : Bytes) : QProtobufPropertyOrderingBuilder where
  packageName := name

/-- A builder that has the JSON name of one field. -/
def jsonNameBuilder (jsonName : Bytes) : QProtobufPropertyOrderingBuilder where
  packageName := []
  fields := [⟨jsonName, 1, 0, 0⟩]

/-- The header tells the length of a message name only up to 32 bits. -/
theorem not_answers_nameBuilder (name : Bytes) (hlength : name.length = 2 ^ 32) (memory : Memory) :
    ∃ t, (nameBuilder name).build memory = some t ∧ ¬ Answers t name [] := by
  obtain ⟨t, ht⟩ := Option.isSome_iff_exists.mp
    ((isSome_build (nameBuilder name) memory).mpr
      ⟨Nat.zero_le _, fun f hf => absurd hf List.not_mem_nil⟩)
  refine ⟨t, ht, fun h => ?_⟩
  have hanswer := congrArg List.length h.messageFullName
  have hsize : t.data.fullPackageNameSize = BitVec.ofNat 32 name.length :=
    (build_holds ht).1.fullPackageNameSize
  rw [QProtobufPropertyOrdering.messageFullName, Memory.length_read, hsize, hlength] at hanswer
  simp at hanswer

/-- The offsets tell the length of a JSON name only up to 32 bits. -/
theorem not_answers_jsonNameBuilder (jsonName : Bytes) (hlength : jsonName.length = 2 ^ 32)
    (memory : Memory) : ∃ t, (jsonNameBuilder jsonName).build memory = some t ∧
      ¬ Answers t [] [⟨jsonName, 1, 0, 0⟩] := by
  obtain ⟨t, ht⟩ := Option.isSome_iff_exists.mp
    ((isSome_build (jsonNameBuilder jsonName) memory).mpr
      ⟨by simp [jsonNameBuilder, fieldMaxCount, fieldNumMax, fieldNumMin],
        by simp [jsonNameBuilder, isOutOfRange, fieldNumMax, fieldNumMin]⟩)
  have hholds : Holds t [] [⟨jsonName, 1, 0, 0⟩] := (build_holds ht).1
  refine ⟨t, ht, fun h => ?_⟩
  have hanswer := congrArg List.length (h.jsonName 0 _ rfl)
  have hfirst := hholds.columns.offset 0 (Nat.zero_le _)
  have hend := hholds.columns.offset 1 (Nat.le_refl 1)
  rw [nameOffset_succ [] (show [(⟨jsonName, 1, 0, 0⟩ : FieldDefinition)][0]? = _ from rfl),
    nameOffset_zero, hlength] at hend
  rw [QProtobufPropertyOrdering.jsonName, hholds.isOutOfBounds_eq_false (i := 0) rfl] at hanswer
  simp only [Bool.false_eq_true, if_false, Memory.length_read, hlength] at hanswer
  rw [show ((0 : Nat) : Int) + 1 = ((1 : Nat) : Int) from rfl, hfirst, hend, nameOffset_zero]
    at hanswer
  simp [nullTerminator] at hanswer

/-- Such a property index is answered with -1, and names of that length with the empty one. -/
theorem not_answers_largeIndex_largeNames :
    (∃ t, largeIndexBuilder.build (fun _ => 0) = some t ∧
      ¬ Answers t largeIndexBuilder.packageName largeIndexBuilder.fields) ∧
    (∃ t, (nameBuilder (List.replicate (2 ^ 32) 65)).build (fun _ => 0) = some t ∧
      ¬ Answers t (List.replicate (2 ^ 32) 65) []) ∧
    ∃ t, (jsonNameBuilder (List.replicate (2 ^ 32) 65)).build (fun _ => 0) = some t ∧
      ¬ Answers t [] [⟨List.replicate (2 ^ 32) 65, 1, 0, 0⟩] := by
  refine ⟨?_, not_answers_nameBuilder _ List.length_replicate _,
    not_answers_jsonNameBuilder _ List.length_replicate _⟩
  obtain ⟨t, ht⟩ := Option.isSome_iff_exists.mp
    ((isSome_build largeIndexBuilder (fun _ => 0)).mpr (by decide))
  refine ⟨t, ht, fun h => ?_⟩
  have hanswer := h.propertyIndex 0 _ rfl
  rw [(build_holds ht).1.propertyIndex_eq rfl] at hanswer
  simp at hanswer

end QtGrpc.Protobuf.Ordering
