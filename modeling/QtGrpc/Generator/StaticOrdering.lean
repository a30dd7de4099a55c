import QtGrpc.Generator.OrderingData
import Mathlib.Data.List.Perm.Subperm

/-!
# The generated table and the runtime

The text that `printFieldsOrdering` prints denotes the table that the accessors of
`QProtobufPropertyOrdering` expect: the columns and the literal are read off the text, and together
they are the block of a table for the name of the message and the fields it generates.
-/

namespace QtGrpc.Generator

open QtGrpc.Protobuf.Ordering

variable (options : Options) (d : Descriptor)

/-! ## The columns -/

/-- The column of flags is read as these. -/
theorem run_printColumn_flags {r : CSource.Reader} (hstate : r.state = .code) :
    CSource.run r (printColumn options d fun entry => entry.fieldFlags) =
      { r with code := r.code ++ (d.generatedFields.map fun f =>
        (f.collectFieldFlags options).filter fun b => !CSource.isSpace b).flatMap (· ++ [44]) } := by
  have hfields : d.generatedFields.zipIdx.map (fun p =>
      ((uintEntry options d p).fieldFlags).filter fun b => !CSource.isSpace b) =
      d.generatedFields.map fun f =>
        (f.collectFieldFlags options).filter fun b => !CSource.isSpace b := by
    conv_rhs => rw [← List.zipIdx_map_fst 0 d.generatedFields, List.map_map]
    rfl
  rw [printColumn, run_lines (fun entry : UintVariables => entry.fieldFlags) (·.jsonName) _ ?_ ?_
    hstate]
  · rw [printUintData_eq, List.map_map, ← hfields]
    rfl
  · intro entry hentry
    rw [printUintData_eq] at hentry
    obtain ⟨p, -, rfl⟩ := List.mem_map.mp hentry
    exact all_collectFieldFlags options p.1
  · intro entry hentry
    rw [printUintData_eq] at hentry
    obtain ⟨p, -, rfl⟩ := List.mem_map.mp hentry
    exact noPair_escapeBlockComment _

/-- The numbers in front of the flags. -/
def leadingValues : List Nat :=
  let fields := d.generatedFields.zipIdx
  fields.map (fun p => jsonNamePosition d p.2) ++ [charDataSizeTotal d - 1] ++
    fields.map (fun p => p.1.number) ++ fields.map (fun p => propertyPosition options d p.2)

/-- The items of the columns. -/
def columnItems : List Bytes :=
  (leadingValues options d).map toText ++ d.generatedFields.map fun f =>
    (f.collectFieldFlags options).filter fun b => !CSource.isSpace b

/-- The reader skips the comment before the offsets. -/
theorem run_comment_offsets (r : CSource.Reader) (h : r.state = .code) :
    CSource.run r (ascii "// JSON name offsets:\n") = r :=
  CSource.run_line (show 10 ∉ ascii " JSON name offsets:" by decide) h

/-- The reader skips the comment before the field numbers. -/
theorem run_comment_numbers (r : CSource.Reader) (h : r.state = .code) :
    CSource.run r (ascii "// Field numbers:\n") = r :=
  CSource.run_line (show 10 ∉ ascii " Field numbers:" by decide) h

/-- The reader skips the comment before the property indices. -/
theorem run_comment_indices (r : CSource.Reader) (h : r.state = .code) :
    CSource.run r (ascii "// Property indices:\n") = r :=
  CSource.run_line (show 10 ∉ ascii " Property indices:" by decide) h

/-- The reader skips the comment before the flags. -/
theorem run_comment_flags (r : CSource.Reader) (h : r.state = .code) :
    CSource.run r (ascii "// Field flags:\n") = r :=
  CSource.run_line (show 10 ∉ ascii " Field flags:" by decide) h

/-- The block of the numbers is read column by column. -/
theorem run_printUintBlock :
    CSource.run {} (printUintBlock options d) =
      { code := (columnItems options d).flatMap (· ++ [44]) } := by
  have hmarker : ∀ r : CSource.Reader, r.state = .code →
      CSource.run r (uintDataTemplate (toText (charDataSizeTotal d - 1))
        (ascii "end-of-string-marker")) =
      { r with code := r.code ++ (toText (charDataSizeTotal d - 1) ++ [44]) } := by
    intro r hr
    rw [run_uintDataTemplate (all_toText _) (by simp [CSource.NoPair, ascii]) hr, filter_toText]
  rw [printUintBlock]
  simp only [CSource.run_append]
  rw [run_comment_offsets _ rfl, run_printColumn options d (·.jsonNameOffset) rfl, hmarker _ rfl,
    run_comment_numbers _ rfl, run_printColumn options d (·.fieldNumber) rfl,
    run_comment_indices _ rfl, run_printColumn options d (·.propertyIndex) rfl,
    run_comment_flags _ rfl, run_printColumn_flags options d rfl]
  simp [columnItems, leadingValues, uintEntry, List.flatMap_append]

/-- The numbers of the table are the leading ones and the flags. -/
theorem columnValues_eq : columnValues options d =
    leadingValues options d ++ d.generatedFields.map fun f => (f.fieldFlags options).toNat := by
  have hflags : d.generatedFields.zipIdx.map (fun p => (p.1.fieldFlags options).toNat) =
      d.generatedFields.map fun f => (f.fieldFlags options).toNat := by
    conv_rhs => rw [← List.zipIdx_map_fst 0 d.generatedFields, List.map_map]
    rfl
  rw [columnValues, hflags, leadingValues]

/-- The printed flags of every field are read as their value. -/
theorem mapM_itemValue_flags (fields : List FieldDescriptor) :
    (fields.map fun f => (f.collectFieldFlags options).filter fun b => !CSource.isSpace b).mapM
      itemValue = some (fields.map fun f => (f.fieldFlags options).toNat) := by
  induction fields with
  | nil => rfl
  | cons f fields ih =>
    rw [List.map_cons, List.mapM_cons, itemValue_collectFieldFlags, ih]
    rfl

/-- The block of the numbers denotes the columns. -/
theorem initializerValues_printUintBlock (width : Nat) :
    initializerValues (CSource.indent width true (printUintBlock options d)) =
      some (columnValues options d) := by
  refine initializerValues_indent width (run_printUintBlock options d) ?_ ?_
  · intro item hitem
    rcases List.mem_append.mp hitem with hnumber | hflags
    · obtain ⟨n, -, rfl⟩ := List.mem_map.mp hnumber
      exact noComma_toText n
    · obtain ⟨f, -, rfl⟩ := List.mem_map.mp hflags
      exact noComma_collectFieldFlags options f
  · rw [columnItems, List.mapM_append, mapM_itemValue_toText, mapM_itemValue_flags, columnValues_eq]
    rfl

/-! ## The literal -/

/-- The names of fields with the NUL behind each. -/
def namesOf (fields : List FieldDescriptor) : Bytes :=
  (fields.filter fun f => !f.isGroupField).flatMap fun f => f.jsonName ++ [0]

/-- A group has no name in the data. -/
theorem namesOf_cons_of_group {f : FieldDescriptor} (h : f.isGroupField = true)
    (fields : List FieldDescriptor) : namesOf (f :: fields) = namesOf fields := by
  simp [namesOf, h]

/-- The name of a field stands in the data, ended by a zero. -/
theorem namesOf_cons {f : FieldDescriptor} (h : f.isGroupField = false)
    (fields : List FieldDescriptor) :
    namesOf (f :: fields) = f.jsonName ++ 0 :: namesOf fields := by
  simp [namesOf, h]

/-- The text of a name and what follows. -/
theorem printNames_cons (emitted : Nat) {f : FieldDescriptor} (h : f.isGroupField = false)
    (fields : List FieldDescriptor) (rest : Bytes) :
    printNames emitted (f :: fields) ++ rest =
      (if emitted ≠ 0 ∧ emitted % 5 = 0 then [34, 10, 34]
        else if emitted ≠ 0 ∧ (escapeCString f.jsonName).head?.any CSource.isOctal then [34, 32, 34]
        else []) ++
      (escapeCString f.jsonName ++ 92 :: 48 :: (printNames (emitted + 1) fields ++ rest)) := by
  have hnewline : ascii "\"\n\"" = [34, 10, 34] := rfl
  have hblank : ascii "\" \"" = [34, 32, 34] := rfl
  have hnul : ascii "\\0" = [92, 48] := rfl
  rw [printNames, h, hnewline, hblank, hnul]
  simp

/-- Behind the NUL of a name the names that follow are read, whatever they begin with. -/
theorem run_printNames_succ (emitted : Nat) (fields : List FieldDescriptor) (rest : Bytes)
    {r : CSource.Reader} (hstate : r.state = .literal) :
    CSource.run r (92 :: 48 :: (printNames (emitted + 1) fields ++ 34 :: rest)) =
      CSource.run { r with chars := r.chars ++ 0 :: namesOf fields } (34 :: rest) := by
  induction fields generalizing emitted r with
  | nil =>
    rw [printNames, List.nil_append, CSource.run_nul (by decide) rest hstate]
    simp [CSource.Reader.emitChar, namesOf, hstate]
  | cons f fields ih =>
    cases hgroup : f.isGroupField with
    | true =>
      rw [printNames, if_pos hgroup, namesOf_cons_of_group hgroup]
      exact ih emitted hstate
    | false =>
      have hname : CSource.run (r.emitChar 0) (escapeCString f.jsonName ++
          92 :: 48 :: (printNames (emitted + 2) fields ++ 34 :: rest)) =
          CSource.run { r with chars := r.chars ++ 0 :: namesOf (f :: fields) } (34 :: rest) := by
        rw [run_escapeCString f.jsonName 92 _ rfl, ih (emitted + 1) rfl, namesOf_cons hgroup]
        simp [CSource.Reader.emitChar, hstate]
      rw [printNames_cons (emitted + 1) hgroup, ← hname]
      have hnul : ∀ (b : UInt8) (tail : Bytes), CSource.isOctal b = false →
          CSource.run r (92 :: 48 :: b :: tail) = CSource.run (r.emitChar 0) (b :: tail) :=
        fun b tail hb => CSource.run_nul hb tail hstate
      split
      · rw [List.cons_append, hnul 34 _ (by decide)]
        rfl
      · split
        · rw [List.cons_append, hnul 34 _ (by decide)]
          rfl
        · rename_i hfive hoctal
          have hhead : (escapeCString f.jsonName).head?.any CSource.isOctal = false := by
            simpa using hoctal
          rw [List.nil_append]
          cases htext : escapeCString f.jsonName with
          | nil => exact hnul 92 _ (by decide)
          | cons b tail =>
            rw [htext] at hhead
            exact hnul b _ hhead

/-- The names are read as they are, each with its NUL. -/
theorem run_printNames (fields : List FieldDescriptor) (rest : Bytes) {r : CSource.Reader}
    (hstate : r.state = .literal) :
    CSource.run r (printNames 0 fields ++ 34 :: rest) =
      CSource.run { r with chars := r.chars ++ namesOf fields } (34 :: rest) := by
  induction fields with
  | nil => simp [printNames, namesOf]
  | cons f fields ih =>
    cases hgroup : f.isGroupField with
    | true =>
      rw [printNames, if_pos hgroup, namesOf_cons_of_group hgroup]
      exact ih
    | false =>
      rw [printNames_cons 0 hgroup, if_neg (by simp), if_neg (by simp), List.nil_append,
        run_escapeCString f.jsonName 92 _ hstate, namesOf_cons hgroup]
      have hnames := run_printNames_succ 0 fields rest
        (r := { r with chars := r.chars ++ f.jsonName }) hstate
      refine hnames.trans ?_
      simp

/-- The characters of an identifier stand for themselves. -/
theorem isPlain_identifier (name : Identifier) : name.text.all CSource.isPlain := by
  rw [List.all_eq_true]
  intro b hb
  have hvalid := List.all_eq_true.mp name.valid b hb
  have hne : ∀ c : UInt8, (isAsciiAlnum c || c == 95) = false → b ≠ c := by
    rintro c hc rfl
    rw [hc] at hvalid
    exact Bool.false_ne_true hvalid
  simp [CSource.isPlain, hne 34 (by decide), hne 92 (by decide), hne 10 (by decide)]

/-- The full name of a type needs no escape in a literal. -/
theorem isPlain_fullName (t : TypeDescriptor) : t.fullName.all CSource.isPlain := by
  apply all_join (by decide)
  intro item hitem
  obtain ⟨name, -, rfl⟩ := List.mem_map.mp hitem
  exact isPlain_identifier name

/-- The literal denotes the name of the message and those of the fields. -/
theorem literalChars_printCharData (width : Nat) :
    literalChars (CSource.indent width true (printCharData d)) =
      some (d.type.fullName ++ 0 :: namesOf d.fields) := by
  have hopen : CSource.run {} (ascii "// char_data\n" ++ ascii "/* metadata char_data: */\n\"") =
      { state := .literal } := by decide
  have hmiddle : ∀ chars : Bytes, CSource.run { state := .literal, chars }
      (ascii "\\0\" /* = full message name */\n" ++ ascii "/* field char_data: */\n\"") =
      { state := .literal, chars := chars ++ [0] } := by
    intro chars
    have htext : ascii "\\0\" /* = full message name */\n" ++ ascii "/* field char_data: */\n\"" =
        92 :: 48 :: 34 :: ([32, 47, 42] ++ ((ascii " = full message name" ++ [32, 42, 47]) ++
          ([10, 47, 42] ++ ((ascii " field char_data:" ++ [32, 42, 47]) ++ [10, 34])))) := by decide
    rw [htext, CSource.run_nul (by decide) _ rfl, CSource.run_cons, CSource.run_append,
      CSource.run_append]
    rw [CSource.run_block_close (by simp [CSource.NoPair, ascii]) rfl, CSource.run_append,
      CSource.run_append, CSource.run_block_close (by simp [CSource.NoPair, ascii]) rfl]
    rfl
  have hrun : CSource.run {} (printCharData d) =
      { chars := d.type.fullName ++ 0 :: namesOf d.fields } := by
    have htext : printCharData d =
        (ascii "// char_data\n" ++ ascii "/* metadata char_data: */\n\"") ++ (d.type.fullName ++
          ((ascii "\\0\" /* = full message name */\n" ++ ascii "/* field char_data: */\n\"") ++
            (printNames 0 d.fields ++ 34 :: [10]))) := by
      simp only [printCharData, List.append_assoc]
      rfl
    rw [htext, CSource.run_append, hopen, CSource.run_append,
      CSource.run_plain (isPlain_fullName d.type) rfl, CSource.run_append, List.nil_append, hmiddle,
      run_printNames d.fields [10] rfl]
    simp [CSource.step, CSource.stepLiteral, CSource.stepCode, CSource.Reader.go, CSource.isSpace]
  rw [literalChars, CSource.denote_indent, CSource.denote, hrun]
  rfl

/-! ## The block of the table -/

/-- The numbers of different fields differ and lie in a range, so there are not more of them. -/
theorem length_generatedFields_le : d.generatedFields.length ≤ fieldMaxCount := by
  have hsubset : d.generatedFields.map (·.number) ⊆ List.range' 1 536870911 := by
    intro n hn
    obtain ⟨f, hf, rfl⟩ := List.mem_map.mp hn
    obtain ⟨hlow, hhigh⟩ := d.numbers_bound f (List.mem_of_mem_filter hf)
    rw [List.mem_range'_1]
    omega
  have hlength := (List.subperm_of_subset d.numbers_generatedFields hsubset).length_le
  rw [List.length_map, List.length_range'] at hlength
  exact hlength

/-- A field has at most two properties. -/
theorem length_printFieldProperties_le (f : FieldDescriptor) :
    (printFieldProperties options d f).length ≤ 2 := by
  rw [printFieldProperties]
  cases f.isOneofField options <;> cases f.isOptionalField options <;> cases f.isPureMessage <;>
    cases f.isRepeatedMessage <;> cases f.isRepeated <;> cases f.isMap <;> simp

/-- No field has more than two properties. -/
theorem propertyPosition_le (i : Nat) :
    propertyPosition options d i ≤ 2 * d.generatedFields.length := by
  have hsum : ∀ fields : List FieldDescriptor,
      (fields.map fun f => (printFieldProperties options d f).length).sum ≤ 2 * fields.length := by
    intro fields
    induction fields with
    | nil => simp
    | cons f fields ih =>
      have hf := length_printFieldProperties_le options d f
      rw [List.map_cons, List.sum_cons, List.length_cons]
      omega
  have htake := hsum (d.generatedFields.take i)
  have hlength := List.length_take_le' i d.generatedFields
  rw [propertyPosition]
  omega

/-- The fields of the table have the JSON names of the generated ones. -/
theorem map_jsonName_orderingFields :
    (orderingFields options d).map (·.jsonName) = d.generatedFields.map (·.jsonName) := by
  conv_rhs => rw [← List.zipIdx_map_fst 0 d.generatedFields, List.map_map]
  rw [orderingFields, List.map_map]
  rfl

/-- The table has one field for each generated one. -/
theorem length_orderingFields : (orderingFields options d).length = d.generatedFields.length := by
  rw [orderingFields, List.length_map, List.length_zipIdx]

/-- A generated field is in the table at its own place. -/
theorem orderingFields_getElem? {i : Nat} {f : FieldDescriptor} (h : d.generatedFields[i]? = some f) :
    (orderingFields options d)[i]? = some (orderingField options d (f, i)) := by
  rw [orderingFields, List.getElem?_map, List.getElem?_zipIdx, h]
  simp

/-- The names of a list of fields have the lengths of the names and a NUL each. -/
theorem length_jsonNames_eq (fields : List FieldDefinition) :
    (jsonNames fields).length = ((fields.map (·.jsonName)).map fun name => name.length + 1).sum := by
  induction fields with
  | nil => rfl
  | cons f fields ih =>
    rw [jsonNames_cons, List.length_append, List.length_cons, ih]
    simp only [List.map_cons, List.sum_cons]
    omega

/-- The offsets that are printed are those of the names. -/
theorem nameOffset_orderingFields (i : Nat) :
    nameOffset d.type.fullName (orderingFields options d) i = jsonNamePosition d i := by
  rw [nameOffset, length_jsonNames_eq, List.map_take, map_jsonName_orderingFields, ← List.map_take,
    List.map_map]
  rfl

/-- The names of the table are the names in the data. -/
theorem jsonNames_orderingFields : jsonNames (orderingFields options d) = namesOf d.fields := by
  have hnames : jsonNames (orderingFields options d) =
      ((orderingFields options d).map (·.jsonName)).flatMap (· ++ [0]) := by
    rw [jsonNames, List.flatMap_map]
  rw [hnames, map_jsonName_orderingFields, List.flatMap_map]
  rfl

/-- The size of the data is that of the names and the last zero. -/
theorem charDataSize_eq : charDataSize d = (namesOf d.fields).length + 1 := by
  have hfold : ∀ (fields : List FieldDescriptor) (size : Nat),
      fields.foldl (fun size f =>
        if f.isGroupField then size else size + (f.jsonName.length + 1)) size =
        size + (namesOf fields).length := by
    intro fields
    induction fields with
    | nil => simp [namesOf]
    | cons f fields ih =>
      intro size
      rw [List.foldl_cons, ih]
      cases hgroup : f.isGroupField with
      | true =>
        rw [namesOf_cons_of_group hgroup]
        rfl
      | false =>
        rw [namesOf_cons hgroup, List.length_append, List.length_cons]
        change size + (f.jsonName.length + 1) + _ = _
        omega
  rw [charDataSize, hfold, Nat.zero_add]

/-- The size of the characters is that of the literal with its NUL. -/
theorem charDataSizeTotal_eq :
    charDataSizeTotal d = (d.type.fullName ++ 0 :: namesOf d.fields).length + 1 := by
  rw [charDataSizeTotal, charDataSize_eq, metaCharDataSize, List.length_append, List.length_cons]
  omega

/-- The marker is the offset behind the last name. -/
theorem charDataSizeTotal_sub : charDataSizeTotal d - 1 =
    nameOffset d.type.fullName (orderingFields options d) (orderingFields options d).length := by
  rw [charDataSizeTotal_eq, nameOffset, List.take_length, jsonNames_orderingFields,
    List.length_append, List.length_cons, nullTerminator]
  omega

/-- The numbers of the columns are the words of the table. -/
theorem map_columnValues : (columnValues options d).map (BitVec.ofNat 32) =
    columnWords d.type.fullName (orderingFields options d) := by
  have hoffsets : d.generatedFields.zipIdx.map (fun p => jsonNamePosition d p.2) =
      (List.range d.generatedFields.length).map
        (nameOffset d.type.fullName (orderingFields options d)) := by
    have hpositions : (fun p : FieldDescriptor × Nat => jsonNamePosition d p.2) =
        nameOffset d.type.fullName (orderingFields options d) ∘ Prod.snd := by
      funext p
      exact (nameOffset_orderingFields options d p.2).symm
    rw [hpositions, ← List.map_map, List.zipIdx_map_snd, List.range_eq_range']
  have hflags : ∀ bits : BitVec 32, BitVec.ofNat 32 bits.toNat = bits := fun bits => by simp
  rw [columnValues, hoffsets, columnWords, charDataSizeTotal_sub options d, List.range_succ,
    length_orderingFields, orderingFields]
  have hcolumn : d.generatedFields.zipIdx.map (fun p =>
      BitVec.ofNat 32 (p.1.fieldFlags options).toNat) =
      d.generatedFields.zipIdx.map fun p => p.1.fieldFlags options :=
    List.map_congr_left fun p _ => hflags _
  simp only [List.map_append, List.map_map, List.map_cons, List.map_nil, List.append_assoc,
    Function.comp_def, hcolumn, orderingField]

/-- Four columns and the last offset are printed. -/
theorem length_columnValues : (columnValues options d).length = d.generatedFields.length * 4 + 1 := by
  simp only [columnValues, List.length_append, List.length_map, List.length_zipIdx,
    List.length_singleton]
  omega

/-- The last offset is the end of the names. -/
theorem charDataSizeTotal_sub_eq :
    charDataSizeTotal d - 1 = jsonNamePosition d d.generatedFields.length := by
  rw [charDataSizeTotal_sub {} d, length_orderingFields, nameOffset_orderingFields]

/-- Every name begins before the end of the names. -/
theorem jsonNamePosition_le (i : Nat) :
    jsonNamePosition d i ≤ jsonNamePosition d d.generatedFields.length := by
  have hle := nameOffset_le d.type.fullName (orderingFields {} d) i
  rwa [length_orderingFields, nameOffset_orderingFields, nameOffset_orderingFields] at hle

/-- The numbers fit an `uint` if the names end within its range. -/
theorem all_values_lt : (headerValues d ++ columnValues options d).all (· < 2 ^ 32) = true ↔
    jsonNamePosition d d.generatedFields.length < 2 ^ 32 := by
  have hmax : fieldMaxCount = 536870911 := rfl
  have hcount := length_generatedFields_le d
  have hmarker := charDataSizeTotal_sub_eq d
  constructor
  · intro h
    have hmem : charDataSizeTotal d - 1 ∈ headerValues d ++ columnValues options d := by
      simp [columnValues]
    have hlt := List.all_eq_true.mp h _ hmem
    rw [hmarker] at hlt
    simpa using hlt
  · intro hlt
    have hname : d.type.fullName.length < jsonNamePosition d 0 := by
      rw [jsonNamePosition, metaCharDataSize]
      omega
    have hfirst := jsonNamePosition_le d 0
    rw [List.all_eq_true]
    intro n hn
    rw [decide_eq_true_eq]
    rcases List.mem_append.mp hn with hheader | hcolumn
    · simp only [headerValues, List.mem_cons, List.not_mem_nil, or_false] at hheader
      omega
    · simp only [columnValues, List.mem_append, List.mem_map, List.mem_singleton] at hcolumn
      rcases hcolumn with (((⟨p, -, rfl⟩ | rfl) | ⟨p, hp, rfl⟩) | ⟨p, -, rfl⟩) | ⟨p, -, rfl⟩
      · exact (jsonNamePosition_le d p.2).trans_lt hlt
      · exact hmarker ▸ hlt
      · have hfield : p.1 ∈ d.generatedFields := (List.mem_zipIdx' hp).2 ▸ List.getElem_mem _
        have hbound := (d.numbers_bound p.1 (List.mem_of_mem_filter hfield)).2
        omega
      · have hbound := propertyPosition_le options d p.2
        omega
      · exact BitVec.isLt _

/-- The text denotes the block of a table, unless a number does not fit. -/
theorem staticOrdering_eq (width : Nat) : staticOrdering options d width =
    if jsonNamePosition d d.generatedFields.length < 2 ^ 32 then
      some (layOut d.type.fullName (orderingFields options d) fun _ => 0)
    else none := by
  have hsizes : decimalValue (uintSize d) = some (columnValues options d).length ∧
      decimalValue (charSize d) =
        some ((d.type.fullName ++ 0 :: namesOf d.fields).length + 1) := by
    rw [uintSize, charSize, decimalValue_toText, decimalValue_toText, length_columnValues,
      d.generatedFieldCount_eq, charDataSizeTotal_eq]
    exact ⟨rfl, rfl⟩
  have hlt := all_values_lt options d
  have hchars : d.type.fullName ++ 0 :: namesOf d.fields ++ [0] =
      charTable d.type.fullName (orderingFields options d) := by
    rw [charTable, jsonNames_orderingFields]
    simp
  rw [staticOrdering, initializerValues_printHeader, initializerValues_printUintBlock,
    literalChars_printCharData]
  rw [headerValues] at hlt ⊢
  simp only [hsizes, and_true, hlt, map_columnValues, hchars]
  rw [layOut, tableHeader, length_orderingFields, length_columnWords, length_columnValues,
    length_orderingFields]
  rfl

/-- The accessors of a table answer a message descriptor. -/
structure AnswersDescriptor (t : QProtobufPropertyOrdering) : Prop where
  messageFullName : t.messageFullName = d.type.fullName
  fieldCount : t.fieldCount = d.generatedFields.length
  jsonName : ∀ (i : Nat) f, d.generatedFields[i]? = some f → t.jsonName i = f.jsonName
  fieldNumber : ∀ (i : Nat) f, d.generatedFields[i]? = some f → t.fieldNumber i = f.number
  propertyIndex : ∀ (i : Nat) f, d.generatedFields[i]? = some f →
    t.propertyIndex i = propertyPosition options d i
  fieldFlags : ∀ (i : Nat) f, d.generatedFields[i]? = some f →
    t.fieldFlags i = f.fieldFlags options
  indexOfFieldNumber : ∀ (i : Nat) f, d.generatedFields[i]? = some f →
    t.indexOfFieldNumber f.number = i
  indexOfFieldNumber_absent : ∀ n : Int, n < 2 ^ 31 →
    (∀ f ∈ d.generatedFields, (f.number : Int) ≠ n) → t.indexOfFieldNumber n = -1

/-- A field number is kept as a positive 32-bit number. -/
theorem toNat_fieldNumber {p : FieldDescriptor × Nat} (h : p.1 ∈ d.generatedFields) :
    (orderingField options d p).fieldNumber.toNat = p.1.number ∧ 0 < p.1.number ∧
      p.1.number < 2 ^ 31 := by
  obtain ⟨hlow, hhigh⟩ := d.numbers_bound p.1 (List.mem_of_mem_filter h)
  rw [orderingField, BitVec.toNat_ofNat]
  omega

/-- A property index is kept as a 32-bit number. -/
theorem toNat_propertyIndex (p : FieldDescriptor × Nat) :
    (orderingField options d p).propertyIndex.toNat = propertyPosition options d p.2 ∧
      propertyPosition options d p.2 < 2 ^ 31 := by
  have hmax : fieldMaxCount = 536870911 := rfl
  have hcount := length_generatedFields_le d
  have hbound := propertyPosition_le options d p.2
  rw [orderingField, BitVec.toNat_ofNat]
  omega

/-- Every field of the table stands for a generated one. -/
theorem mem_orderingFields {field : FieldDefinition} (h : field ∈ orderingFields options d) :
    ∃ p : FieldDescriptor × Nat, p.1 ∈ d.generatedFields ∧ orderingField options d p = field := by
  obtain ⟨p, hp, rfl⟩ := List.mem_map.mp h
  exact ⟨p, (List.mem_zipIdx' hp).2 ▸ List.getElem_mem _, rfl⟩

/-- The fields have their numbers in the table, too. -/
theorem map_toNat_orderingFields :
    (orderingFields options d).map (·.fieldNumber.toNat) = d.generatedFields.map (·.number) := by
  conv_rhs => rw [← List.zipIdx_map_fst 0 d.generatedFields, List.map_map]
  rw [orderingFields, List.map_map]
  refine List.map_congr_left fun p hp => ?_
  exact (toNat_fieldNumber options d ((List.mem_zipIdx' hp).2 ▸ List.getElem_mem _)).1

/-- No field number occurs twice in the table. -/
theorem numbers_orderingFields : ((orderingFields options d).map (·.fieldNumber)).Nodup := by
  have hnumbers := d.numbers_generatedFields
  rw [← map_toNat_orderingFields options d] at hnumbers
  have hcomp : (orderingFields options d).map (·.fieldNumber.toNat) =
      ((orderingFields options d).map (·.fieldNumber)).map BitVec.toNat := by
    rw [List.map_map]
    rfl
  rw [hcomp] at hnumbers
  exact List.Nodup.of_map _ hnumbers

/-- A table that is laid out for a message answers its descriptor. -/
theorem answersDescriptor_layOut
    (hfits : jsonNamePosition d d.generatedFields.length < 2 ^ 32) (memory : Memory) :
    AnswersDescriptor options d (layOut d.type.fullName (orderingFields options d) memory) := by
  have hholds := layOut_holds d.type.fullName (orderingFields options d) memory
    (by rw [length_orderingFields]; exact length_generatedFields_le d)
  have hrange : ∀ field ∈ orderingFields options d,
      0 < field.fieldNumber.toNat ∧ field.fieldNumber.toNat < 2 ^ 31 := by
    intro field hfield
    obtain ⟨p, hp, rfl⟩ := mem_orderingFields options d hfield
    rw [(toNat_fieldNumber options d hp).1]
    exact (toNat_fieldNumber options d hp).2
  have hindex : ∀ field ∈ orderingFields options d, field.propertyIndex.toNat < 2 ^ 31 := by
    intro field hfield
    obtain ⟨p, -, rfl⟩ := mem_orderingFields options d hfield
    rw [(toNat_propertyIndex options d p).1]
    exact (toNat_propertyIndex options d p).2
  have hanswers := (hholds.answersWithinWidth (numbers_orderingFields options d) hrange).answers
    (by rwa [length_orderingFields, nameOffset_orderingFields]) hindex
  have hnumber : ∀ (i : Nat) f, d.generatedFields[i]? = some f →
      (layOut d.type.fullName (orderingFields options d) memory).fieldNumber i = f.number := by
    intro i f hf
    rw [hanswers.fieldNumber i _ (orderingFields_getElem? options d hf),
      (toNat_fieldNumber options d (p := (f, i)) (List.mem_of_getElem? hf)).1]
  refine ⟨hanswers.messageFullName, ?_, ?_, hnumber, ?_, ?_, ?_, ?_⟩
  · rw [hanswers.fieldCount, length_orderingFields]
  · exact fun i f hf => hanswers.jsonName i _ (orderingFields_getElem? options d hf)
  · intro i f hf
    rw [hanswers.propertyIndex i _ (orderingFields_getElem? options d hf),
      (toNat_propertyIndex options d (f, i)).1]
  · exact fun i f hf => hanswers.fieldFlags i _ (orderingFields_getElem? options d hf)
  · intro i f hf
    rw [← hnumber i f hf]
    exact hanswers.indexOfFieldNumber i _ (orderingFields_getElem? options d hf)
  · intro n hn habsent
    apply hanswers.indexOfFieldNumber_absent n hn
    intro field hfield
    obtain ⟨p, hp, rfl⟩ := mem_orderingFields options d hfield
    rw [(toNat_fieldNumber options d hp).1]
    exact habsent p.1 hp

/-! ## The printed text -/

/-- Numbers and characters select a field at a position. -/
structure Selects (words : List Nat) (chars : Bytes) (i : Nat) (f : FieldDescriptor) : Prop where
  jsonName : ∃ start stop, words[i]? = some start ∧ words[i + 1]? = some stop ∧
    (chars.drop start).take (stop - 1 - start) = f.jsonName
  number : words[d.generatedFields.length * 1 + 1 + i]? = some f.number
  propertyIndex : words[d.generatedFields.length * 2 + 1 + i]? = some (propertyPosition options d i)
  flags : words[d.generatedFields.length * 3 + 1 + i]? = some (f.fieldFlags options).toNat

variable {d} in
/-- The entries of the first column. -/
theorem columnValues_offset {i : Nat} (h : i ≤ d.generatedFields.length) :
    (columnValues options d)[i]? = some (jsonNamePosition d i) := by
  have hoffsets : (d.generatedFields.zipIdx.map fun p => jsonNamePosition d p.2).length =
      d.generatedFields.length := by
    rw [List.length_map, List.length_zipIdx]
  rw [columnValues, List.append_assoc, List.append_assoc, List.append_assoc]
  rcases Nat.lt_or_eq_of_le h with hlt | rfl
  · rw [List.getElem?_append_left (by omega), List.getElem?_map, List.getElem?_zipIdx,
      List.getElem?_eq_getElem hlt]
    simp
  · rw [List.getElem?_append_right (by omega), hoffsets, Nat.sub_self, charDataSizeTotal_sub_eq]
    rfl

variable {d} in
/-- The name of a field in the literal. -/
theorem take_drop_names {i : Nat} {f : FieldDescriptor} (h : d.generatedFields[i]? = some f) :
    ((d.type.fullName ++ 0 :: namesOf d.fields).drop (jsonNamePosition d i)).take
      (jsonNamePosition d (i + 1) - 1 - jsonNamePosition d i) = f.jsonName := by
  have hfield := orderingFields_getElem? {} d h
  have hname : (orderingField {} d (f, i)).jsonName = f.jsonName := rfl
  have hsucc := nameOffset_succ d.type.fullName hfield
  have hdrop := drop_charTable d.type.fullName hfield
  rw [hname] at hsucc hdrop
  rw [nameOffset_orderingFields, nameOffset_orderingFields] at hsucc
  have hlength : jsonNamePosition d (i + 1) - 1 - jsonNamePosition d i = f.jsonName.length := by
    rw [hsucc, nullTerminator]
    omega
  have hchars : charTable d.type.fullName (orderingFields {} d) =
      (d.type.fullName ++ 0 :: namesOf d.fields) ++ [0] := by
    rw [charTable, jsonNames_orderingFields]
    simp
  rw [nameOffset_orderingFields, hchars] at hdrop
  have htake := congrArg (List.take f.jsonName.length) hdrop
  have hend : jsonNamePosition d i + f.jsonName.length ≤
      (d.type.fullName ++ 0 :: namesOf d.fields).length := by
    have hlengths := congrArg List.length hdrop
    simp only [List.length_drop, List.length_append, List.length_cons, List.length_nil] at hlengths ⊢
    omega
  rw [List.drop_append_of_le_length (by omega), List.take_append_of_le_length (by
    rw [List.length_drop]
    omega)] at htake
  rw [hlength, htake]
  exact List.take_left

/-- The entries of a field. -/
theorem columnValues_selects {i : Nat} {f : FieldDescriptor} (h : d.generatedFields[i]? = some f) :
    Selects options d (columnValues options d) (d.type.fullName ++ 0 :: namesOf d.fields) i f := by
  obtain ⟨hi, -⟩ := List.getElem?_eq_some_iff.mp h
  have hzip : d.generatedFields.zipIdx[i]? = some (f, i) := by
    rw [List.getElem?_zipIdx, h]
    simp
  refine ⟨⟨_, _, columnValues_offset options hi.le, columnValues_offset options hi,
    take_drop_names h⟩, ?_, ?_, ?_⟩
  · rw [columnValues, List.append_assoc, List.append_assoc,
      List.getElem?_append_right (by simp), List.getElem?_append_left (by simp; omega)]
    simp [hzip]
  · rw [columnValues, List.append_assoc, List.getElem?_append_right (by simp; omega),
      List.getElem?_append_left (by simp; omega), List.getElem?_map]
    simp only [List.length_append, List.length_map, List.length_zipIdx, List.length_singleton]
    rw [show d.generatedFields.length * 2 + 1 + i -
      (d.generatedFields.length + 1 + d.generatedFields.length) = i by omega, hzip]
    rfl
  · rw [columnValues, List.getElem?_append_right (by simp; omega), List.getElem?_map]
    simp only [List.length_append, List.length_map, List.length_zipIdx, List.length_singleton]
    rw [show d.generatedFields.length * 3 + 1 + i -
      (d.generatedFields.length + 1 + d.generatedFields.length + d.generatedFields.length) = i by
        omega, hzip]
    rfl

/-- What `printFieldsOrdering` prints denotes the counts and offsets of the columns, the columns of
the generated fields and the names, and the table that the compiler makes of it is the one the
accessors expect; the compiler only rejects names that no 32 bits can address. -/
theorem printFieldsOrdering_denotes (width : Nat) :
    ∃ words, initializerValues (CSource.indent width true (printUintBlock options d)) = some words ∧
      initializerValues (CSource.indent width true (printHeader d)) = some (headerValues d) ∧
      literalChars (CSource.indent width true (printCharData d)) =
        some (d.type.fullName ++ 0 :: d.generatedFields.flatMap fun f => f.jsonName ++ [0]) ∧
      words.length = d.generatedFields.length * 4 + 1 ∧
      (∀ (i : Nat) f, d.generatedFields[i]? = some f → Selects options d words
        (d.type.fullName ++ 0 :: d.generatedFields.flatMap fun f => f.jsonName ++ [0]) i f) ∧
      (∀ t, staticOrdering options d width = some t → AnswersDescriptor options d t) ∧
      ((staticOrdering options d width).isSome ↔
        jsonNamePosition d d.generatedFields.length < 2 ^ 32) := by
  refine ⟨columnValues options d, initializerValues_printUintBlock options d width,
    initializerValues_printHeader d width, literalChars_printCharData d width,
    length_columnValues options d, fun i f => columnValues_selects options d, ?_, ?_⟩
  · intro t ht
    rw [staticOrdering_eq] at ht
    split at ht
    · rename_i hfits
      cases ht
      exact answersDescriptor_layOut options d hfits _
    · cases ht
  · rw [staticOrdering_eq]
    split <;> simp_all

end QtGrpc.Generator
