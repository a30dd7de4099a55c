import QtGrpc.Generator.Properties
import QtGrpc.Protobuf.Ordering.Table

/-!
# Generated ordering data

`MessageDefinitionPrinter::printFieldsOrdering` prints the property ordering table of a message as
C++ source: a header and an array of numbers whose comments name the fields, and a string literal.
What the compiler makes of this text is read off it by the rules of the language.
-/

namespace QtGrpc.Generator

open QtGrpc.Protobuf.Ordering (QProtobufPropertyOrdering FieldDefinition)

variable (options : Options) (d : Descriptor)

/-- `CommonTemplates::…UintDataTemplate`: a number and the field it belongs to. -/
def uintDataTemplate (value jsonName : Bytes) : Bytes :=
  value ++ ascii ", /* = " ++ jsonName ++ ascii " */\n"

/-- `MessageDefinitionPrinter::charDataSize`. -/
def charDataSize : Nat :=
  d.fields.foldl (fun size f => if f.isGroupField then size else size + (f.jsonName.length + 1)) 0 + 1

/-- `char_dataSizeTotal`. -/
def charDataSizeTotal : Nat := metaCharDataSize d + 1 + charDataSize d

/-- The values of the header and what its comments call them. -/
def headerLines : List (Bytes × Bytes) :=
  let fieldCount := d.generatedFieldCount
  [(toText 0, ascii "version"),
    (toText fieldCount, ascii "num fields"),
    (toText (fieldCount * 1 + 1), ascii "field number offset"),
    (toText (fieldCount * 2 + 1), ascii "property index offset"),
    (toText (fieldCount * 3 + 1), ascii "field flags offset"),
    (toText (metaCharDataSize d), ascii "message full name length")]

/-- The header that `PropertyOrderingDataOpeningTemplate` ends with. -/
def printHeader : Bytes :=
  (headerLines d).flatMap fun line => uintDataTemplate (ascii "        " ++ line.1) line.2

/-- `uint_size`: the declared size of the array of numbers. -/
def uintSize : Bytes := toText (d.generatedFieldCount * 4 + 1)

/-- `char_size`: the declared size of the array of characters. -/
def charSize : Bytes := toText (charDataSizeTotal d)

/-- What `printUintData` prints for one column. -/
def printColumn (value : UintVariables → Bytes) : Bytes :=
  (printUintData options d).flatMap fun entry => uintDataTemplate (value entry) entry.jsonName

/-- The numbers `printFieldsOrdering` prints between the braces. -/
def printUintBlock : Bytes :=
  ascii "// JSON name offsets:\n" ++ printColumn options d (fun entry => toText entry.jsonNameOffset) ++
  uintDataTemplate (toText (charDataSizeTotal d - 1)) (ascii "end-of-string-marker") ++
  ascii "// Field numbers:\n" ++ printColumn options d (fun entry => toText entry.fieldNumber) ++
  ascii "// Property indices:\n" ++ printColumn options d (fun entry => toText entry.propertyIndex) ++
  ascii "// Field flags:\n" ++ printColumn options d (fun entry => entry.fieldFlags)

/-- The loop of `printCharData`. -/
def printNames : (emitted : Nat) → List FieldDescriptor → Bytes
  | _, [] => []
  | emitted, f :: fields =>
    if f.isGroupField then printNames emitted fields
    else
      let jsonName := escapeCString f.jsonName
      (if emitted ≠ 0 ∧ emitted % 5 = 0 then ascii "\"\n\""
        else if emitted ≠ 0 ∧ jsonName.head?.any CSource.isOctal then ascii "\" \""
        else []) ++
      jsonName ++ ascii "\\0" ++ printNames (emitted + 1) fields

/-- `MessageDefinitionPrinter::printCharData`. -/
def printCharData : Bytes :=
  ascii "// char_data\n" ++ ascii "/* metadata char_data: */\n\"" ++ d.type.fullName ++
    ascii "\\0\" /* = full message name */\n" ++ ascii "/* field char_data: */\n\"" ++
    printNames 0 d.fields ++ ascii "\"\n"

/-! ## What the text denotes -/

/-- The items of an initializer list; a comma may stand behind the last one. -/
def splitItems (separator : UInt8) (current : Bytes) : Bytes → List Bytes
  | [] => if current = [] then [] else [current]
  | b :: code =>
    if b = separator then current :: splitItems separator [] code
    else splitItems separator (current ++ [b]) code

/-- A decimal literal. -/
def decimalValue (item : Bytes) : Option Nat :=
  if item ≠ [] ∧ item.all (fun b => 48 ≤ b && b ≤ 57) then
    some (Nat.ofDigitChars 10 (item.map fun b => Char.ofNat b.toNat) 0)
  else none

/-- The flags with their qualified names. -/
def flagTable : List (Bytes × BitVec 32) :=
  [FieldFlag.noFlags, .nonPacked, .oneof, .optional, .explicitPresence, .message, .enum, .repeated,
    .map, .required].map fun flag =>
      (ascii "QtProtobufPrivate::FieldFlag::" ++ flag.name, flag.value)

/-- A conversion of flags to a number. -/
def flagsValue (item : Bytes) : Option Nat :=
  if (ascii "uint(").isPrefixOf item ∧ item.getLast? = some 41 then
    ((splitItems 124 [] (item.drop 5).dropLast).mapM fun flag => flagTable.lookup flag).map
      fun values => (values.foldl (· ||| ·) 0).toNat
  else none

/-- A constant expression of the table. -/
def itemValue (item : Bytes) : Option Nat := (decimalValue item).or (flagsValue item)

/-- The values of an initializer list. -/
def initializerValues (text : Bytes) : Option (List Nat) :=
  match CSource.denote text with
  | some (code, []) => (splitItems 44 [] code).mapM itemValue
  | _ => none

/-- The characters of a string literal. -/
def literalChars (text : Bytes) : Option Bytes :=
  match CSource.denote text with
  | some ([], chars) => some chars
  | _ => none

/-- The table that the compiler makes of the text, unless it rejects a number or a size. -/
def staticOrdering (width : Nat) : Option QProtobufPropertyOrdering :=
  match initializerValues (CSource.indent width true (printHeader d)),
    initializerValues (CSource.indent width true (printUintBlock options d)),
    literalChars (CSource.indent width true (printCharData d)) with
  | some [version, numFields, numberOffset, indexOffset, flagsOffset, nameSize], some words,
    some chars =>
    if ([version, numFields, numberOffset, indexOffset, flagsOffset, nameSize] ++ words).all
          (· < 2 ^ 32) ∧
        decimalValue (uintSize d) = some words.length ∧
        decimalValue (charSize d) = some (chars.length + 1) then
      some {
        data := {
          version := BitVec.ofNat 32 version, numFields := BitVec.ofNat 32 numFields,
          fieldNumberOffset := BitVec.ofNat 32 numberOffset,
          propertyIndexOffset := BitVec.ofNat 32 indexOffset,
          flagsOffset := BitVec.ofNat 32 flagsOffset,
          fullPackageNameSize := BitVec.ofNat 32 nameSize }
        memory := (Memory.writeWords (fun _ => 0) QProtobufPropertyOrdering.uintData
          (words.map (BitVec.ofNat 32))).write
            (QProtobufPropertyOrdering.uintData + 4 * words.length) (chars ++ [0]) }
    else none
  | _, _, _ => none

/-! ## Items -/

section

variable {separator : UInt8}

/-- The text before a separator is an item of its own. -/
theorem splitItems_append {item : Bytes} (h : separator ∉ item) (current rest : Bytes) :
    splitItems separator current (item ++ separator :: rest) =
      (current ++ item) :: splitItems separator [] rest := by
  induction item generalizing current with
  | nil => simp [splitItems]
  | cons b item ih =>
    have hb : b ≠ separator := fun heq => h (heq ▸ List.mem_cons_self)
    rw [List.cons_append, splitItems, if_neg hb, ih fun hmem => h (List.mem_cons_of_mem b hmem)]
    simp

/-- Items with a separator behind each. -/
theorem splitItems_terminated {items : List Bytes} (h : ∀ item ∈ items, separator ∉ item) :
    splitItems separator [] (items.flatMap (· ++ [separator])) = items := by
  induction items with
  | nil => rfl
  | cons item items ih =>
    rw [List.flatMap_cons, List.append_assoc, List.singleton_append,
      splitItems_append (h item List.mem_cons_self),
      ih fun item hitem => h item (List.mem_cons_of_mem _ hitem), List.nil_append]

/-- The text behind the last separator is an item, unless it is empty. -/
theorem splitItems_last {item : Bytes} (h : separator ∉ item) {current : Bytes}
    (hne : current ++ item ≠ []) : splitItems separator current item = [current ++ item] := by
  induction item generalizing current with
  | nil =>
    rw [List.append_nil] at hne
    rw [splitItems, if_neg hne, List.append_nil]
  | cons b item ih =>
    have hb : b ≠ separator := fun heq => h (heq ▸ List.mem_cons_self)
    rw [splitItems, if_neg hb, ih (fun hmem => h (List.mem_cons_of_mem b hmem)) (by simp)]
    simp

/-- Items with a separator between them. -/
theorem splitItems_join {items : List Bytes} (h : ∀ item ∈ items, item ≠ [] ∧ separator ∉ item) :
    splitItems separator [] (join [separator] items) = items := by
  induction items with
  | nil => rfl
  | cons item items ih =>
    obtain ⟨hne, hitem⟩ := h item List.mem_cons_self
    cases items with
    | nil =>
      rw [join, splitItems_last hitem (by simpa using hne), List.nil_append]
    | cons next items =>
      rw [join_cons_cons, List.append_assoc, List.singleton_append, splitItems_append hitem,
        ih fun item hitem => h item (List.mem_cons_of_mem _ hitem), List.nil_append]

end

/-! ## Numbers and flags -/

/-- A number is printed by its decimal digits. -/
theorem toText_eq (n : Nat) : toText n = (Nat.toDigits 10 n).map fun c => UInt8.ofNat c.toNat := by
  rw [toText, ascii, Nat.toString_eq_ofList_toDigits, String.toList_ofList]

/-- A digit is one as a byte, and the same character. -/
theorem toNat_ofNat_digit {c : Char} (h : c.isDigit) :
    48 ≤ (UInt8.ofNat c.toNat).toNat ∧ (UInt8.ofNat c.toNat).toNat ≤ 57 ∧
      Char.ofNat (UInt8.ofNat c.toNat).toNat = c := by
  simp only [Char.isDigit, Bool.and_eq_true, decide_eq_true_eq] at h
  have hlow : 48 ≤ c.toNat := h.1
  have hhigh : c.toNat ≤ 57 := h.2
  have hbyte : (UInt8.ofNat c.toNat).toNat = c.toNat := by
    rw [UInt8.toNat_ofNat']
    omega
  rw [hbyte]
  exact ⟨hlow, hhigh, Char.ofNat_toNat c⟩

/-- The bytes of a number are digits. -/
theorem mem_toText {n : Nat} {b : UInt8} (h : b ∈ toText n) : 48 ≤ b ∧ b ≤ 57 := by
  rw [toText_eq] at h
  obtain ⟨c, hc, rfl⟩ := List.mem_map.mp h
  have hdigit := toNat_ofNat_digit (Nat.isDigit_of_mem_toDigits (by decide) (by decide) hc)
  rw [UInt8.le_iff_toNat_le, UInt8.le_iff_toNat_le]
  exact ⟨hdigit.1, hdigit.2.1⟩

/-- A printed number is read as itself. -/
theorem decimalValue_toText (n : Nat) : decimalValue (toText n) = some n := by
  have hne : toText n ≠ [] := by
    rw [toText_eq]
    simp [Nat.toDigits_ne_nil]
  have hall : (toText n).all (fun b => 48 ≤ b && b ≤ 57) = true := by
    rw [List.all_eq_true]
    intro b hb
    simpa using mem_toText hb
  have hchars : (toText n).map (fun b => Char.ofNat b.toNat) = Nat.toDigits 10 n := by
    rw [toText_eq, List.map_map]
    refine (List.map_congr_left fun c hc => ?_).trans (List.map_id _)
    exact (toNat_ofNat_digit (Nat.isDigit_of_mem_toDigits (by decide) (by decide) hc)).2.2
  rw [decimalValue, if_pos ⟨hne, hall⟩, hchars, Nat.ofDigitChars_ten_toDigits]

/-- A number as an item of a list. -/
theorem itemValue_toText (n : Nat) : itemValue (toText n) = some n := by
  rw [itemValue, decimalValue_toText]
  rfl

/-- The text of a flag without white space. -/
def flagName (flag : FieldFlag) : Bytes := ascii "QtProtobufPrivate::FieldFlag::" ++ flag.name

/-- The name of a flag is read as its value. -/
theorem lookup_flagName (flag : FieldFlag) : flagTable.lookup (flagName flag) = some flag.value := by
  cases flag <;> decide

/-- The flags that stand in the conversion. -/
def FieldDescriptor.printedFlags (f : FieldDescriptor) : List FieldFlag :=
  match f.writtenFlags options with
  | [] => [FieldFlag.noFlags]
  | flags => flags

/-- The name of a flag has no blank. -/
theorem filter_flagName (flag : FieldFlag) :
    (flagName flag).filter (fun b => !CSource.isSpace b) = flagName flag := by
  cases flag <;> decide

/-- White space around the separators does not matter. -/
theorem filter_join_flags (flags : List FieldFlag) :
    (join (ascii " | ") (flags.map flagName)).filter (fun b => !CSource.isSpace b) =
      join [124] (flags.map flagName) := by
  induction flags with
  | nil => rfl
  | cons flag flags ih =>
    cases flags with
    | nil => exact filter_flagName flag
    | cons next flags =>
      rw [List.map_cons] at ih
      rw [List.map_cons, List.map_cons, join_cons_cons, join_cons_cons, List.filter_append,
        List.filter_append, filter_flagName, ih]
      rfl

/-- The text of a conversion without white space. -/
theorem filter_collectFieldFlags (f : FieldDescriptor) :
    (f.collectFieldFlags options).filter (fun b => !CSource.isSpace b) =
      ascii "uint(" ++ (join [124] ((f.printedFlags options).map flagName) ++ [41]) := by
  have htext : f.collectFieldFlags options =
      ascii "uint(" ++ join (ascii " | ") ((f.printedFlags options).map flagName) ++ ascii ")" := rfl
  rw [htext, List.filter_append, List.filter_append, filter_join_flags, List.append_assoc]
  rfl

/-- The conversion denotes the flags of the field. -/
theorem flagsValue_collectFieldFlags (f : FieldDescriptor) :
    flagsValue ((f.collectFieldFlags options).filter fun b => !CSource.isSpace b) =
      some (f.fieldFlags options).toNat := by
  have hsplit : splitItems 124 [] (join [124] ((f.printedFlags options).map flagName)) =
      (f.printedFlags options).map flagName := by
    apply splitItems_join
    intro item hitem
    obtain ⟨flag, -, rfl⟩ := List.mem_map.mp hitem
    cases flag <;> decide
  have hlookup : ∀ flags : List FieldFlag,
      (flags.map flagName).mapM (fun flag => flagTable.lookup flag) =
        some (flags.map (·.value)) := by
    intro flags
    induction flags with
    | nil => rfl
    | cons flag flags ih =>
      rw [List.map_cons, List.mapM_cons, lookup_flagName, ih]
      rfl
  have hfold : (((f.printedFlags options).map (·.value)).foldl (· ||| ·) 0) =
      f.fieldFlags options := by
    rw [FieldDescriptor.fieldFlags, List.foldl_map, FieldDescriptor.printedFlags]
    cases f.writtenFlags options <;> rfl
  have hdrop : ((ascii "uint(" ++ (join [124] ((f.printedFlags options).map flagName) ++ [41])).drop
      5).dropLast = join [124] ((f.printedFlags options).map flagName) := by
    have hlength : (ascii "uint(").length = 5 := rfl
    rw [← hlength, List.drop_left, List.dropLast_concat]
  rw [filter_collectFieldFlags, flagsValue, if_pos, hdrop, hsplit, hlookup]
  · rw [Option.map_some, hfold]
  · refine ⟨List.isPrefixOf_iff_prefix.mpr (List.prefix_append _ _), ?_⟩
    rw [← List.append_assoc, List.getLast?_concat]

/-- Flags as an item of a list. -/
theorem itemValue_collectFieldFlags (f : FieldDescriptor) :
    itemValue ((f.collectFieldFlags options).filter fun b => !CSource.isSpace b) =
      some (f.fieldFlags options).toNat := by
  have hdecimal : decimalValue ((f.collectFieldFlags options).filter fun b => !CSource.isSpace b) =
      none := by
    rw [filter_collectFieldFlags, decimalValue, if_neg]
    intro h
    exact absurd h.2 (by simp [ascii])
  rw [itemValue, hdecimal, flagsValue_collectFieldFlags]
  rfl

/-! ## Lines -/

/-- What may stand as an item of a list: no quotes, slashes and commas. -/
def isItemByte (b : UInt8) : Bool := b != 34 && b != 47 && b != 44

/-- What holds of the items and the separator holds of the joined text. -/
theorem all_join {p : UInt8 → Bool} {separator : Bytes} (hseparator : separator.all p)
    {items : List Bytes} (h : ∀ item ∈ items, item.all p) : (join separator items).all p := by
  induction items with
  | nil => rfl
  | cons item items ih =>
    have hitem := h item List.mem_cons_self
    cases items with
    | nil => exact hitem
    | cons next items =>
      rw [join_cons_cons, List.all_append, List.all_append, hitem, hseparator,
        ih fun item hitem => h item (List.mem_cons_of_mem _ hitem)]
      rfl

/-- A printed number is made of characters of an item. -/
theorem all_toText (n : Nat) : (toText n).all isItemByte := by
  rw [List.all_eq_true]
  intro b hb
  have hlow := (mem_toText hb).1
  have hne : ∀ c : UInt8, ¬ 48 ≤ c → b ≠ c := by
    rintro c hc rfl
    exact hc hlow
  simp [isItemByte, hne 34 (by decide), hne 47 (by decide), hne 44 (by decide)]

/-- The printed flags are made of characters of an item. -/
theorem all_collectFieldFlags (f : FieldDescriptor) :
    (f.collectFieldFlags options).all isItemByte := by
  have htext : f.collectFieldFlags options =
      ascii "uint(" ++ join (ascii " | ") ((f.printedFlags options).map flagName) ++ ascii ")" := rfl
  have hflags : (join (ascii " | ") ((f.printedFlags options).map flagName)).all isItemByte := by
    apply all_join (by decide)
    intro item hitem
    obtain ⟨flag, -, rfl⟩ := List.mem_map.mp hitem
    cases flag <;> decide
  rw [htext, List.all_append, List.all_append, hflags]
  decide

/-- A printed number has no blank. -/
theorem filter_toText (n : Nat) : (toText n).filter (fun b => !CSource.isSpace b) = toText n := by
  rw [List.filter_eq_self]
  intro b hb
  have hlow := (mem_toText hb).1
  have hspace : b ≠ 32 := by
    rintro rfl
    exact absurd hlow (by decide)
  have hcontrol : ¬ b ≤ 13 := fun hle => absurd (UInt8.le_trans hlow hle) (by decide)
  simp [CSource.isSpace, hspace, hcontrol]

/-- A line of the data is read as its item and a comma. -/
theorem run_uintDataTemplate {item jsonName : Bytes} (hitem : item.all isItemByte)
    (hname : CSource.NoPair 42 47 jsonName) {r : CSource.Reader} (hstate : r.state = .code) :
    CSource.run r (uintDataTemplate item jsonName) =
      { r with code := r.code ++ (item.filter (fun b => !CSource.isSpace b) ++ [44]) } := by
  have hcode : item.all fun b => b != 34 && b != 47 := by
    rw [List.all_eq_true] at hitem ⊢
    intro b hb
    exact (Bool.and_eq_true_iff.mp (hitem b hb)).1
  have htext : uintDataTemplate item jsonName =
      item ++ ([44, 32, 47, 42, 32, 61, 32] ++ ((jsonName ++ [32, 42, 47]) ++ [10])) := by
    simp [uintDataTemplate, ascii]
  obtain ⟨state, code, chars⟩ := r
  obtain rfl : state = .code := hstate
  rw [htext, CSource.run_append, CSource.run_code hcode rfl, CSource.run_append]
  have hopen : ∀ code : Bytes, CSource.run ⟨.code, code, chars⟩ [44, 32, 47, 42, 32, 61, 32] =
      ⟨.block, code ++ [44], chars⟩ := fun code => rfl
  rw [hopen, CSource.run_append, CSource.run_block_close hname rfl]
  simp [CSource.run, CSource.step, CSource.stepCode, CSource.Reader.go, CSource.isSpace]

/-- A column is read as its items. -/
theorem run_lines {A : Type} (item name : A → Bytes) (entries : List A)
    (hitem : ∀ entry ∈ entries, (item entry).all isItemByte)
    (hname : ∀ entry ∈ entries, CSource.NoPair 42 47 (name entry)) {r : CSource.Reader}
    (hstate : r.state = .code) :
    CSource.run r (entries.flatMap fun entry => uintDataTemplate (item entry) (name entry)) =
      { r with code := r.code ++ (entries.map fun entry =>
        (item entry).filter fun b => !CSource.isSpace b).flatMap (· ++ [44]) } := by
  induction entries generalizing r with
  | nil => simp
  | cons entry entries ih =>
    have hfirst := run_uintDataTemplate (hitem entry List.mem_cons_self)
      (hname entry List.mem_cons_self) hstate
    have hrest := ih (fun e he => hitem e (List.mem_cons_of_mem _ he))
      (fun e he => hname e (List.mem_cons_of_mem _ he))
      (r := { r with code := r.code ++
        ((item entry).filter (fun b => !CSource.isSpace b) ++ [44]) }) hstate
    rw [List.flatMap_cons, CSource.run_append, hfirst, hrest]
    simp

/-- A text that is read as items denotes their values. -/
theorem initializerValues_indent (width : Nat) {text : Bytes} {items : List Bytes}
    {values : List Nat}
    (hrun : CSource.run {} text = { code := items.flatMap (· ++ [44]) })
    (hcomma : ∀ item ∈ items, 44 ∉ item) (hvalues : items.mapM itemValue = some values) :
    initializerValues (CSource.indent width true text) = some values := by
  have hdenote : CSource.denote text = some (items.flatMap (· ++ [44]), []) := by
    rw [CSource.denote, hrun]
    rfl
  rw [initializerValues, CSource.denote_indent, hdenote]
  simp only
  rw [splitItems_terminated hcomma, hvalues]

/-! ## The numbers -/

/-- Printed numbers are read as themselves. -/
theorem mapM_itemValue_toText (numbers : List Nat) :
    (numbers.map toText).mapM itemValue = some numbers := by
  induction numbers with
  | nil => rfl
  | cons n numbers ih =>
    rw [List.map_cons, List.mapM_cons, itemValue_toText, ih]
    rfl

/-- A printed number has no comma. -/
theorem noComma_toText (n : Nat) : 44 ∉ toText n := fun h =>
  absurd (mem_toText h).1 (by decide)

/-- The printed flags have no comma. -/
theorem noComma_collectFieldFlags (f : FieldDescriptor) :
    44 ∉ (f.collectFieldFlags options).filter fun b => !CSource.isSpace b := by
  intro h
  have hbyte := List.all_eq_true.mp (all_collectFieldFlags options f) 44 (List.mem_filter.mp h).1
  exact absurd hbyte (by decide)

/-- The numbers of the header. -/
def headerValues : List Nat :=
  let count := d.generatedFields.length
  [0, count, count * 1 + 1, count * 2 + 1, count * 3 + 1, d.type.fullName.length]

/-- The header denotes the counts and the offsets of the columns. -/
theorem initializerValues_printHeader (width : Nat) :
    initializerValues (CSource.indent width true (printHeader d)) = some (headerValues d) := by
  have hitems : (headerLines d).map (fun line =>
      (ascii "        " ++ line.1).filter fun b => !CSource.isSpace b) =
      (headerValues d).map toText := by
    have hspaces : ∀ n, (ascii "        " ++ toText n).filter (fun b => !CSource.isSpace b) =
        toText n := by
      intro n
      rw [List.filter_append, filter_toText]
      rfl
    simp only [headerLines, headerValues, List.map_cons, List.map_nil, hspaces,
      d.generatedFieldCount_eq, metaCharDataSize]
  refine initializerValues_indent width ?_ ?_ (mapM_itemValue_toText (headerValues d))
  · rw [printHeader, run_lines (fun line : Bytes × Bytes => ascii "        " ++ line.1)
      (fun line => line.2) (headerLines d) ?_ ?_ rfl, hitems]
    · rfl
    · intro line hline
      have hnumber : ∃ n, line.1 = toText n := by
        simp only [headerLines, List.mem_cons, List.not_mem_nil, or_false] at hline
        rcases hline with rfl | rfl | rfl | rfl | rfl | rfl <;> exact ⟨_, rfl⟩
      obtain ⟨n, hn⟩ := hnumber
      rw [hn, List.all_append, all_toText]
      rfl
    · intro line hline
      simp only [headerLines, List.mem_cons, List.not_mem_nil, or_false] at hline
      rcases hline with rfl | rfl | rfl | rfl | rfl | rfl <;> simp [CSource.NoPair, ascii]
  · intro item hitem
    obtain ⟨n, -, rfl⟩ := List.mem_map.mp hitem
    exact noComma_toText n

/-- What `common` knows of the field at a position. -/
def orderingField (p : FieldDescriptor × Nat) : FieldDefinition where
  jsonName := p.1.jsonName
  fieldNumber := BitVec.ofNat 32 p.1.number
  propertyIndex := BitVec.ofNat 32 (propertyPosition options d p.2)
  flags := p.1.fieldFlags options

/-- The fields that the table of a message is to hold. -/
def orderingFields : List FieldDefinition :=
  d.generatedFields.zipIdx.map (orderingField options d)

/-- The numbers of the four columns. -/
def columnValues : List Nat :=
  let fields := d.generatedFields.zipIdx
  fields.map (fun p => jsonNamePosition d p.2) ++ [charDataSizeTotal d - 1] ++
    fields.map (fun p => p.1.number) ++ fields.map (fun p => propertyPosition options d p.2) ++
    fields.map (fun p => (p.1.fieldFlags options).toNat)

/-- A column of numbers is read as these. -/
theorem run_printColumn (value : UintVariables → Nat) {r : CSource.Reader} (hstate : r.state = .code) :
    CSource.run r (printColumn options d fun entry => toText (value entry)) =
      { r with code := r.code ++ ((d.generatedFields.zipIdx.map fun p =>
        value (uintEntry options d p)).map toText).flatMap (· ++ [44]) } := by
  rw [printColumn, run_lines (fun entry => toText (value entry)) (·.jsonName) _ ?_ ?_ hstate]
  · simp only [printUintData_eq, List.map_map, filter_toText]
    rfl
  · exact fun entry _ => all_toText _
  · intro entry hentry
    rw [printUintData_eq] at hentry
    obtain ⟨p, -, rfl⟩ := List.mem_map.mp hentry
    exact noPair_escapeBlockComment _

end QtGrpc.Generator
