import Mathlib.Data.List.Forall2
import Mathlib.Data.List.Nodup
import QtGrpc.Generator.Descriptor

/-!
# Include guards

The generators derive the path of a header from the name of the `.proto` file, and its package if
there are package folders, but the guard of the header from the base name of the file only. Both the
guard of the messages and that of the client go through `utils::toValidIdentifier`; the guard of the
client for QML does not.
-/

namespace QtGrpc.Generator

/-- `utils::asciiToUpper`. -/
def asciiToUpper (text : Bytes) : Bytes := text.map toAsciiUpper

/-- `std::filesystem::path::filename`. -/
def pathFilename (path : Bytes) : Bytes := (path.reverse.takeWhile (· != 47)).reverse

/-- What stands in front of the extension of a file's name. A dot in front begins none. -/
def pathStem (filename : Bytes) : Bytes :=
  if filename = ascii "." ∨ filename = ascii ".." then filename
  else match (filename.reverse.dropWhile (· != 46)).tail.reverse with
  | [] => filename
  | stem => stem

/-- `utils::extractFileBasename`. -/
def extractFileBasename (fileName : Bytes) : Bytes := pathStem (pathFilename fileName)

/-- The underscore in front of what cannot begin an identifier. -/
def leadingUnderscore : Bytes → Bytes
  | [] => []
  | c :: _ => if !isAsciiAlpha c && c != 95 then [95] else []

/-- `utils::toValidIdentifier`. -/
def toValidIdentifier (name : Bytes) : Bytes :=
  leadingUnderscore name ++ name.map fun c => if isAsciiAlnum c || c == 95 then c else 95

/-- `common::headerGuardFromFilename`. -/
def headerGuardFromFilename (fileName : Bytes) : Bytes :=
  replace (asciiToUpper fileName) (ascii ".") (ascii "_")

/-- The options of a generator that matter here. -/
structure HeaderOptions where
  isFolder : Bool := false
  hasQml : Bool := false

/-- A `.proto` file, with what decides which headers are generated from it. -/
structure ProtoFile where
  file : FileDescriptor
  messageTypeCount : Nat := 0
  enumTypeCount : Nat := 0
  serviceCount : Nat := 0

/-- `common::generateRelativeFilePath`. -/
def generateRelativeFilePath (options : HeaderOptions) (file : FileDescriptor) (name : Bytes) : Bytes :=
  (if options.isFolder ∧ file.packageName ≠ [] then
    replace file.packageName (ascii ".") (ascii "/") ++ ascii "/"
  else []) ++ name

/-- `CommonTemplates::HeaderSuffix`. -/
def headerSuffix : Bytes := ascii ".h"

/-- `CommonTemplates::ProtoFileSuffix`. -/
def protoFileSuffix : Bytes := ascii ".qpb"

/-- `GrpcTemplates::GrpcClientFileSuffix`. -/
def grpcClientFileSuffix : Bytes := ascii "_client.grpc"

/-- A header as it is generated: its file name and path, and its guard. -/
structure GeneratedHeader where
  name : Bytes
  path : Bytes
  guard : Bytes
deriving DecidableEq

/-- The header that `QProtobufGenerator::GenerateHeader` opens. -/
def messageHeader (options : HeaderOptions) (file : FileDescriptor) : GeneratedHeader :=
  let basename := extractFileBasename file.name ++ protoFileSuffix
  let identifier := toValidIdentifier basename
  { name := basename ++ headerSuffix
    path := generateRelativeFilePath options file basename ++ headerSuffix
    guard := headerGuardFromFilename (identifier ++ headerSuffix) }

/-- The base name of the client of a file. -/
def clientBasename (file : FileDescriptor) : Bytes :=
  extractFileBasename file.name ++ grpcClientFileSuffix ++ protoFileSuffix

/-- The header that `QGrpcGenerator::GenerateClientServices` opens. -/
def clientHeader (options : HeaderOptions) (file : FileDescriptor) : GeneratedHeader :=
  let basename := clientBasename file
  let identifier := toValidIdentifier basename
  { name := basename ++ headerSuffix
    path := generateRelativeFilePath options file basename ++ headerSuffix
    guard := headerGuardFromFilename (identifier ++ headerSuffix) }

/-- The header that `QGrpcGenerator::GenerateQmlClientServices` opens. -/
def qmlClientHeader (options : HeaderOptions) (file : FileDescriptor) : GeneratedHeader :=
  let qmlBasename := ascii "qml" ++ clientBasename file
  { name := qmlBasename ++ headerSuffix
    path := generateRelativeFilePath options file qmlBasename ++ headerSuffix
    guard := headerGuardFromFilename (qmlBasename ++ headerSuffix) }

/-- What `qtprotobufgen` generates for a file. -/
def messageHeaders (options : HeaderOptions) (file : ProtoFile) : List GeneratedHeader :=
  if file.messageTypeCount = 0 ∧ file.enumTypeCount = 0 then [] else [messageHeader options file.file]

/-- What `qtgrpcgen` generates for a file. -/
def clientHeaders (options : HeaderOptions) (file : ProtoFile) : List GeneratedHeader :=
  if file.serviceCount = 0 then []
  else (if options.hasQml then [qmlClientHeader options file.file] else []) ++
    [clientHeader options file.file]

/-- The headers of a set of files, with the options of either generator. -/
def generatedHeaders (protobufOptions grpcOptions : HeaderOptions) (files : List ProtoFile) :
    List GeneratedHeader :=
  files.flatMap fun file => messageHeaders protobufOptions file ++ clientHeaders grpcOptions file

/-- What the preprocessor takes for the name of a macro. -/
def IsIdentifier (text : Bytes) : Prop :=
  (∃ c ∈ text.head?, isAsciiAlpha c = true ∨ c = 95) ∧
    ∀ c ∈ text, isAsciiAlnum c = true ∨ c = 95

/-- The headers whose declarations are seen behind a sequence of inclusions, if some macros are
defined in front of it. -/
def preprocess : (defined : List Bytes) → List GeneratedHeader → List GeneratedHeader
  | _, [] => []
  | defined, header :: includes =>
    if defined.contains header.guard then preprocess defined includes
    else header :: preprocess (header.guard :: defined) includes

/-- The guards of the headers are distinct identifiers, and no header is dropped in any combination
of them. -/
structure GuardsWork (headers : List GeneratedHeader) : Prop where
  identifiers : ∀ header ∈ headers, IsIdentifier header.guard
  distinct : (headers.map (·.guard)).Nodup
  included : ∀ includes : List GeneratedHeader, includes ⊆ headers →
    ∀ header ∈ includes, header ∈ preprocess [] includes

/-! ## Names that look alike -/

/-- Two characters of file names that are the same letter up to case, or the same digit, or neither
of them letters or digits. -/
def AlikeChars (c d : UInt8) : Prop :=
  toAsciiUpper c = toAsciiUpper d ∨ isAsciiAlnum c = false ∧ isAsciiAlnum d = false

/-- Two file names with alike characters everywhere. One that does not begin with a letter or an
underscore counts as if an underscore stood in front. -/
def AlikeNames (name other : Bytes) : Prop :=
  List.Forall₂ AlikeChars (leadingUnderscore name ++ name) (leadingUnderscore other ++ other)

/-- What becomes of a character of a file name in a guard that is sanitised. -/
def guardChar (c : UInt8) : UInt8 := if isAsciiAlnum c then toAsciiUpper c else 95

/-- Upper case changes letters to letters only. -/
theorem toAsciiUpper_letters (c : UInt8) : isAsciiAlnum (toAsciiUpper c) = isAsciiAlnum c ∧
    isAsciiAlpha (toAsciiUpper c) = isAsciiAlpha c ∧ (isAsciiAlnum c = false → toAsciiUpper c = c) :=
  forall_byte (P := fun c => isAsciiAlnum (toAsciiUpper c) = isAsciiAlnum c ∧
    isAsciiAlpha (toAsciiUpper c) = isAsciiAlpha c ∧ (isAsciiAlnum c = false → toAsciiUpper c = c))
    (by decide +kernel) c

/-- Upper case keeps letters and digits what they are. -/
theorem isAsciiAlnum_toAsciiUpper (c : UInt8) : isAsciiAlnum (toAsciiUpper c) = isAsciiAlnum c :=
  (toAsciiUpper_letters c).1

/-- Upper case changes letters only. -/
theorem toAsciiUpper_of_not_alnum {c : UInt8} (h : isAsciiAlnum c = false) : toAsciiUpper c = c :=
  (toAsciiUpper_letters c).2.2 h

/-- Only a point becomes a point. -/
theorem toAsciiUpper_eq_dot_iff (c : UInt8) : toAsciiUpper c = 46 ↔ c = 46 := by
  constructor
  · intro h
    have hc : isAsciiAlnum c = false := by
      rw [← isAsciiAlnum_toAsciiUpper, h]
      decide
    rwa [toAsciiUpper_of_not_alnum hc] at h
  · rintro rfl
    decide

/-- Characters give the same character of a guard exactly when they are alike. -/
theorem guardChar_eq_iff (c d : UInt8) : guardChar c = guardChar d ↔ AlikeChars c d := by
  have hupper : isAsciiAlnum c = true → toAsciiUpper c ≠ 95 := by
    intro hc hunderscore
    rw [← isAsciiAlnum_toAsciiUpper, hunderscore] at hc
    exact absurd hc (by decide)
  have hupper' : isAsciiAlnum d = true → toAsciiUpper d ≠ 95 := by
    intro hd hunderscore
    rw [← isAsciiAlnum_toAsciiUpper, hunderscore] at hd
    exact absurd hd (by decide)
  have hsame : toAsciiUpper c = toAsciiUpper d → isAsciiAlnum c = isAsciiAlnum d := by
    intro h
    rw [← isAsciiAlnum_toAsciiUpper c, h, isAsciiAlnum_toAsciiUpper]
  rw [guardChar, guardChar, AlikeChars]
  cases hc : isAsciiAlnum c with
  | true =>
    cases hd : isAsciiAlnum d with
    | true => simp
    | false =>
      have hne : toAsciiUpper c ≠ toAsciiUpper d := fun h => by simp [hsame h, hd] at hc
      simpa [hne] using hupper hc
  | false =>
    cases hd : isAsciiAlnum d with
    | true =>
      have hne : toAsciiUpper c ≠ toAsciiUpper d := fun h => by simp [hsame h, hd] at hc
      simpa [hne] using (hupper' hd).symm
    | false => simp

/-- Sanitised guards are the same just if the names are alike. -/
theorem map_guardChar_eq_iff (name other : Bytes) :
    (leadingUnderscore name ++ name).map guardChar = (leadingUnderscore other ++ other).map guardChar ↔
      AlikeNames name other := by
  rw [← List.forall₂_eq_eq_eq, List.forall₂_map_left_iff, List.forall₂_map_right_iff, AlikeNames]
  constructor
  · exact List.Forall₂.imp fun c d h => (guardChar_eq_iff c d).mp h
  · exact List.Forall₂.imp fun c d h => (guardChar_eq_iff c d).mpr h

/-! ## Guards of names -/

/-- Letters turn into upper case and dots into underscores. -/
theorem headerGuardFromFilename_eq (fileName : Bytes) : headerGuardFromFilename fileName =
    fileName.map fun c => if c = 46 then 95 else toAsciiUpper c := by
  have hdot := toAsciiUpper_eq_dot_iff
  rw [headerGuardFromFilename, asciiToUpper, replace, if_neg (by decide)]
  change replaceFrom [46] [95] 0 _ = _
  rw [replaceFrom_singleton]
  induction fileName with
  | nil => rfl
  | cons c fileName ih =>
    rw [List.map_cons, List.flatMap_cons, ih, List.map_cons]
    by_cases h : c = 46
    · rw [if_pos ((hdot c).mpr h), if_pos h]
      rfl
    · rw [if_neg fun hupper => h ((hdot c).mp hupper), if_neg h]
      rfl

/-- The guard of a name that is made an identifier. -/
theorem headerGuard_toValidIdentifier {basename : Bytes} (h : basename ≠ []) :
    headerGuardFromFilename (toValidIdentifier basename ++ headerSuffix) =
      (leadingUnderscore (basename ++ headerSuffix) ++ (basename ++ headerSuffix)).map guardChar := by
  have hchar : ∀ c : UInt8,
      (if (if isAsciiAlnum c || c == 95 then c else 95) = 46 then 95
        else toAsciiUpper (if isAsciiAlnum c || c == 95 then c else 95)) = guardChar c := by
    intro c
    rw [guardChar]
    cases hc : isAsciiAlnum c with
    | true =>
      have hdot : c ≠ 46 := by
        rintro rfl
        exact absurd hc (by decide)
      simp [hdot]
    | false =>
      by_cases hunderscore : c = 95
      · simp [hunderscore, toAsciiUpper]
      · simp [hunderscore, toAsciiUpper]
  have hmap : (basename.map fun c => if isAsciiAlnum c || c == 95 then c else 95).map
      (fun c => if c = 46 then 95 else toAsciiUpper c) = basename.map guardChar := by
    rw [List.map_map]
    exact List.map_congr_left fun c _ => hchar c
  obtain ⟨c, rest, rfl⟩ := List.exists_cons_of_ne_nil h
  rw [headerGuardFromFilename_eq, toValidIdentifier, List.append_assoc, List.map_append,
    List.map_append, hmap, List.map_append, List.map_append, List.cons_append, leadingUnderscore,
    leadingUnderscore]
  split <;> rfl

/-- The characters of a base name that need not be sanitised for a guard. -/
def PlainName (name : Bytes) : Prop := ∀ c ∈ name, isAsciiAlnum c = true ∨ c = 95 ∨ c = 46

/-- A name of letters, digits, underscores and points is plain. -/
theorem PlainName.of_all {name : Bytes}
    (h : (name.all fun c => isAsciiAlnum c || c == 95 || c == 46) = true) : PlainName name := by
  intro c hc
  simpa [or_assoc] using List.all_eq_true.mp h c hc

/-- A guard that is not sanitised is like one that is if the name is plain. -/
theorem headerGuardFromFilename_plain {name : Bytes} (h : PlainName name) :
    headerGuardFromFilename name = name.map guardChar := by
  rw [headerGuardFromFilename_eq]
  apply List.map_congr_left
  intro c hc
  rcases h c hc with halnum | rfl | rfl
  · have hdot : c ≠ 46 := by
      rintro rfl
      exact absurd halnum (by decide)
    rw [if_neg hdot, guardChar, if_pos halnum]
  · rfl
  · rfl

/-- A name whose guard is an identifier without being sanitised is plain. -/
theorem PlainName.of_isIdentifier {name : Bytes} (h : IsIdentifier (headerGuardFromFilename name)) :
    PlainName name := by
  intro c hc
  rw [headerGuardFromFilename_eq] at h
  have hchar := h.2 _ (List.mem_map_of_mem hc)
  by_cases hdot : c = 46
  · exact Or.inr (Or.inr hdot)
  · rw [if_neg hdot, isAsciiAlnum_toAsciiUpper] at hchar
    rcases hchar with halnum | hunderscore
    · exact Or.inl halnum
    · cases halnum : isAsciiAlnum c with
      | true => exact Or.inl rfl
      | false =>
        rw [toAsciiUpper_of_not_alnum halnum] at hunderscore
        exact Or.inr (Or.inl hunderscore)

/-- Sanitised guards are identifiers. -/
theorem isIdentifier_guard {name : Bytes} (h : name ≠ []) :
    IsIdentifier ((leadingUnderscore name ++ name).map guardChar) := by
  have hchar : ∀ c, isAsciiAlnum (guardChar c) = true ∨ guardChar c = 95 := by
    intro c
    rw [guardChar]
    split
    · rename_i halnum
      rw [isAsciiAlnum_toAsciiUpper]
      exact Or.inl halnum
    · exact Or.inr rfl
  have halpha : ∀ c, isAsciiAlpha c = true → isAsciiAlpha (guardChar c) = true := by
    intro c hc
    have halnum : isAsciiAlnum c = true := by rw [isAsciiAlnum, hc, Bool.true_or]
    rw [guardChar, if_pos halnum, (toAsciiUpper_letters c).2.1, hc]
  constructor
  · obtain ⟨c, rest, rfl⟩ := List.exists_cons_of_ne_nil h
    rw [leadingUnderscore]
    split
    · exact ⟨95, rfl, Or.inr rfl⟩
    · rename_i hstart
      refine ⟨guardChar c, rfl, ?_⟩
      cases hc : isAsciiAlpha c with
      | true => exact Or.inl (halpha c hc)
      | false =>
        obtain rfl : c = 95 := by simpa [hc] using hstart
        exact Or.inr rfl
  · intro c hc
    obtain ⟨d, -, rfl⟩ := List.mem_map.mp hc
    exact hchar d

/-! ## Inclusion -/

/-- A header is seen if its guard is its own. -/
theorem mem_preprocess {header : GeneratedHeader} {includes : List GeneratedHeader}
    {defined : List Bytes} (hmem : header ∈ includes) (hdefined : header.guard ∉ defined)
    (hown : ∀ other ∈ includes, other.guard = header.guard → other = header) :
    header ∈ preprocess defined includes := by
  induction includes generalizing defined with
  | nil => exact absurd hmem List.not_mem_nil
  | cons next includes ih =>
    have hown' := fun other hother => hown other (List.mem_cons_of_mem next hother)
    rw [preprocess]
    by_cases heq : next = header
    · rw [heq, if_neg (by simpa using hdefined)]
      exact List.mem_cons_self
    · have hrest : header ∈ includes := (List.mem_cons.mp hmem).resolve_left (Ne.symm heq)
      split
      · exact ih hrest hdefined hown'
      · refine List.mem_cons_of_mem next (ih hrest ?_ hown')
        intro hguard
        rcases List.mem_cons.mp hguard with hguard | hguard
        · exact heq (hown next List.mem_cons_self hguard.symm)
        · exact hdefined hguard

/-- Distinct guards drop no header. -/
theorem mem_preprocess_of_nodup {headers : List GeneratedHeader}
    (h : (headers.map (·.guard)).Nodup) {includes : List GeneratedHeader}
    (hincludes : includes ⊆ headers) {header : GeneratedHeader} (hmem : header ∈ includes) :
    header ∈ preprocess [] includes := by
  apply mem_preprocess hmem List.not_mem_nil
  intro other hother hguard
  exact List.inj_on_of_nodup_map h (hincludes hother) (hincludes hmem) hguard

/-! ## Generated headers -/

/-- A file whose client is generated for QML is plain in its base name. -/
def ProtoFile.PlainQml (options : HeaderOptions) (file : ProtoFile) : Prop :=
  options.hasQml = true → file.serviceCount ≠ 0 → PlainName (extractFileBasename file.file.name)

variable {protobufOptions grpcOptions : HeaderOptions} {files : List ProtoFile}

/-- The headers that are generated, one by one. -/
theorem mem_generatedHeaders {header : GeneratedHeader} :
    header ∈ generatedHeaders protobufOptions grpcOptions files ↔ ∃ file ∈ files,
      (¬ (file.messageTypeCount = 0 ∧ file.enumTypeCount = 0) ∧
        header = messageHeader protobufOptions file.file) ∨
      file.serviceCount ≠ 0 ∧ (grpcOptions.hasQml = true ∧
          header = qmlClientHeader grpcOptions file.file ∨
        header = clientHeader grpcOptions file.file) := by
  rw [generatedHeaders, List.mem_flatMap]
  refine exists_congr fun file => and_congr_right fun _ => ?_
  rw [List.mem_append, messageHeaders, clientHeaders]
  split <;> split <;> cases grpcOptions.hasQml <;> simp_all

/-- The header of a QML client is plain exactly when the file's base name is. -/
theorem qmlClientHeader_plain_iff (options : HeaderOptions) (file : FileDescriptor) :
    PlainName (qmlClientHeader options file).name ↔ PlainName (extractFileBasename file.name) := by
  have hfixed : PlainName (ascii "qml") ∧ PlainName grpcClientFileSuffix ∧
      PlainName protoFileSuffix ∧ PlainName headerSuffix :=
    ⟨.of_all (by decide), .of_all (by decide), .of_all (by decide), .of_all (by decide)⟩
  have happend : ∀ front back, PlainName (front ++ back) ↔ PlainName front ∧ PlainName back :=
    fun front back => List.forall_mem_append
  rw [qmlClientHeader, clientBasename]
  simp only [happend, hfixed, and_true, true_and]

/-- The guard of a header follows from its name if the clients for QML have plain names. -/
theorem guard_eq {header : GeneratedHeader}
    (hmem : header ∈ generatedHeaders protobufOptions grpcOptions files)
    (hplain : ∀ file ∈ files, file.PlainQml grpcOptions) :
    header.name ≠ [] ∧
      header.guard = (leadingUnderscore header.name ++ header.name).map guardChar := by
  obtain ⟨file, hfile, ⟨-, rfl⟩ | ⟨hservice, ⟨hqml, rfl⟩ | rfl⟩⟩ := mem_generatedHeaders.mp hmem
  · exact ⟨by simp [messageHeader, headerSuffix, ascii],
      headerGuard_toValidIdentifier (by simp [protoFileSuffix, ascii])⟩
  · have hname := (qmlClientHeader_plain_iff grpcOptions file.file).mpr
      (hplain file hfile hqml hservice)
    have hguard := headerGuardFromFilename_plain hname
    exact ⟨by simp [qmlClientHeader, headerSuffix, ascii], hguard⟩
  · exact ⟨by simp [clientHeader, headerSuffix, ascii],
      headerGuard_toValidIdentifier (by simp [clientBasename, protoFileSuffix, ascii])⟩

/-- The guards of the headers of a set of files do their work exactly if each client for QML has a
plain name and no two headers have names that look alike. -/
theorem guardsWork_iff (protobufOptions grpcOptions : HeaderOptions) (files : List ProtoFile) :
    GuardsWork (generatedHeaders protobufOptions grpcOptions files) ↔
      (∀ file ∈ files, file.PlainQml grpcOptions) ∧
        (generatedHeaders protobufOptions grpcOptions files).Pairwise fun header other =>
          ¬ AlikeNames header.name other.name := by
  have halike : (∀ file ∈ files, file.PlainQml grpcOptions) →
      (((generatedHeaders protobufOptions grpcOptions files).map (·.guard)).Nodup ↔
        (generatedHeaders protobufOptions grpcOptions files).Pairwise fun header other =>
          ¬ AlikeNames header.name other.name) := by
    intro hplain
    rw [List.Nodup, List.pairwise_map]
    apply List.Pairwise.iff_of_mem
    intro header other hheader hother
    rw [(guard_eq hheader hplain).2, (guard_eq hother hplain).2, ne_eq, map_guardChar_eq_iff]
  constructor
  · intro hwork
    have hplain : ∀ file ∈ files, file.PlainQml grpcOptions := by
      intro file hfile hqml hservice
      have hmem : qmlClientHeader grpcOptions file.file ∈
          generatedHeaders protobufOptions grpcOptions files :=
        mem_generatedHeaders.mpr ⟨file, hfile, Or.inr ⟨hservice, Or.inl ⟨hqml, rfl⟩⟩⟩
      exact (qmlClientHeader_plain_iff grpcOptions file.file).mp
        (PlainName.of_isIdentifier (hwork.identifiers _ hmem))
    exact ⟨hplain, (halike hplain).mp hwork.distinct⟩
  · rintro ⟨hplain, hpairwise⟩
    have hdistinct := (halike hplain).mpr hpairwise
    refine ⟨?_, hdistinct, fun includes hincludes header => mem_preprocess_of_nodup hdistinct hincludes⟩
    intro header hheader
    obtain ⟨hname, hguard⟩ := guard_eq hheader hplain
    rw [hguard]
    exact isIdentifier_guard hname

/-- A file with a service whose name is no identifier. -/
def hyphenFile : ProtoFile where
  file := { name := ascii "666-invalid-identifier.proto", package := [] }
  serviceCount := 1

/-- Two files of the same name in two packages. -/
def commonFiles : List ProtoFile :=
  [{ file := { name := ascii "first/common.proto"
               package := [⟨ascii "first", by decide, by decide, by decide⟩] }
     messageTypeCount := 1 },
    { file := { name := ascii "second/common.proto"
                package := [⟨ascii "second", by decide, by decide, by decide⟩] }
      messageTypeCount := 1 }]

/-- The guard of a client for QML is no identifier, and with a folder for each package two headers
have one guard. -/
theorem hyphenFile_commonFiles_guards :
    ((generatedHeaders {} { hasQml := true } [hyphenFile]).map (·.path)).Nodup ∧
    ¬ GuardsWork (generatedHeaders {} { hasQml := true } [hyphenFile]) ∧
    ((generatedHeaders { isFolder := true } {} commonFiles).map (·.path)).Nodup ∧
    ¬ GuardsWork (generatedHeaders { isFolder := true } {} commonFiles) := by
  obtain ⟨hpaths, hmem, hguard, hpaths', hguards⟩ :
      ((generatedHeaders {} { hasQml := true } [hyphenFile]).map (·.path)).Nodup ∧
      qmlClientHeader { hasQml := true } hyphenFile.file ∈
        generatedHeaders {} { hasQml := true } [hyphenFile] ∧
      45 ∈ (qmlClientHeader { hasQml := true } hyphenFile.file).guard ∧
      ((generatedHeaders { isFolder := true } {} commonFiles).map (·.path)).Nodup ∧
      ¬ ((generatedHeaders { isFolder := true } {} commonFiles).map (·.guard)).Nodup := by
    decide +kernel
  refine ⟨hpaths, ?_, hpaths', fun hwork => hguards hwork.distinct⟩
  intro hwork
  have hhyphen : isAsciiAlnum 45 = true ∨ (45 : UInt8) = 95 :=
    (hwork.identifiers _ hmem).2 45 hguard
  exact absurd hhyphen (by decide)

end QtGrpc.Generator
