import QtGrpc.Generator.Text

/-!
# Comments of generated code

`BasePrinter::printCommentsImpl` puts the comment of an element of a `.proto` file into the generated
source, between the ends of a block comment. The text of the comment is foreign: it may hold these
ends itself, in one line or across the seams of what is put around its lines.
-/

namespace QtGrpc.Generator

/-- `utils::AsciiSpacing`. -/
def asciiSpacing : Bytes := [32, 9, 10, 13, 12, 11]

/-- `utils::rtrim`. -/
def rtrim (text : Bytes) : Bytes := (text.reverse.dropWhile asciiSpacing.contains).reverse

/-- `utils::ltrim`. -/
def ltrim (text : Bytes) : Bytes := text.dropWhile asciiSpacing.contains

/-- `utils::trim`. -/
def trim (text : Bytes) : Bytes := ltrim (rtrim text)

/-- What is left of a text that is handed over as a C string. -/
def cString (text : Bytes) : Bytes := text.takeWhile (· != 0)

/-- The text with `$` written as `Printer::Print` takes it for one. -/
def escapeVariables (text : Bytes) : Bytes := replace text (ascii "$") (ascii "$$")

/-- The spacing in front of a comment that does not begin with a mark of a documentation tool. -/
def prependSpacing (isSingleLine : Bool) (comments : Bytes) : Bytes :=
  if comments.head? ≠ some 33 ∧ comments.head? ≠ some 42 then
    if isSingleLine then 32 :: comments else 10 :: 32 :: comments
  else comments

/-- The asterisks in front of the lines. -/
def alignLines (comments : Bytes) : Bytes :=
  let comments := replace comments (ascii "\n") (ascii "\n *")
  if comments.getLast? ≠ some 10 then comments ++ [10] else comments

/-- The comment as it is printed, in front of the escapes. -/
def alignComments (comments : Bytes) : Bytes :=
  let isSingleLine := !comments.contains 10
  let comments := prependSpacing isSingleLine comments
  if isSingleLine then comments else alignLines comments

/-- An `io::Printer` whose variables stand between dollar signs, at some indentation. What it writes
depends on whether it stands at the start of a line. -/
structure Printer where
  indentation : Nat
  print : (atStart : Bool) → Bytes → Bytes
  /-- Two dollar signs are written as one, and the other characters as they are. -/
  print_escaped : ∀ atStart text,
    print atStart (escapeVariables text) = CSource.indent indentation atStart text

/-- Where a printer stands behind a text. -/
def endsLine (atStart : Bool) (text : Bytes) : Bool := (text.getLast?.map (· == 10)).getD atStart

namespace Printer

variable (printer : Printer)

/-- The texts of successive calls of `Print`. -/
def printAll : (atStart : Bool) → List Bytes → Bytes
  | _, [] => []
  | atStart, text :: texts => printer.print atStart text ++ printAll (endsLine atStart text) texts

/-- `BasePrinter::printCommentsImpl`. -/
def printCommentsImpl (atStart : Bool) (comments : Bytes) : Bytes :=
  let comments := trim comments
  if comments = [] then []
  else printer.printAll atStart
    [ascii "\n/*", cString (escapeVariables (escapeBlockComment (alignComments comments))),
      ascii " */"]

end Printer

/-! ## Escapes -/

/-- Every dollar sign is doubled and nothing else is changed. -/
theorem escapeVariables_eq (text : Bytes) :
    escapeVariables text = text.flatMap fun b => if b = 36 then [36, 36] else [b] := by
  rw [escapeVariables, replace, if_neg (by decide)]
  exact replaceFrom_singleton 36 [36, 36] text

/-- A text without dollar signs is taken as it is. -/
theorem escapeVariables_of_not_mem {text : Bytes} (h : 36 ∉ text) : escapeVariables text = text := by
  rw [escapeVariables_eq]
  induction text with
  | nil => rfl
  | cons b text ih =>
    obtain ⟨hb, htext⟩ : 36 ≠ b ∧ 36 ∉ text := by simpa using h
    rw [List.flatMap_cons, if_neg (Ne.symm hb), ih htext]
    rfl

/-- The end of a C string is found behind the same characters. -/
theorem cString_escapeVariables (text : Bytes) :
    cString (escapeVariables text) = escapeVariables (cString text) := by
  rw [escapeVariables_eq, escapeVariables_eq, cString, cString]
  induction text with
  | nil => rfl
  | cons b text ih =>
    rw [List.flatMap_cons]
    by_cases hzero : b = 0
    · rw [hzero]
      rfl
    · by_cases hdollar : b = 36
      · simp [hdollar, ih]
      · simp [hdollar, hzero, ih]

/-- A line ends where it ended. -/
theorem endsLine_escapeVariables (atStart : Bool) (text : Bytes) :
    endsLine atStart (escapeVariables text) = endsLine atStart text := by
  rcases List.eq_nil_or_concat text with rfl | ⟨text, b, rfl⟩
  · rfl
  · rw [List.concat_eq_append, escapeVariables_eq, List.flatMap_append, List.flatMap_singleton,
      endsLine, endsLine]
    by_cases hdollar : b = 36
    · rw [if_pos hdollar, hdollar]
      simp
    · rw [if_neg hdollar, List.getLast?_concat, List.getLast?_concat]

/-- Escaping leaves the first character. -/
theorem head?_escapeBlockComment (text : Bytes) :
    (escapeBlockComment text).head? = text.head? := by
  have hreplace : ∀ (a b : UInt8) (text : Bytes), [a, b] ≠ [a, 32, b] →
      (replace text [a, b] [a, 32, b]).head? = text.head? := by
    intro a b text hne
    rw [replace, if_neg hne]
    exact head?_replaceFrom text
  exact (hreplace 47 42 _ (by decide)).trans (hreplace 42 47 _ (by decide))

/-- What a C string leaves of a text holds no pair that the text does not hold. -/
theorem noPair_cString {a b : UInt8} {text : Bytes} (h : CSource.NoPair a b text) :
    CSource.NoPair a b (cString text) := by
  have hsplit := List.takeWhile_append_dropWhile (p := (· != 0)) (l := text)
  rw [← hsplit] at h
  exact (CSource.noPair_append.mp h).1

/-! ## Alignment -/

/-- Text behind a text that is not empty leaves its first character. -/
theorem head?_append_of_ne_nil {text : Bytes} (h : text ≠ []) (rest : Bytes) :
    (text ++ rest).head? = text.head? := by
  cases text with
  | nil => exact absurd rfl h
  | cons b text => rfl

/-- The asterisks of the lines stand behind the ends of lines. -/
theorem head?_replace_newline (text : Bytes) :
    (replace text (ascii "\n") (ascii "\n *")).head? = text.head? := by
  have hreplace : replace text (ascii "\n") (ascii "\n *") =
      text.flatMap fun b => if b = 10 then [10, 32, 42] else [b] := by
    rw [replace, if_neg (by decide)]
    exact replaceFrom_singleton 10 [10, 32, 42] text
  rw [hreplace]
  cases text with
  | nil => rfl
  | cons b text =>
    rw [List.flatMap_cons]
    by_cases hnewline : b = 10
    · rw [if_pos hnewline, hnewline]
      rfl
    · rw [if_neg hnewline]
      rfl

/-- The text begins with a blank, the end of a line or a mark of a documentation tool. -/
theorem head?_prependSpacing (isSingleLine : Bool) (comments : Bytes) :
    (prependSpacing isSingleLine comments).head? ∈ [some 33, some 42, some 32, some 10] := by
  rw [prependSpacing]
  split
  · cases isSingleLine <;> simp
  · rename_i hmark
    by_cases hbang : comments.head? = some 33
    · simp [hbang]
    · have hstar : comments.head? = some 42 := not_not.mp fun hstar => hmark ⟨hbang, hstar⟩
      simp [hstar]

/-- Aligning leaves the first character. -/
theorem head?_alignLines {comments : Bytes} (h : comments ≠ []) :
    (alignLines comments).head? = comments.head? := by
  have hne : replace comments (ascii "\n") (ascii "\n *") ≠ [] := by
    intro hnil
    have hhead := head?_replace_newline comments
    rw [hnil] at hhead
    exact h (List.head?_eq_none_iff.mp hhead.symm)
  rw [alignLines]
  split
  · rw [head?_append_of_ne_nil hne, head?_replace_newline]
  · exact head?_replace_newline comments

/-- Aligned comments begin with one of four characters. -/
theorem head?_alignComments (comments : Bytes) :
    (alignComments comments).head? ∈ [some 33, some 42, some 32, some 10] := by
  have hspacing := head?_prependSpacing (!comments.contains 10) comments
  rw [alignComments]
  split
  · exact hspacing
  · rw [head?_alignLines]
    · exact hspacing
    · intro hnil
      rw [hnil] at hspacing
      simp at hspacing

/-- What is printed of the comment begins as it is aligned. -/
theorem head?_printedComments (comments : Bytes) :
    (cString (escapeBlockComment (alignComments comments))).head? =
      (alignComments comments).head? := by
  have hhead := head?_alignComments comments
  have hescape := head?_escapeBlockComment (alignComments comments)
  rw [← hescape] at hhead ⊢
  generalize escapeBlockComment (alignComments comments) = text at hhead
  cases text with
  | nil => rfl
  | cons b rest =>
    have hb : b ≠ 0 := by
      rintro rfl
      simp at hhead
    simp [cString, hb]

/-! ## The printed comment -/

namespace Printer

variable (printer : Printer)

/-- What is printed around a text of its own. -/
theorem printAll_comment (atStart : Bool) (text : Bytes) :
    printer.printAll atStart [ascii "\n/*", escapeVariables text, ascii " */"] =
      10 :: (List.replicate printer.indentation 32 ++ 47 :: 42 ::
        ((CSource.indent printer.indentation false text ++
          ((if endsLine false text then List.replicate printer.indentation 32 else []) ++ [32])) ++
            [42, 47])) := by
  have hopen : printer.print atStart (ascii "\n/*") =
      10 :: (List.replicate printer.indentation 32 ++ [47, 42]) := by
    rw [← escapeVariables_of_not_mem (show 36 ∉ ascii "\n/*" by decide), printer.print_escaped]
    cases atStart <;> simp [ascii, CSource.indent]
  have hclose : ∀ atStart, printer.print atStart (ascii " */") =
      (if atStart then List.replicate printer.indentation 32 else []) ++ [32, 42, 47] := by
    intro atStart
    rw [← escapeVariables_of_not_mem (show 36 ∉ ascii " */" by decide), printer.print_escaped]
    cases atStart <;> simp [ascii, CSource.indent]
  have hline : endsLine atStart (ascii "\n/*") = false := rfl
  rw [printAll, printAll, printAll, printAll, hopen, hline, printer.print_escaped,
    endsLine_escapeVariables, hclose]
  simp

/-- A text without an end of a comment, and without a slash in front, is put into one. -/
theorem isBlockComment_indent (width : Nat) {text spaces : Bytes} (h : CSource.NoPair 42 47 text)
    (hhead : text.head? ≠ some 47) (hspaces : ∀ b ∈ spaces, b = 32) :
    CSource.IsBlockComment
      (47 :: 42 :: ((CSource.indent width false text ++ (spaces ++ [32])) ++ [42, 47])) := by
  have hindent := CSource.noPair_indent (by decide) (by decide) width false h
  have hblank : CSource.NoPair 42 47 (spaces ++ [32]) ∧ (spaces ++ [32]).head? = some 32 := by
    induction spaces with
    | nil => exact ⟨trivial, rfl⟩
    | cons b spaces ih =>
      obtain ⟨rfl, hrest⟩ := List.forall_mem_cons.mp hspaces
      exact ⟨CSource.noPair_cons.mpr ⟨fun h => absurd h.1 (by decide), (ih hrest).1⟩, rfl⟩
  have hbody : CSource.NoPair 42 47 (CSource.indent width false text ++ (spaces ++ [32])) := by
    refine CSource.noPair_append.mpr ⟨hindent, hblank.1, ?_⟩
    rw [hblank.2]
    simp
  have hfirst : (CSource.indent width false text ++ (spaces ++ [32])).head? ≠ some 47 := by
    cases text with
    | nil =>
      rw [CSource.indent, List.nil_append, hblank.2]
      decide
    | cons b text => simpa [CSource.indent] using hhead
  refine ⟨_, rfl, ?_⟩
  refine CSource.noPair_cons.mpr ⟨fun h => absurd h.1 (by decide), ?_⟩
  refine CSource.noPair_cons.mpr ⟨fun h => hfirst ?_, ?_⟩
  · rw [head?_append_of_ne_nil (by simp)] at h
    exact h.2
  · exact CSource.noPair_append.mpr ⟨hbody, trivial, fun h => absurd h.2 (by decide)⟩

/-- The text emitted for a comment is one block comment in a line of its own, whatever the comment
says, and nothing is read from it. -/
theorem printCommentsImpl_isBlockComment (atStart : Bool) (comments : Bytes) :
    trim comments = [] ∧ printer.printCommentsImpl atStart comments = [] ∨
      ∃ comment, CSource.IsBlockComment comment ∧
        printer.printCommentsImpl atStart comments =
          10 :: (List.replicate printer.indentation 32 ++ comment) ∧
        ∀ r : CSource.Reader, r.state = .code →
          CSource.run r (printer.printCommentsImpl atStart comments) = r := by
  rw [printCommentsImpl]
  split
  · rename_i hblank
    exact Or.inl ⟨hblank, rfl⟩
  · right
    rw [cString_escapeVariables, printer.printAll_comment]
    have hslash : (cString (escapeBlockComment (alignComments (trim comments)))).head? ≠ some 47 := by
      have hhead := head?_alignComments (trim comments)
      rw [head?_printedComments]
      intro h
      rw [h] at hhead
      simp at hhead
    have hspaces : ∀ (ends : Bool), ∀ b ∈ (if ends then List.replicate printer.indentation 32 else []),
        b = (32 : UInt8) := by
      intro ends b hb
      split at hb
      · exact List.eq_of_mem_replicate hb
      · exact absurd hb List.not_mem_nil
    have hcomment := isBlockComment_indent printer.indentation
      (noPair_cString (noPair_escapeBlockComment (alignComments (trim comments)))) hslash
      (hspaces (endsLine false (cString (escapeBlockComment (alignComments (trim comments))))))
    refine ⟨_, hcomment, rfl, ?_⟩
    intro r hstate
    have hnewline : CSource.step r 10 = r := by
      obtain ⟨state, code, chars⟩ := r
      obtain rfl : state = .code := hstate
      rfl
    rw [CSource.run_cons, hnewline, CSource.run_append, CSource.run_spaces (Or.inl hstate)]
    exact hcomment.run_eq hstate

/-- What `Print` makes of a text without known variables. -/
def substitute : Bytes → Bytes
  | [] => []
  | [b] => if b = 36 then [] else [b]
  | b :: c :: text =>
    if b = 36 then if c = 36 then 36 :: substitute text else []
    else b :: substitute (c :: text)

/-- The printer prints a character that is no dollar sign as it is. -/
theorem substitute_cons {b : UInt8} (h : b ≠ 36) (text : Bytes) :
    substitute (b :: text) = b :: substitute text := by
  cases text <;> simp [substitute, h]

/-- The printer gives the text back whose dollar signs are doubled. -/
theorem substitute_escapeVariables (text : Bytes) : substitute (escapeVariables text) = text := by
  rw [escapeVariables_eq]
  induction text with
  | nil => rfl
  | cons b text ih =>
    rw [List.flatMap_cons]
    by_cases hdollar : b = 36
    · rw [if_pos hdollar, hdollar]
      simp [substitute, ih]
    · rw [if_neg hdollar, List.singleton_append, substitute_cons hdollar, ih]

/-- A printer that knows no variables. -/
def plain (indentation : Nat) : Printer where
  indentation
  print atStart text := CSource.indent indentation atStart (substitute text)
  print_escaped atStart text := by rw [substitute_escapeVariables]

example : (plain 0).printCommentsImpl true (ascii "*/ $x/*\n/**/") =
    ascii "\n/** / $x/ *\n * / ** /\n */" := by decide +kernel

end Printer

end QtGrpc.Generator
