import QtGrpc.Bytes
import QtGrpc.Library.CSource
import Mathlib.Data.List.Induction

/-!
# Texts of the generators

`qtprotoccommon::utils`: the functions on `std::string` by which the generators derive names from
names and put foreign text into what they print.
-/

namespace QtGrpc.Generator

/-- `utils::isAsciiAlpha`. -/
def isAsciiAlpha (c : UInt8) : Bool := (65 ≤ c && c ≤ 90) || (97 ≤ c && c ≤ 122)

/-- `utils::isAsciiAlnum`. -/
def isAsciiAlnum (c : UInt8) : Bool := isAsciiAlpha c || (48 ≤ c && c ≤ 57)

/-- `utils::toAsciiUpper`. -/
def toAsciiUpper (c : UInt8) : UInt8 := if 97 ≤ c && c ≤ 122 then c - 97 + 65 else c

/-- The loop of `replace` in front of `skip` bytes that are left out. -/
def replaceFrom (old new : Bytes) : Nat → Bytes → Bytes
  | _, [] => []
  | skip + 1, _ :: text => replaceFrom old new skip text
  | 0, c :: text =>
    if old.isPrefixOf (c :: text) then new ++ replaceFrom old new (old.length - 1) text
    else c :: replaceFrom old new 0 text

/-- `utils::replace`. -/
def replace (text old new : Bytes) : Bytes :=
  if old = new then text else replaceFrom old new 0 text

/-- One byte in a C string literal. -/
def escapeByte (c : UInt8) : Bytes :=
  if c = 34 ∨ c = 92 then [92, c]
  else if 0x20 ≤ c ∧ c < 0x7f then [c]
  else [92, 48 + (c >>> (6 : UInt8)), 48 + ((c >>> (3 : UInt8)) &&& 7), 48 + (c &&& 7)]

/-- `utils::escapeCString`. -/
def escapeCString (text : Bytes) : Bytes := text.flatMap escapeByte

/-- `utils::escapeBlockComment`. -/
def escapeBlockComment (text : Bytes) : Bytes :=
  replace (replace text (ascii "*/") (ascii "* /")) (ascii "/*") (ascii "/ *")

/-- `utils::capitalizeAsciiName`. -/
def capitalizeAsciiName : Bytes → Bytes
  | [] => []
  | c :: name => (if isAsciiAlpha c then c &&& ~~~0x20 else c) :: name

theorem length_capitalize (text : Bytes) : (capitalizeAsciiName text).length = text.length := by
  cases text <;> rfl

/-- `utils::deCapitalizeAsciiName`. -/
def deCapitalizeAsciiName : Bytes → Bytes
  | [] => []
  | c :: name => (if isAsciiAlpha c then c ||| 0x20 else c) :: name

/-- `std::to_string`. -/
def toText (n : Nat) : Bytes := ascii (toString n)

/-- `utils::join`. -/
def join (separator : Bytes) : List Bytes → Bytes
  | [] => []
  | [value] => value
  | value :: values => value ++ separator ++ join separator values

theorem join_cons_cons (separator value next : Bytes) (values : List Bytes) :
    join separator (value :: next :: values) =
      value ++ separator ++ join separator (next :: values) := rfl

/-! ## Replacing -/

/-- A byte is replaced wherever it stands. -/
theorem replaceFrom_singleton (c : UInt8) (new text : Bytes) :
    replaceFrom [c] new 0 text = text.flatMap fun b => if b = c then new else [b] := by
  induction text with
  | nil => rfl
  | cons b text ih =>
    have hprefix : [c].isPrefixOf (b :: text) = (c == b) := by simp [List.isPrefixOf]
    rw [replaceFrom, hprefix, List.flatMap_cons, ← ih]
    by_cases h : c = b
    · simp [h]
    · simp [h, Ne.symm h]

section

variable {a b : UInt8}

/-- A blank is put between the bytes of a pair. -/
theorem replaceFrom_pair (text : Bytes) :
    replaceFrom [a, b] [a, 32, b] 0 (a :: b :: text) =
      a :: 32 :: b :: replaceFrom [a, b] [a, 32, b] 0 text := by
  simp [replaceFrom, List.isPrefixOf]

theorem replaceFrom_cons {c : UInt8} {text : Bytes} (h : ¬ (c = a ∧ text.head? = some b)) :
    replaceFrom [a, b] [a, 32, b] 0 (c :: text) = c :: replaceFrom [a, b] [a, 32, b] 0 text := by
  have hprefix : [a, b].isPrefixOf (c :: text) = false := by
    cases text with
    | nil => simp [List.isPrefixOf]
    | cons d text =>
      have hne : a = c → b ≠ d := by
        rintro rfl rfl
        exact h ⟨rfl, rfl⟩
      simpa [List.isPrefixOf] using hne
  rw [replaceFrom, hprefix]
  simp

/-- What the text begins with, the result begins with. -/
theorem head?_replaceFrom (text : Bytes) :
    (replaceFrom [a, b] [a, 32, b] 0 text).head? = text.head? := by
  cases text with
  | nil => rfl
  | cons c text =>
    by_cases h : c = a ∧ text.head? = some b
    · obtain ⟨rfl, hhead⟩ := h
      obtain ⟨rest, rfl⟩ := List.head?_eq_some_iff.mp hhead
      rw [replaceFrom_pair]
      rfl
    · rw [replaceFrom_cons h]
      rfl

/-- The pair does not occur in the result. -/
theorem noPair_replaceFrom (hab : a ≠ b) (ha : a ≠ 32) (hb : b ≠ 32) (text : Bytes) :
    CSource.NoPair a b (replaceFrom [a, b] [a, 32, b] 0 text) := by
  induction text using List.twoStepInduction with
  | nil => trivial
  | singleton c =>
    rw [replaceFrom_cons (by simp)]
    trivial
  | cons_cons c d text ih ih' =>
    by_cases h : c = a ∧ d = b
    · obtain ⟨rfl, rfl⟩ := h
      rw [replaceFrom_pair]
      simp only [CSource.noPair_cons, List.head?_cons, Option.some.injEq]
      exact ⟨fun h => hb h.2.symm, fun h => ha h.1.symm, fun h => hab h.1.symm, ih⟩
    · rw [replaceFrom_cons (by simpa using h), CSource.noPair_cons, head?_replaceFrom]
      exact ⟨by simpa using h, ih'  d⟩

/-- The opposite pair does not come up by it. -/
theorem noPair_replaceFrom_of_noPair (hab : a ≠ b) (ha : a ≠ 32) (hb : b ≠ 32) {text : Bytes}
    (htext : CSource.NoPair b a text) :
    CSource.NoPair b a (replaceFrom [a, b] [a, 32, b] 0 text) := by
  induction text using List.twoStepInduction with
  | nil => trivial
  | singleton c =>
    rw [replaceFrom_cons (by simp)]
    trivial
  | cons_cons c d text ih ih' =>
    obtain ⟨hpair, hrest⟩ := CSource.noPair_cons.mp htext
    by_cases h : c = a ∧ d = b
    · obtain ⟨rfl, rfl⟩ := h
      obtain ⟨hnext, htail⟩ := CSource.noPair_cons.mp hrest
      rw [replaceFrom_pair]
      simp only [CSource.noPair_cons, List.head?_cons, Option.some.injEq, head?_replaceFrom]
      exact ⟨fun h => hab h.1, fun h => hb h.1.symm, by simpa using hnext, ih htail⟩
    · rw [replaceFrom_cons (by simpa using h), CSource.noPair_cons, head?_replaceFrom]
      exact ⟨hpair, ih' d hrest⟩

end

/-- What is put into a block comment does not close it. -/
theorem noPair_escapeBlockComment (text : Bytes) :
    CSource.NoPair 42 47 (escapeBlockComment text) := by
  have hfirst : replace text (ascii "*/") (ascii "* /") = replaceFrom [42, 47] [42, 32, 47] 0 text := by
    rw [replace, if_neg (by decide)]
    rfl
  have hsecond : ∀ text, replace text (ascii "/*") (ascii "/ *") =
      replaceFrom [47, 42] [47, 32, 42] 0 text := by
    intro text
    rw [replace, if_neg (by decide)]
    rfl
  rw [escapeBlockComment, hfirst, hsecond]
  exact noPair_replaceFrom_of_noPair (by decide) (by decide) (by decide)
    (noPair_replaceFrom (by decide) (by decide) (by decide) text)

/-! ## String literals -/

/-- A property of all bytes is one of all numbers below 256. -/
theorem forall_byte {P : UInt8 → Prop} (h : ∀ n : Fin 256, P (UInt8.ofNat n.val)) (c : UInt8) :
    P c := by
  have hbyte := h ⟨c.toNat, c.toNat_lt⟩
  rwa [UInt8.ofNat_toNat] at hbyte

/-- The three digits of an escaped byte are octal ones, and its value. -/
theorem octal_digits (c : UInt8) : CSource.isOctal (48 + (c >>> (6 : UInt8))) = true ∧
    CSource.isOctal (48 + ((c >>> (3 : UInt8)) &&& 7)) = true ∧
    CSource.isOctal (48 + (c &&& 7)) = true ∧
    UInt8.ofNat ((CSource.octalValue (48 + (c >>> (6 : UInt8))) * 8 +
      CSource.octalValue (48 + ((c >>> (3 : UInt8)) &&& 7))) * 8 +
      CSource.octalValue (48 + (c &&& 7))) = c :=
  forall_byte (P := fun c => CSource.isOctal (48 + (c >>> (6 : UInt8))) = true ∧
    CSource.isOctal (48 + ((c >>> (3 : UInt8)) &&& 7)) = true ∧
    CSource.isOctal (48 + (c &&& 7)) = true ∧
    UInt8.ofNat ((CSource.octalValue (48 + (c >>> (6 : UInt8))) * 8 +
      CSource.octalValue (48 + ((c >>> (3 : UInt8)) &&& 7))) * 8 +
      CSource.octalValue (48 + (c &&& 7))) = c) (by decide +kernel) c

/-- An escaped byte is read as the byte, whatever follows. -/
theorem run_escapeByte (c d : UInt8) (rest : Bytes) {r : CSource.Reader}
    (hstate : r.state = .literal) :
    CSource.run r (escapeByte c ++ d :: rest) = CSource.run (r.emitChar c) (d :: rest) := by
  rw [escapeByte]
  split
  · rename_i h
    rw [CSource.run_append, CSource.run_escaped h hstate]
  · rename_i h
    split
    · rename_i hprint
      have hplain : [c].all CSource.isPlain := by
        have hnewline : c ≠ 10 := by
          rintro rfl
          exact absurd hprint.1 (by decide)
        simp only [not_or] at h
        simp [CSource.isPlain, h, hnewline]
      rw [CSource.run_append, CSource.run_plain hplain hstate]
      simp [CSource.Reader.emitChar, hstate]
    · obtain ⟨hfirst, hsecond, hthird, hvalue⟩ := octal_digits c
      have hread := CSource.run_octal (d := d) hfirst hsecond hthird rest hstate
      rw [hvalue] at hread
      exact hread

/-- An escaped text is read as the text, whatever follows. -/
theorem run_escapeCString (text : Bytes) (d : UInt8) (rest : Bytes) {r : CSource.Reader}
    (hstate : r.state = .literal) :
    CSource.run r (escapeCString text ++ d :: rest) =
      CSource.run { r with chars := r.chars ++ text } (d :: rest) := by
  induction text generalizing r with
  | nil =>
    rw [escapeCString, List.flatMap_nil, List.nil_append, List.append_nil]
  | cons c text ih =>
    have hsplit : escapeCString (c :: text) ++ d :: rest =
        escapeByte c ++ (escapeCString text ++ d :: rest) := by
      simp [escapeCString]
    have hnext := ih (r := r.emitChar c) rfl
    obtain ⟨e, tail, htail⟩ : ∃ e tail, escapeCString text ++ d :: rest = e :: tail :=
      List.exists_cons_of_ne_nil (by simp)
    rw [hsplit, htail, run_escapeByte c e tail hstate, ← htail, hnext]
    simp [CSource.Reader.emitChar, hstate]

end QtGrpc.Generator
