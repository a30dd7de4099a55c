import Mathlib.Data.List.Basic

/-!
# C source text

What a piece of C source denotes up to the division into tokens: the bytes outside comments and
string literals, without white space, and the characters of the string literals, where adjacent
literals are one. The reader goes through the text byte by byte, so that the meaning of a text is
composed of the meanings of its parts. Indenting the lines of a text does not change it.
-/

namespace CSource

/-- Where the reader stands. -/
inductive State where
  | code
  /-- Behind a `/` that may begin a comment. -/
  | slash
  | block
  /-- In a block comment, behind a `*`. -/
  | star
  | line
  | literal
  /-- Behind a backslash. -/
  | escape
  /-- Behind the digits of an octal escape. -/
  | octal (digits value : Nat)
  | invalid
deriving DecidableEq, Repr

/-- The reader with what it has read so far. -/
structure Reader where
  state : State := .code
  code : List UInt8 := []
  chars : List UInt8 := []
deriving DecidableEq, Repr

namespace Reader

variable (r : Reader)

def go (state : State) : Reader := { r with state }

/-- A byte outside of comments and literals. -/
def emitCode (b : UInt8) : Reader := { r with state := .code, code := r.code ++ [b] }

/-- A character of a literal. -/
def emitChar (b : UInt8) : Reader := { r with state := .literal, chars := r.chars ++ [b] }

end Reader

def isSpace (b : UInt8) : Bool := b == 32 || (9 ≤ b && b ≤ 13)

def isOctal (b : UInt8) : Bool := 48 ≤ b && b ≤ 55

/-- The escape sequences of one letter. -/
def simpleEscape (b : UInt8) : Option UInt8 :=
  [(34, 34), (92, 92), (39, 39), (63, 63), (97, 7), (98, 8), (102, 12), (110, 10), (114, 13),
    (116, 9), (118, 11)].lookup b

/-- The next byte between the tokens. -/
def stepCode (r : Reader) (b : UInt8) : Reader :=
  if b = 34 then r.go .literal
  else if b = 47 then r.go .slash
  else if isSpace b then r.go .code
  else r.emitCode b

/-- The next byte of a literal. -/
def stepLiteral (r : Reader) (b : UInt8) : Reader :=
  if b = 34 then r.go .code
  else if b = 92 then r.go .escape
  else if b = 10 then r.go .invalid
  else r.emitChar b

/-- The next byte of the text. -/
def step (r : Reader) (b : UInt8) : Reader :=
  match r.state with
  | .code => stepCode r b
  | .slash =>
    if b = 42 then r.go .block
    else if b = 47 then r.go .line
    else stepCode (r.emitCode 47) b
  | .block => if b = 42 then r.go .star else r
  | .star => if b = 47 then r.go .code else if b = 42 then r else r.go .block
  | .line => if b = 10 then r.go .code else r
  | .literal => stepLiteral r b
  | .escape =>
    if isOctal b then r.go (.octal 1 (b.toNat - 48))
    else match simpleEscape b with
    | some c => r.emitChar c
    | none => r.go .invalid
  | .octal digits value =>
    if digits < 3 ∧ isOctal b then r.go (.octal (digits + 1) (value * 8 + (b.toNat - 48)))
    else stepLiteral (r.emitChar (UInt8.ofNat value)) b
  | .invalid => r

/-- Read a text. -/
def run (r : Reader) (text : List UInt8) : Reader := text.foldl step r

/-- What a text denotes that ends between the tokens: its code and its characters. -/
def denote (text : List UInt8) : Option (List UInt8 × List UInt8) :=
  let r := run {} text
  if r.state = .code then some (r.code, r.chars) else none

/-- No text leaves the reader where it is. -/
@[simp] theorem run_nil (r : Reader) : run r [] = r := rfl

/-- The reader takes the first character and goes on. -/
@[simp] theorem run_cons (r : Reader) (b : UInt8) (text : List UInt8) :
    run r (b :: text) = run (step r b) text := rfl

/-- The reader takes one text after the other. -/
theorem run_append (r : Reader) (text rest : List UInt8) :
    run r (text ++ rest) = run (run r text) rest :=
  List.foldl_append

/-! ## Indentation -/

/-- A text as it is printed: each line that is not empty is indented. -/
def indent (width : Nat) : Bool → List UInt8 → List UInt8
  | _, [] => []
  | atStart, b :: text =>
    (if atStart && b != 10 then List.replicate width 32 else []) ++ b :: indent width (b == 10) text

/-- White space does not matter here. -/
def State.IgnoresSpace (s : State) : Prop := s = .code ∨ s = .block ∨ s = .invalid

/-- Blanks leave a reader that ignores them where it is. -/
theorem run_spaces {r : Reader} (h : r.state.IgnoresSpace) (width : Nat) :
    run r (List.replicate width 32) = r := by
  induction width with
  | zero => rfl
  | succ width ih =>
    have hstep : step r 32 = r := by
      obtain ⟨state, code, chars⟩ := r
      rcases h with rfl | rfl | rfl <;> rfl
    rw [List.replicate_succ, run_cons, hstep, ih]

/-- Behind the end of a line white space does not matter. -/
theorem ignoresSpace_step_newline (r : Reader) : (step r 10).state.IgnoresSpace := by
  obtain ⟨state, code, chars⟩ := r
  cases state with
  | code => exact Or.inl rfl
  | slash => exact Or.inl rfl
  | block => exact Or.inr (Or.inl rfl)
  | star => exact Or.inr (Or.inl rfl)
  | line => exact Or.inl rfl
  | literal => exact Or.inr (Or.inr rfl)
  | escape => exact Or.inr (Or.inr rfl)
  | octal digits value =>
    have hno : ¬ (digits < 3 ∧ isOctal 10) := fun h => absurd h.2 (by decide)
    refine Or.inr (Or.inr ?_)
    simp only [step, hno, if_false]
    rfl
  | invalid => exact Or.inr (Or.inr rfl)

/-- Indenting a text does not change what is read. -/
theorem run_indent (width : Nat) (text : List UInt8) {r : Reader} {atStart : Bool}
    (h : atStart = true → r.state.IgnoresSpace) :
    run r (indent width atStart text) = run r text := by
  induction text generalizing r atStart with
  | nil => rfl
  | cons b text ih =>
    have hspaces : run r (if atStart && b != 10 then List.replicate width 32 else []) = r := by
      split
      · rename_i hstart
        exact run_spaces (h (Bool.and_eq_true_iff.mp hstart).1) width
      · rfl
    rw [indent, run_append, hspaces, run_cons, run_cons, ih]
    intro hnewline
    rw [eq_of_beq hnewline]
    exact ignoresSpace_step_newline r

/-- Indentation changes nothing about what a text denotes. -/
theorem denote_indent (width : Nat) (text : List UInt8) :
    denote (indent width true text) = denote text := by
  rw [denote, denote, run_indent width text fun _ => Or.inl rfl]

/-! ## Comments -/

/-- No byte `a` stands directly in front of a byte `b`. -/
def NoPair (a b : UInt8) : List UInt8 → Prop
  | x :: y :: text => ¬ (x = a ∧ y = b) ∧ NoPair a b (y :: text)
  | _ => True

/-- A text has no pair exactly when it does not begin with one and has none behind. -/
theorem noPair_cons {a b x : UInt8} {text : List UInt8} :
    NoPair a b (x :: text) ↔ ¬ (x = a ∧ text.head? = some b) ∧ NoPair a b text := by
  cases text <;> simp [NoPair]

/-- A comment goes on as long as it is not closed. -/
theorem run_comment {text : List UInt8} (h : NoPair 42 47 text) {r : Reader}
    (hstate : r.state = .block ∨ r.state = .star ∧ text.head? ≠ some 47) :
    run r text = r.go .block ∨ run r text = r.go .star := by
  induction text generalizing r with
  | nil =>
    obtain ⟨state, code, chars⟩ := r
    rcases hstate with rfl | ⟨rfl, -⟩
    · exact Or.inl rfl
    · exact Or.inr rfl
  | cons b text ih =>
    obtain ⟨hpair, htail⟩ := noPair_cons.mp h
    obtain ⟨state, code, chars⟩ := r
    rw [run_cons]
    by_cases hstar : b = 42
    · have hstep : step ⟨state, code, chars⟩ b = ⟨.star, code, chars⟩ := by
        subst hstar
        rcases hstate with rfl | ⟨rfl, -⟩ <;> rfl
      rw [hstep]
      exact ih htail (Or.inr ⟨rfl, fun hslash => hpair ⟨hstar, hslash⟩⟩)
    · have hstep : step ⟨state, code, chars⟩ b = ⟨.block, code, chars⟩ := by
        rcases hstate with rfl | ⟨rfl, hhead⟩
        · simp [step, hstar]
        · have hslash : b ≠ 47 := by simpa using hhead
          simp [step, hstar, hslash, Reader.go]
      rw [hstep]
      exact ih htail (Or.inl rfl)

/-- A comment that contains no end of a comment ends where it is closed. -/
theorem run_block_close {text : List UInt8} (h : NoPair 42 47 text) {r : Reader}
    (hstate : r.state = .block) : run r (text ++ [32, 42, 47]) = r.go .code := by
  rw [run_append]
  rcases run_comment h (Or.inl hstate) with heq | heq <;> rw [heq] <;> rfl

/-- A pair in two texts stands in one of them or where they meet. -/
theorem noPair_append {a b : UInt8} {text rest : List UInt8} :
    NoPair a b (text ++ rest) ↔
      NoPair a b text ∧ NoPair a b rest ∧ ¬ (text.getLast? = some a ∧ rest.head? = some b) := by
  induction text with
  | nil => simp [NoPair]
  | cons x text ih =>
    rw [List.cons_append, noPair_cons, noPair_cons, ih]
    cases text with
    | nil => simp [NoPair]; tauto
    | cons y text => simp; tauto

/-- The lines are indented by blanks, which are part of no such pair. -/
theorem noPair_indent {a b : UInt8} (ha : a ≠ 10) (ha' : a ≠ 32) (width : Nat)
    (atStart : Bool) {text : List UInt8} (h : NoPair a b text) :
    NoPair a b (indent width atStart text) := by
  have hspaces : NoPair a b (List.replicate width 32) := by
    induction width with
    | zero => trivial
    | succ width ih =>
      rw [List.replicate_succ, noPair_cons]
      exact ⟨fun h => ha' h.1.symm, ih⟩
  induction text generalizing atStart with
  | nil => trivial
  | cons c text ih =>
    obtain ⟨hpair, htail⟩ := noPair_cons.mp h
    have hrest : NoPair a b (c :: indent width (c == 10) text) := by
      refine noPair_cons.mpr ⟨?_, ih _ htail⟩
      rintro ⟨rfl, hhead⟩
      rw [beq_false_of_ne ha] at hhead
      cases text with
      | nil => simp [indent] at hhead
      | cons d text => exact hpair ⟨rfl, by simpa [indent] using hhead⟩
    rw [indent]
    split
    · refine noPair_append.mpr ⟨hspaces, hrest, ?_⟩
      rintro ⟨hlast, -⟩
      have hmem := List.eq_of_mem_replicate (List.mem_of_getLast? hlast)
      exact ha' hmem
    · exact hrest

/-- A text is one block comment: what closes it stands at its end only. -/
def IsBlockComment (text : List UInt8) : Prop :=
  ∃ body, text = 47 :: 42 :: (body ++ [42, 47]) ∧ NoPair 42 47 (47 :: 42 :: (body ++ [42]))

/-- Nothing is read from a block comment. -/
theorem IsBlockComment.run_eq {text : List UInt8} (h : IsBlockComment text) {r : Reader}
    (hstate : r.state = .code) : run r text = r := by
  obtain ⟨body, rfl, hpair⟩ := h
  obtain ⟨state, code, chars⟩ := r
  obtain rfl : state = .code := hstate
  have hbody : NoPair 42 47 body :=
    (noPair_append.mp (noPair_cons.mp (noPair_cons.mp hpair).2).2).1
  have hopen : run ⟨.code, code, chars⟩ (47 :: 42 :: (body ++ [42, 47])) =
      run (run ⟨.block, code, chars⟩ body) [42, 47] := run_append _ body [42, 47]
  have hstart : (⟨.block, code, chars⟩ : Reader).state = .block := rfl
  rw [hopen]
  rcases run_comment hbody (Or.inl hstart) with heq | heq <;> rw [heq] <;> rfl

/-- A comment up to the end of the line. -/
theorem run_line {text : List UInt8} (h : 10 ∉ text) {r : Reader} (hstate : r.state = .code) :
    run r (47 :: 47 :: (text ++ [10])) = r := by
  obtain ⟨state, code, chars⟩ := r
  obtain rfl : state = .code := hstate
  have hline : run ⟨.line, code, chars⟩ text = ⟨.line, code, chars⟩ := by
    induction text with
    | nil => rfl
    | cons b text ih =>
      have hb : b ≠ 10 := fun heq => h (heq ▸ List.mem_cons_self)
      have hstep : step ⟨.line, code, chars⟩ b = ⟨.line, code, chars⟩ := by simp [step, hb]
      rw [run_cons, hstep, ih fun hmem => h (List.mem_cons_of_mem b hmem)]
  rw [run_cons, run_cons, run_append]
  change run (run ⟨.line, code, chars⟩ text) [10] = _
  rw [hline]
  rfl

/-- A text without comments and literals. -/
theorem run_code {text : List UInt8} (h : text.all fun b => b != 34 && b != 47) {r : Reader}
    (hstate : r.state = .code) :
    run r text = { r with code := r.code ++ text.filter fun b => !isSpace b } := by
  induction text generalizing r with
  | nil => simp
  | cons b text ih =>
    obtain ⟨hb, htext⟩ : (b ≠ 34 ∧ b ≠ 47) ∧ text.all fun b => b != 34 && b != 47 := by simpa using h
    rw [run_cons]
    cases hspace : isSpace b with
    | true =>
      have hstep : step r b = r := by
        obtain ⟨state, code, chars⟩ := r
        obtain rfl : state = .code := hstate
        simp [step, stepCode, hb, hspace, Reader.go]
      rw [hstep, ih htext hstate, List.filter_cons_of_neg (by simp [hspace])]
    | false =>
      have hstep : step r b = { r with code := r.code ++ [b] } := by
        obtain ⟨state, code, chars⟩ := r
        obtain rfl : state = .code := hstate
        simp [step, stepCode, hb, hspace, Reader.emitCode]
      have hrest := ih htext (r := { r with code := r.code ++ [b] }) hstate
      rw [hstep, hrest, List.filter_cons_of_pos (by simp [hspace])]
      simp

/-! ## Literals -/

/-- A character that stands for itself in a literal. -/
def isPlain (b : UInt8) : Bool := b != 34 && b != 92 && b != 10

/-- Plain characters within a literal are added to it. -/
theorem run_plain {text : List UInt8} (h : text.all isPlain) {r : Reader} (hstate : r.state = .literal) :
    run r text = { r with chars := r.chars ++ text } := by
  induction text generalizing r with
  | nil => simp
  | cons b text ih =>
    obtain ⟨hb, htext⟩ : isPlain b ∧ text.all isPlain := by simpa using h
    have hstep : step r b = r.emitChar b := by
      simp only [isPlain, Bool.and_eq_true, bne_iff_ne] at hb
      simp [step, hstate, stepLiteral, hb]
    rw [run_cons, hstep, ih htext rfl]
    simp [Reader.emitChar, hstate]

/-- An escaped quote or backslash. -/
theorem run_escaped {b : UInt8} (h : b = 34 ∨ b = 92) {r : Reader} (hstate : r.state = .literal) :
    run r [92, b] = r.emitChar b := by
  obtain ⟨state, code, chars⟩ := r
  obtain rfl : state = .literal := hstate
  rcases h with rfl | rfl <;> rfl

/-- The value of an octal digit. -/
def octalValue (b : UInt8) : Nat := b.toNat - 48

/-- An octal escape with all of its digits ends with the third. -/
theorem run_octal {a b c d : UInt8} (ha : isOctal a) (hb : isOctal b) (hc : isOctal c)
    (rest : List UInt8) {r : Reader} (hstate : r.state = .literal) :
    run r (92 :: a :: b :: c :: d :: rest) =
      run (r.emitChar (UInt8.ofNat ((octalValue a * 8 + octalValue b) * 8 + octalValue c)))
        (d :: rest) := by
  obtain ⟨state, code, chars⟩ := r
  obtain rfl : state = .literal := hstate
  simp only [run_cons]
  congr 1
  simp [step, stepLiteral, Reader.go, ha, hb, hc, octalValue, Reader.emitChar]

/-- An octal escape ends in front of what is no octal digit. -/
theorem run_nul {d : UInt8} (hd : isOctal d = false) (rest : List UInt8) {r : Reader}
    (hstate : r.state = .literal) :
    run r (92 :: 48 :: d :: rest) = run (r.emitChar 0) (d :: rest) := by
  obtain ⟨state, code, chars⟩ := r
  obtain rfl : state = .literal := hstate
  simp only [run_cons]
  congr 1
  have hzero : isOctal 48 = true := rfl
  simp [step, stepLiteral, Reader.go, hd, hzero, Reader.emitChar]

end CSource
