import QtGrpc.Bytes

/-!
# Scalar types

The scalar types of protobuf with the C++ types that carry them, the comparisons the generated
code makes between their values, and the errors a serializer reports. A floating-point value is
the bit pattern of its IEEE 754 format.
-/

namespace QtGrpc.Protobuf

/-- `QAbstractProtobufSerializer::Error`. -/
inductive SerializerError where
  | none | invalidHeader | unknownType | unexpectedEndOfStream | invalidFormat | messageTooLarge
deriving DecidableEq, Repr

/-- The wire types a field header may name. -/
inductive WireType where
  | varint | fixed64 | lengthDelimited | fixed32
deriving DecidableEq, Repr

/-- The number of a wire type in a header. -/
def WireType.number : WireType → Nat
  | .varint => 0
  | .fixed64 => 1
  | .lengthDelimited => 2
  | .fixed32 => 5

/-- The wire type of a number; groups and unassigned numbers have none. -/
def WireType.ofNumber? : Nat → Option WireType
  | 0 => some .varint
  | 1 => some .fixed64
  | 2 => some .lengthDelimited
  | 5 => some .fixed32
  | _ => none

/-- Every wire type is found by its number. -/
theorem WireType.ofNumber?_number (w : WireType) : WireType.ofNumber? w.number = some w := by
  cases w <;> rfl

/-- The scalar types of a `.proto` file. -/
inductive ScalarKind where
  | int32 | int64 | uint32 | uint64 | sint32 | sint64
  | fixed32 | fixed64 | sfixed32 | sfixed64
  | float | double | boolean | string | bytes
deriving DecidableEq, Repr

/-- The values of the C++ type behind a scalar type. -/
def ScalarKind.Carrier : ScalarKind → Type
  | .int32 | .uint32 | .sint32 | .fixed32 | .sfixed32 | .float => BitVec 32
  | .int64 | .uint64 | .sint64 | .fixed64 | .sfixed64 | .double => BitVec 64
  | .boolean => Bool
  | .string => String
  | .bytes => Bytes

instance : (k : ScalarKind) → DecidableEq k.Carrier
  | .int32 | .uint32 | .sint32 | .fixed32 | .sfixed32 | .float =>
    inferInstanceAs (DecidableEq (BitVec 32))
  | .int64 | .uint64 | .sint64 | .fixed64 | .sfixed64 | .double =>
    inferInstanceAs (DecidableEq (BitVec 64))
  | .boolean => inferInstanceAs (DecidableEq Bool)
  | .string => inferInstanceAs (DecidableEq String)
  | .bytes => inferInstanceAs (DecidableEq Bytes)

/-- The value-initialized C++ value. -/
def ScalarKind.zero : (k : ScalarKind) → k.Carrier
  | .int32 | .uint32 | .sint32 | .fixed32 | .sfixed32 | .float => (0 : BitVec 32)
  | .int64 | .uint64 | .sint64 | .fixed64 | .sfixed64 | .double => (0 : BitVec 64)
  | .boolean => false
  | .string => ""
  | .bytes => []

/-- The wire type of a single value. -/
def ScalarKind.wireType : ScalarKind → WireType
  | .int32 | .int64 | .uint32 | .uint64 | .sint32 | .sint64 | .boolean => .varint
  | .fixed32 | .sfixed32 | .float => .fixed32
  | .fixed64 | .sfixed64 | .double => .fixed64
  | .string | .bytes => .lengthDelimited

/-- Strings and byte arrays are never packed into one field. -/
def ScalarKind.isLengthDelimited : ScalarKind → Bool
  | .string | .bytes => true
  | _ => false

/-- A `float` whose exponent is all ones and whose fraction is not zero. -/
def isNaN32 (bits : BitVec 32) : Bool := (bits &&& 0x7fffffff) > 0x7f800000

/-- A `double` whose exponent is all ones and whose fraction is not zero. -/
def isNaN64 (bits : BitVec 64) : Bool := (bits &&& 0x7fffffffffffffff) > 0x7ff0000000000000

/-- The comparison `==` of two floating-point numbers: the two zeros are equal, a NaN is equal to
nothing. -/
def floatEq {w : Nat} (isNaN : BitVec w → Bool) (a b : BitVec w) : Bool :=
  !isNaN a && !isNaN b && (decide (a = b) || (a <<< 1 == 0 && b <<< 1 == 0))

/-- The comparison `==` of the C++ type. -/
def ScalarKind.isEqual : (k : ScalarKind) → k.Carrier → k.Carrier → Bool
  | .float, a, b => floatEq isNaN32 a b
  | .double, a, b => floatEq isNaN64 a b
  | .int32, a, b | .uint32, a, b | .sint32, a, b | .fixed32, a, b | .sfixed32, a, b
  | .int64, a, b | .uint64, a, b | .sint64, a, b | .fixed64, a, b | .sfixed64, a, b
  | .boolean, a, b | .string, a, b | .bytes, a, b => decide (a = b)

/-- A scalar type with one of its values, as a `QVariant` holds it. -/
abbrev Scalar := (k : ScalarKind) × k.Carrier

/-- `ProtobufFieldPresenceChecker::isPresent`: an implicitly present field is written if it does
not hold the default. -/
def ScalarKind.isPresent (k : ScalarKind) (v : k.Carrier) : Bool := !k.isEqual v k.zero

/-- The comparison of two variants of scalar type. -/
def Scalar.isEqual (a b : Scalar) : Bool :=
  if h : a.1 = b.1 then b.1.isEqual (h ▸ a.2) b.2 else false

/-- What the decoders of a running program depend on besides the bytes they are given. -/
structure Environment where
  /-- The memory behind the end of the decoded view. -/
  beyond : Nat → UInt8
  /-- The result of `byte << k` for a shift `k` of at least the width of the type. -/
  overShift : BitVec 64 → Nat → BitVec 64
  /-- What `QString::fromUtf8` makes of bytes that are not valid UTF-8. -/
  repairUtf8 : Bytes → String

/-- `QString::toUtf8`. -/
def toUtf8 (text : String) : Bytes := text.toByteArray.data.toList

/-- The byte order mark in UTF-8. -/
def byteOrderMark : Bytes := [0xEF, 0xBB, 0xBF]

/-- A byte order mark in front is not decoded. -/
def skipMark (bytes : Bytes) : Bytes :=
  if byteOrderMark <+: bytes then bytes.drop byteOrderMark.length else bytes

/-- `QString::fromUtf8`. -/
def Environment.fromUtf8 (env : Environment) (bytes : Bytes) : String :=
  (String.fromUTF8? ⟨(skipMark bytes).toArray⟩).getD (env.repairUtf8 bytes)

/-- The first character is U+FEFF, which is written as the byte order mark. -/
def startsWithMark (text : String) : Bool := text.toList.head? == some '\uFEFF'

/-- The text behind a U+FEFF in front. -/
def dropMark (text : String) : String :=
  if startsWithMark text then .ofList text.toList.tail else text

/-- A string value as it is decoded again; values of the other types stay the same. -/
def ScalarKind.unmarked : (k : ScalarKind) → k.Carrier → k.Carrier
  | .string, text => dropMark text
  | _, v => v

/-- A text that does not begin with the mark is left as it is. -/
theorem dropMark_eq_self {text : String} (h : startsWithMark text = false) :
    dropMark text = text := by
  simp [dropMark, h]

/-- Only strings lose a mark. -/
theorem ScalarKind.unmarked_eq_self {k : ScalarKind} (h : k.isLengthDelimited = false)
    (v : k.Carrier) : k.unmarked v = v := by
  cases k <;> first | rfl | cases h

/-- A text is written character by character. -/
theorem toUtf8_cons (c : Char) (l : List Char) :
    toUtf8 (.ofList (c :: l)) = String.utf8EncodeChar c ++ toUtf8 (.ofList l) := by
  simp [toUtf8, List.utf8Encode]

/-- The mark is the byte order mark's character in UTF-8. -/
theorem utf8EncodeChar_mark : String.utf8EncodeChar '\uFEFF' = byteOrderMark := by decide

/-- A text whose UTF-8 begins with the one of a character begins with this character. -/
theorem head_of_prefix {c : Char} {text : String} (h : String.utf8EncodeChar c <+: toUtf8 text) :
    text.toList.head? = some c := by
  obtain ⟨rest, hrest⟩ := h
  obtain ⟨l, rfl⟩ : ∃ l, text = .ofList l := ⟨text.toList, by simp⟩
  cases l with
  | nil =>
    have hlength := congrArg List.length hrest
    have hpos := c.utf8Size_pos
    simp [toUtf8] at hlength
    omega
  | cons c' l =>
    rw [toUtf8_cons] at hrest
    have hfirst := @ByteArray.utf8DecodeChar?_utf8EncodeChar_append rest.toByteArray c
    rw [← List.toByteArray_append, hrest, List.toByteArray_append,
      ByteArray.utf8DecodeChar?_utf8EncodeChar_append] at hfirst
    simpa using hfirst

/-- The mark that is skipped is the one of the text. -/
theorem skipMark_toUtf8 (text : String) : skipMark (toUtf8 text) = toUtf8 (dropMark text) := by
  by_cases hmark : startsWithMark text = true
  · obtain ⟨l, rfl⟩ : ∃ l, text = .ofList l := ⟨text.toList, by simp⟩
    cases l with
    | nil => simp [startsWithMark] at hmark
    | cons c l =>
      obtain rfl : c = '\uFEFF' := by simpa [startsWithMark] using hmark
      rw [dropMark, if_pos hmark, skipMark, toUtf8_cons, utf8EncodeChar_mark,
        if_pos (List.prefix_append _ _), List.drop_left]
      simp
  · rw [dropMark, if_neg hmark, skipMark, if_neg fun hprefix => hmark ?_]
    rw [← utf8EncodeChar_mark] at hprefix
    simp [startsWithMark, head_of_prefix hprefix]

/-- A string comes back without the mark it may start with. -/
theorem Environment.fromUtf8_toUtf8 (env : Environment) (text : String) :
    env.fromUtf8 (toUtf8 text) = dropMark text := by
  have hvalid : (dropMark text).toByteArray.IsValidUTF8 := (dropMark text).isValidUTF8
  rw [Environment.fromUtf8, skipMark_toUtf8]
  simp [toUtf8, String.fromUTF8?, hvalid, String.fromUTF8]

end QtGrpc.Protobuf
