import QtGrpc.Protobuf.Message
import QtGrpc.Protobuf.Json.Value

/-!
# Scalars in JSON

`ProtobufScalarJsonSerializers`: integers are numbers, except that the unsigned 64-bit types
are written as strings; byte arrays are Base64 strings. The conversions of numbers and texts
that Qt's core library makes, and its JSON parser and printer, are parameters.
-/

namespace QtGrpc.Protobuf

/-- What the JSON serializer uses of Qt's core library. -/
structure JsonEnvironment where
  /-- `QJsonDocument::fromJson`; there is none after a parse error. -/
  fromJson : Bytes → Option JsonValue
  /-- `QJsonDocument::toJson` of an object, in the compact format. -/
  toJson : JsonObject → Bytes
  /-- `QChar::toUpper`. -/
  toUpper : Char → Char
  /-- `QRegularExpressionMatch::hasMatch` of a pattern and a text. -/
  hasMatch : String → String → Bool
  /-- `QString::toLongLong`. -/
  toLongLong : String → Option (BitVec 64)
  /-- `QString::toULongLong`. -/
  toULongLong : String → Option (BitVec 64)
  /-- `convertDoubleTo` for `qint64`, and whether the integer equals the number. -/
  doubleToInt64 : BitVec 64 → Option (BitVec 64)
  /-- `convertDoubleTo` for `quint64`: what it leaves behind, and whether that equals the number. -/
  doubleToUInt64 : BitVec 64 → BitVec 64 × Bool
  /-- `QVariant::toByteArray` of a value, in lower case. -/
  lowerByteArray : JsonValue → String
  /-- `QByteArray::toFloat` of a value. -/
  toFloat : JsonValue → BitVec 32 × Bool
  /-- `QByteArray::toDouble` of a value. -/
  toDouble : JsonValue → BitVec 64 × Bool
  /-- `QByteArray::toBase64`. -/
  toBase64 : Bytes → String
  /-- `QByteArray::fromBase64`. -/
  fromBase64 : String → Bytes
  /-- The `QJsonValue` of a finite floating-point number. -/
  ofFloat : BitVec 32 → JsonValue
  ofDouble : BitVec 64 → JsonValue

/-- The number that a nonempty text of digits stands for. -/
def readDigits (digits : List Char) : Option Nat :=
  if digits ≠ [] ∧ digits.all Char.isDigit then some (Nat.ofDigitChars 10 digits 0) else none

/-- The integer that a text of digits stands for, with a sign in front or without. -/
def readInteger (text : String) : Option Int :=
  match text.toList with
  | '-' :: digits => (readDigits digits).map fun n => -(n : Int)
  | digits => (readDigits digits).map fun n => (n : Int)

/-- An environment that knows one document, and no floating-point numbers. -/
def JsonEnvironment.ofDocument (data : Bytes) (document : JsonObject) : JsonEnvironment where
  fromJson bytes := if bytes = data then some (.object document) else none
  toJson _ := data
  toUpper := Char.toUpper
  hasMatch _ text := (readInteger text).isSome
  toLongLong text :=
    ((readInteger text).filter fun n => -2 ^ 63 ≤ n ∧ n < 2 ^ 63).map (BitVec.ofInt 64)
  toULongLong text := ((readDigits text.toList).filter (· < 2 ^ 64)).map (BitVec.ofNat 64)
  doubleToInt64 _ := none
  doubleToUInt64 _ := (0, false)
  lowerByteArray _ := ""
  toFloat _ := (0, false)
  toDouble _ := (0, false)
  toBase64 bytes := String.ofList (bytes.map fun b => Char.ofNat b.toNat)
  fromBase64 text := text.toList.map fun c => UInt8.ofNat c.toNat
  ofFloat _ := .null
  ofDouble _ := .null

namespace Json

variable (env : JsonEnvironment)

/-- `validateJsonNumberString`. -/
def validateJsonNumberString (input : String) : Bool := env.hasMatch "^-?\\d+$" input

/-- The value a JSON number or a string of digits stands for, if a `qint64` can hold it. -/
def rawInteger : JsonValue → Option (BitVec 64)
  | .string text => if validateJsonNumberString env text then env.toLongLong text else none
  | .integer n => some n
  | .double d => env.doubleToInt64 d
  | _ => none

/-- The deserializer of the integers that JSON numbers can hold; `fits` tests the limits of the
narrow types. -/
def deserializeInt {w : Nat} (fits : BitVec 64 → Bool) (value : JsonValue) : BitVec w × Bool :=
  match rawInteger env value with
  | some raw => if fits raw then (raw.setWidth w, true) else (0, false)
  | none => (0, false)

/-- The limits of the signed 32-bit types. -/
def fitsInt32 (raw : BitVec 64) : Bool := decide (-2 ^ 31 ≤ raw.toInt ∧ raw.toInt ≤ 2 ^ 31 - 1)

/-- The limits of the unsigned 32-bit types. -/
def fitsUInt32 (raw : BitVec 64) : Bool := decide (0 ≤ raw.toInt ∧ raw.toInt ≤ 2 ^ 32 - 1)

/-- The deserializer of the unsigned 64-bit types. -/
def deserializeUInt64 : JsonValue → BitVec 64 × Bool
  | .string text => ((env.toULongLong text).getD 0, (env.toULongLong text).isSome)
  | .integer n => (n, true)
  | .double d => env.doubleToUInt64 d
  | _ => (0, false)

/-- The deserializer of the floating-point types, given the infinities, a NaN and the reading of
any other text. -/
def deserializeFloat {w : Nat} (negInfinity infinity nan : BitVec w) (read : JsonValue → BitVec w × Bool)
    (value : JsonValue) : BitVec w × Bool :=
  let data := env.lowerByteArray value
  if data = "-infinity" then (negInfinity, true)
  else if data = "infinity" then (infinity, true)
  else if data = "nan" then (nan, true)
  else read value

def deserializeBool : JsonValue → Bool × Bool
  | .bool b => (b, true)
  | .string text =>
    if text = "true" then (true, true) else if text = "false" then (false, true) else (false, false)
  | _ => (false, false)

def deserializeString : JsonValue → String × Bool
  | .string text => (text, true)
  | _ => ("", false)

def deserializeBytes : JsonValue → Bytes × Bool
  | .string text => (env.fromBase64 text, true)
  | _ => ([], false)

/-- `deserialize` of a scalar type. -/
def deserializeScalar : (k : ScalarKind) → JsonValue → k.Carrier × Bool
  | .int32, value | .sint32, value | .sfixed32, value => deserializeInt env fitsInt32 value
  | .uint32, value | .fixed32, value => deserializeInt env fitsUInt32 value
  | .int64, value | .sint64, value | .sfixed64, value =>
    deserializeInt env (fun _ => true) value
  | .uint64, value | .fixed64, value => deserializeUInt64 env value
  | .float, value => deserializeFloat env 0xff800000 0x7f800000 0x7fc00000 env.toFloat value
  | .double, value =>
    deserializeFloat env 0xfff0000000000000 0x7ff0000000000000 0x7ff8000000000000 env.toDouble value
  | .boolean, value => deserializeBool value
  | .string, value => deserializeString value
  | .bytes, value => deserializeBytes env value

/-- The loop of `deserializeList`: it ends at the first item that cannot be converted. -/
def deserializeItems (k : ScalarKind) (ok : Bool) (list : List k.Carrier) :
    List JsonValue → List k.Carrier × Bool
  | [] => (list, ok)
  | item :: items =>
    match deserializeScalar env k item with
    | (v, true) => deserializeItems k true (list ++ [v]) items
    | (_, false) => (list, false)

/-- `deserializeList`, with `ok` false before. -/
def deserializeList (k : ScalarKind) : JsonValue → Value × Bool
  | .array items =>
    let (list, ok) := deserializeItems env k false [] items
    (.scalars k list, ok)
  | _ => (.null, false)

/-- `deserializeCommon`. -/
def deserializeCommon (k : ScalarKind) (value : JsonValue) : Value × Bool :=
  let (v, ok) := deserializeScalar env k value
  (.scalar ⟨k, v⟩, ok)

/-- `serialize` of a floating-point number. -/
def serializeFloat {w : Nat} (negInfinity infinity : BitVec w) (isNaN : BitVec w → Bool)
    (ofFinite : BitVec w → JsonValue) (v : BitVec w) : JsonValue :=
  if v = negInfinity then .string "-Infinity"
  else if v = infinity then .string "Infinity"
  else if isNaN v then .string "NaN"
  else ofFinite v

/-- `serialize` of a scalar type. -/
def serializeScalar : (k : ScalarKind) → k.Carrier → JsonValue
  | .int32, v | .sint32, v | .sfixed32, v => .integer (BitVec.signExtend 64 (v : BitVec 32))
  | .uint32, v | .fixed32, v => .integer (BitVec.setWidth 64 (v : BitVec 32))
  | .int64, v | .sint64, v | .sfixed64, v => .integer v
  | .uint64, v | .fixed64, v => .string (toString (BitVec.toNat (v : BitVec 64)))
  | .float, v => serializeFloat 0xff800000 0x7f800000 isNaN32 env.ofFloat v
  | .double, v => serializeFloat 0xfff0000000000000 0x7ff0000000000000 isNaN64 env.ofDouble v
  | .boolean, v => .bool v
  | .string, v => .string v
  | .bytes, v => .string (env.toBase64 v)

/-- `QVariant::toString` of a map key. No map has keys of the other types. -/
def keyText : Scalar → String
  | ⟨.int32, v⟩ | ⟨.sint32, v⟩ | ⟨.sfixed32, v⟩ => toString (BitVec.toInt (v : BitVec 32))
  | ⟨.uint32, v⟩ | ⟨.fixed32, v⟩ => toString (BitVec.toNat (v : BitVec 32))
  | ⟨.int64, v⟩ | ⟨.sint64, v⟩ | ⟨.sfixed64, v⟩ => toString (BitVec.toInt (v : BitVec 64))
  | ⟨.uint64, v⟩ | ⟨.fixed64, v⟩ => toString (BitVec.toNat (v : BitVec 64))
  | ⟨.boolean, v⟩ => bif v then "true" else "false"
  | ⟨.string, v⟩ => v
  | _ => ""

/-- A list is a value unless what it is read from is no array. -/
theorem isNull_deserializeList (k : ScalarKind) (value : JsonValue) :
    (deserializeList env k value).1.isNull = (match value with
      | .array _ => false
      | _ => true) := by
  cases value <;> rfl

end Json

end QtGrpc.Protobuf
