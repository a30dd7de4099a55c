/-!
# Byte arrays

The octets held by a `QByteArray`, as the transport and the serializers exchange them, and
the few operations of that class the sources apply to them.
-/

namespace QtGrpc

/-- The content of a `QByteArray`. -/
abbrev Bytes := List UInt8

/-- A byte array written as an ASCII literal. -/
def ascii (text : String) : Bytes := text.toList.map fun c => UInt8.ofNat c.toNat

/-- Only the ASCII letters have a lower case in a byte array. -/
def Bytes.toLower (bytes : Bytes) : Bytes :=
  bytes.map fun b => if 65 ≤ b ∧ b ≤ 90 then b + 32 else b

end QtGrpc
