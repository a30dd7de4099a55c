import QtGrpc.Protobuf.Contents
import QtGrpc.Protobuf.Json.Deserializer
import QtGrpc.Protobuf.Json.Serializer

/-!
# Scalars that JSON gives back

The decoder reads every scalar from the value it was written as, and every key of a map from the
text it was written as, if the conversions of Qt's core library invert each other. Only the sign of a
zero and the bits of a NaN are lost.
-/

namespace QtGrpc.Protobuf.Json

/-- A floating-point number is kept unless it is a negative zero or a NaN other than this one. -/
def isKeptFloat {w : Nat} (nan negZero : BitVec w) (isNaN : BitVec w → Bool) (v : BitVec w) : Bool :=
  v == nan || !isNaN v && v != negZero

/-- The scalars that their JSON values tell from all others. -/
def isKept : (k : ScalarKind) → k.Carrier → Bool
  | .float, v => isKeptFloat 0x7fc00000 0x80000000 isNaN32 v
  | .double, v => isKeptFloat 0x7ff8000000000000 0x8000000000000000 isNaN64 v
  | _, _ => true

variable (env : JsonEnvironment)

/-- A value from which the decoder reads this number. -/
structure ReadsNumber {w : Nat} (read : JsonValue → BitVec w × Bool) (value : JsonValue)
    (v : BitVec w) : Prop where
  text : env.lowerByteArray value ∉ ["-infinity", "infinity", "nan"]
  read : read value = (v, true)
  isNull : value.isNull = false

/-- The conversions of Qt's core library that are made for writing are inverted by those that are
made for reading. -/
structure ConvertsBack : Prop where
  hasMatch : ∀ n : BitVec 64, env.hasMatch "^-?\\d+$" (toString n.toInt) = true
  toLongLong : ∀ n : BitVec 64, env.toLongLong (toString n.toInt) = some n
  toULongLong : ∀ n : BitVec 64, env.toULongLong (toString n.toNat) = some n
  fromBase64 : ∀ data, env.fromBase64 (env.toBase64 data) = data
  negInfinity : env.lowerByteArray (.string "-Infinity") = "-infinity"
  infinity : env.lowerByteArray (.string "Infinity") = "infinity"
  nan : env.lowerByteArray (.string "NaN") = "nan"
  ofFloat : ∀ v : BitVec 32, isNaN32 v = false → v ∉ [0xff800000, 0x7f800000, 0x80000000] →
    ReadsNumber env env.toFloat (env.ofFloat v) v
  ofDouble : ∀ v : BitVec 64, isNaN64 v = false →
    v ∉ [0xfff0000000000000, 0x7ff0000000000000, 0x8000000000000000] →
    ReadsNumber env env.toDouble (env.ofDouble v) v

variable {env}

/-- A printed integer is read as itself. -/
theorem rawInteger_toString (h : ConvertsBack env) (n : BitVec 64) :
    rawInteger env (.string (toString n.toInt)) = some n := by
  simp only [rawInteger, validateJsonNumberString, h.hasMatch, h.toLongLong, if_true]

/-- Extending the sign keeps a signed value. -/
theorem toInt_signExtend (v : BitVec 32) : (v.signExtend 64).toInt = v.toInt :=
  BitVec.toInt_signExtend_of_le (by decide)

/-- Extending with zeros gives the unsigned value. -/
theorem toInt_setWidth (v : BitVec 32) : (v.setWidth 64).toInt = (v.toNat : Int) := by
  rw [BitVec.toInt_eq_toNat_of_lt] <;> simp only [BitVec.toNat_setWidth] <;> omega

/-- A signed integer is read from what it is extended to. -/
theorem deserializeInt_signExtend {value : JsonValue} {v : BitVec 32}
    (hraw : rawInteger env value = some (v.signExtend 64)) :
    deserializeInt env fitsInt32 value = (v, true) := by
  have hfits : fitsInt32 (v.signExtend 64) = true := by
    have hlower := @BitVec.le_toInt 32 v
    have hupper := @BitVec.toInt_lt 32 v
    simp only [fitsInt32, toInt_signExtend, decide_eq_true_eq]
    omega
  have hback : (v.signExtend 64).setWidth 32 = v := by
    apply BitVec.eq_of_getLsbD_eq
    intro i hi
    rw [BitVec.getLsbD_setWidth, BitVec.getLsbD_signExtend]
    simp [hi, Nat.lt_trans hi (show 32 < 64 by decide)]
  simp only [deserializeInt, hraw, hfits, if_true, hback]

/-- An unsigned integer is read from what it is extended to. -/
theorem deserializeInt_setWidth {value : JsonValue} {v : BitVec 32}
    (hraw : rawInteger env value = some (v.setWidth 64)) :
    deserializeInt env fitsUInt32 value = (v, true) := by
  have hfits : fitsUInt32 (v.setWidth 64) = true := by
    simp only [fitsUInt32, toInt_setWidth, decide_eq_true_eq]
    omega
  simp [deserializeInt, hraw, hfits]

/-- An integer within its bounds is read as it is. -/
theorem deserializeInt_self {value : JsonValue} {v : BitVec 64} (hraw : rawInteger env value = some v) :
    deserializeInt env (fun _ => true) value = (v, true) := by
  simp [deserializeInt, hraw]

/-- A printed signed 32-bit value is read as its extension by the sign. -/
theorem rawInteger_signExtend (h : ConvertsBack env) (v : BitVec 32) :
    rawInteger env (.string (toString v.toInt)) = some (v.signExtend 64) := by
  rw [← toInt_signExtend]
  exact rawInteger_toString h _

/-- A printed unsigned 32-bit value is read as its extension by zeros. -/
theorem rawInteger_setWidth (h : ConvertsBack env) (v : BitVec 32) :
    rawInteger env (.string (toString v.toNat)) = some (v.setWidth 64) := by
  have hraw := rawInteger_toString h (v.setWidth 64)
  rwa [toInt_setWidth] at hraw

/-- A printed unsigned 64-bit value is read as itself. -/
theorem deserializeUInt64_toString (h : ConvertsBack env) (v : BitVec 64) :
    deserializeUInt64 env (.string (toString v.toNat)) = (v, true) := by
  simp only [deserializeUInt64, h.toULongLong, Option.getD_some, Option.isSome_some]

/-- A floating-point number is read from what it was written as. -/
theorem deserializeFloat_serializeFloat {w : Nat} {negInfinity infinity nan negZero : BitVec w}
    {isNaN : BitVec w → Bool} {read : JsonValue → BitVec w × Bool} {ofFinite : BitVec w → JsonValue}
    (h : ConvertsBack env) (hnan : isNaN nan = true) (hinf : nan ≠ infinity)
    (hneg : nan ≠ negInfinity) (hdistinct : infinity ≠ negInfinity)
    (hfinite : ∀ v, isNaN v = false → v ∉ [negInfinity, infinity, negZero] →
      ReadsNumber env read (ofFinite v) v)
    (v : BitVec w) (hv : isKeptFloat nan negZero isNaN v = true) :
    deserializeFloat env negInfinity infinity nan read
        (serializeFloat negInfinity infinity isNaN ofFinite v) = (v, true) ∧
      (serializeFloat negInfinity infinity isNaN ofFinite v).isNull = false := by
  unfold serializeFloat
  by_cases hvneg : v = negInfinity
  · subst hvneg
    simp [deserializeFloat, h.negInfinity, JsonValue.isNull]
  by_cases hvinf : v = infinity
  · subst hvinf
    simp [hvneg, deserializeFloat, h.infinity, JsonValue.isNull]
  simp only [hvneg, hvinf, if_false]
  simp only [isKeptFloat, Bool.or_eq_true, beq_iff_eq, Bool.and_eq_true, Bool.not_eq_eq_eq_not,
    Bool.not_true, bne_iff_ne] at hv
  rcases hv with rfl | ⟨hvnan, hvzero⟩
  · simp [hnan, deserializeFloat, h.nan, JsonValue.isNull]
  · obtain ⟨htext, hread, hnull⟩ := hfinite v hvnan (by simp [hvneg, hvinf, hvzero])
    simp only [List.mem_cons, List.not_mem_nil, or_false, not_or] at htext
    simp [hvnan, deserializeFloat, htext, hread, hnull]

/-- A scalar that JSON keeps is read from the value it was written as, which is not null. -/
theorem deserializeScalar_serializeScalar (h : ConvertsBack env) (k : ScalarKind) (v : k.Carrier)
    (hv : isKept k v = true) :
    deserializeScalar env k (serializeScalar env k v) = (v, true) ∧
      (serializeScalar env k v).isNull = false := by
  cases k with
  | int32 | sint32 | sfixed32 => exact ⟨@deserializeInt_signExtend env (serializeScalar env .int32 v) v rfl, rfl⟩
  | uint32 | fixed32 => exact ⟨@deserializeInt_setWidth env (serializeScalar env .uint32 v) v rfl, rfl⟩
  | int64 | sint64 | sfixed64 => exact ⟨@deserializeInt_self env (serializeScalar env .int64 v) v rfl, rfl⟩
  | uint64 | fixed64 => exact ⟨deserializeUInt64_toString h v, rfl⟩
  | float =>
    exact deserializeFloat_serializeFloat h (by decide) (by decide) (by decide) (by decide) h.ofFloat
      v hv
  | double =>
    exact deserializeFloat_serializeFloat h (by decide) (by decide) (by decide) (by decide) h.ofDouble
      v hv
  | boolean | string => exact ⟨rfl, rfl⟩
  | bytes => exact ⟨congrArg (·, true) (h.fromBase64 v), rfl⟩

/-- The items of a list are read one by one. -/
theorem deserializeItems_map (h : ConvertsBack env) {k : ScalarKind} (vs : List k.Carrier)
    (hvs : ∀ v ∈ vs, isKept k v = true) (ok : Bool) (list : List k.Carrier) :
    deserializeItems env k ok list (vs.map (serializeScalar env k)) =
      (list ++ vs, ok || !vs.isEmpty) := by
  induction vs generalizing ok list with
  | nil => simp [deserializeItems]
  | cons v vs ih =>
    have hv := (deserializeScalar_serializeScalar h k v (hvs v List.mem_cons_self)).1
    rw [List.map_cons, deserializeItems, hv]
    simp [ih fun w hw => hvs w (List.mem_cons_of_mem v hw)]

/-- A list that is not empty is read from what it was written as. -/
theorem deserializeList_serializeList (h : ConvertsBack env) {k : ScalarKind} {vs : List k.Carrier}
    (hne : vs ≠ []) (hvs : ∀ v ∈ vs, isKept k v = true) :
    deserializeList env k (serializeList env k vs) = (.scalars k vs, true) := by
  have hok : (!vs.isEmpty) = true := by simpa using hne
  simp only [serializeList, deserializeList, deserializeItems_map h vs hvs, List.nil_append,
    Bool.false_or, hok]

/-- A key is read from the text it was written as. -/
theorem deserializeScalar_keyText (h : ConvertsBack env) {k : ScalarKind} (hk : k.isMapKey = true)
    (v : k.Carrier) : deserializeScalar env k (.string (keyText ⟨k, v⟩)) = (v, true) := by
  cases k with
  | float | double | bytes => cases hk
  | int32 | sint32 | sfixed32 => exact deserializeInt_signExtend (rawInteger_signExtend h v)
  | uint32 | fixed32 => exact deserializeInt_setWidth (rawInteger_setWidth h v)
  | int64 | sint64 | sfixed64 => exact deserializeInt_self (rawInteger_toString h v)
  | uint64 | fixed64 => exact deserializeUInt64_toString h v
  | boolean => cases v <;> rfl
  | string => rfl

/-- Different keys are written as different texts. -/
theorem keyText_injective (h : ConvertsBack env) {a b : Scalar} (hkind : a.1 = b.1)
    (hk : a.1.isMapKey = true) (htext : keyText a = keyText b) : a = b := by
  obtain ⟨k, v⟩ := a
  obtain ⟨k', w⟩ := b
  obtain rfl : k = k' := hkind
  have hread := deserializeScalar_keyText h hk v
  rw [htext, deserializeScalar_keyText h hk w] at hread
  rw [(Prod.mk.inj hread).1]

end QtGrpc.Protobuf.Json
