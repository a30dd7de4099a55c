import QtGrpc.Library.Signed
import QtGrpc.Protobuf.SerializerBase
import QtGrpc.Protobuf.Json.Deserializer

/-!
# Integers in JSON

The integer that a JSON value denotes, as a number or as a decimal text, and what the decoder makes
of it for the ten integer types. The unsigned 64-bit types take the bits of a signed integer as they
are.
-/

namespace QtGrpc.Protobuf

namespace ScalarKind

/-- The integer types. -/
def isInteger : ScalarKind → Bool
  | .int32 | .sint32 | .sfixed32 | .uint32 | .fixed32
  | .int64 | .sint64 | .sfixed64 | .uint64 | .fixed64 => true
  | .float | .double | .boolean | .string | .bytes => false

/-- The unsigned 64-bit types. -/
def isUInt64 : ScalarKind → Bool
  | .uint64 | .fixed64 => true
  | _ => false

/-- The integer that a value of an integer type is. -/
def toInteger : (k : ScalarKind) → k.Carrier → Int
  | .int32, v | .sint32, v | .sfixed32, v => BitVec.toInt (v : BitVec 32)
  | .uint32, v | .fixed32, v => BitVec.toNat (v : BitVec 32)
  | .int64, v | .sint64, v | .sfixed64, v => BitVec.toInt (v : BitVec 64)
  | .uint64, v | .fixed64, v => BitVec.toNat (v : BitVec 64)
  | _, _ => 0

end ScalarKind

namespace Json

/-- The number that a finite `double` is. -/
def doubleValue (bits : BitVec 64) : Option ℚ :=
  let exponent := (bits.extractLsb' 52 11).toNat
  let fraction := (bits.extractLsb' 0 52).toNat
  let sign : ℚ := if bits.msb then -1 else 1
  if exponent = 2047 then none
  else if exponent = 0 then some (sign * fraction / 2 ^ 1074)
  else some (sign * (2 ^ 52 + fraction) * 2 ^ exponent / 2 ^ 1075)

/-- `QChar::isSpace`. -/
def isSpace (c : Char) : Bool :=
  let n := c.toNat
  n = 0x20 || (0x09 ≤ n && n ≤ 0x0d) || n = 0x85 || n = 0xa0 || n = 0x1680 ||
    (0x2000 ≤ n && n ≤ 0x200a) || n = 0x2028 || n = 0x2029 || n = 0x202f || n = 0x205f || n = 0x3000

/-- The integer that a decimal text stands for, which may have a sign in front and blanks around. -/
def decimalValue (text : String) : Option Int :=
  let trimmed := ((text.toList.dropWhile isSpace).reverse.dropWhile isSpace).reverse
  match trimmed with
  | '-' :: digits => (readDigits digits).map fun n => -(n : Int)
  | '+' :: digits => (readDigits digits).map fun n => (n : Int)
  | digits => (readDigits digits).map fun n => (n : Int)

/-- A number or a decimal text denotes this integer. -/
def Denotes (value : JsonValue) (n : Int) : Prop :=
  match value with
  | .integer i => i.toInt = n
  | .double d => doubleValue d = some (n : ℚ)
  | .string text => decimalValue text = some n
  | _ => False

/-- The conversions of Qt's core library succeed only with the number they are given. -/
structure ConvertsExactly (env : JsonEnvironment) : Prop where
  toLongLong : ∀ text n, env.toLongLong text = some n → decimalValue text = some n.toInt
  toULongLong : ∀ text n, env.toULongLong text = some n → decimalValue text = some (n.toNat : Int)
  doubleToInt64 : ∀ d n, env.doubleToInt64 d = some n → doubleValue d = some (n.toInt : ℚ)
  doubleToUInt64 : ∀ d n, env.doubleToUInt64 d = (n, true) → doubleValue d = some ((n.toNat : Int) : ℚ)

/-- An unsigned 64-bit type is to be read from a negative integer. -/
def WrapsNegative (k : ScalarKind) (value : JsonValue) : Prop :=
  k.isUInt64 ∧ ∃ n : BitVec 64, value = .integer n ∧ n.toInt < 0

variable {env : JsonEnvironment}

/-- The raw integer is the one that is denoted. -/
theorem denotes_rawInteger (h : ConvertsExactly env) {value : JsonValue} {raw : BitVec 64}
    (hraw : rawInteger env value = some raw) : Denotes value raw.toInt := by
  cases value with
  | integer n =>
    cases hraw
    rfl
  | double d => exact h.doubleToInt64 d raw hraw
  | string text =>
    simp only [rawInteger] at hraw
    split at hraw
    · exact h.toLongLong text raw hraw
    · cases hraw
  | _ => cases hraw

/-- A narrow integer is read from a raw one that passed the test of its limits. -/
theorem denotes_deserializeInt (h : ConvertsExactly env) {w : Nat} {fits : BitVec 64 → Bool}
    {value : JsonValue} (hok : (deserializeInt (w := w) env fits value).2 = true) :
    ∃ raw : BitVec 64, Denotes value raw.toInt ∧ fits raw ∧
      (deserializeInt env fits value).1 = raw.setWidth w := by
  unfold deserializeInt at hok ⊢
  cases hraw : rawInteger env value with
  | none =>
    rw [hraw] at hok
    cases hok
  | some raw =>
    simp only [hraw] at hok ⊢
    split at hok
    · rename_i hfits
      rw [if_pos hfits]
      exact ⟨raw, denotes_rawInteger h hraw, hfits, rfl⟩
    · cases hok

/-- The bits of an integer are the integer unless it is negative. -/
theorem denotes_deserializeUInt64_iff (h : ConvertsExactly env) (value : JsonValue) :
    ((deserializeUInt64 env value).2 = true →
      Denotes value ((deserializeUInt64 env value).1.toNat : Int)) ↔
      ¬∃ n : BitVec 64, value = .integer n ∧ n.toInt < 0 := by
  cases value with
  | integer n =>
    have hbits := BitVec.toInt_eq_toNat_cond n
    have hbound := n.isLt
    simp only [deserializeUInt64, Denotes, forall_true_left, JsonValue.integer.injEq,
      exists_eq_left', not_lt]
    split at hbits <;> omega
  | double d =>
    simp only [reduceCtorEq, false_and, exists_false, not_false_eq_true, iff_true]
    intro hok
    exact h.doubleToUInt64 d _ (Prod.ext rfl hok)
  | string text =>
    simp only [reduceCtorEq, false_and, exists_false, not_false_eq_true, iff_true]
    intro hok
    obtain ⟨n, hn⟩ := Option.isSome_iff_exists.mp hok
    simp only [deserializeUInt64, hn, Option.getD_some]
    exact h.toULongLong text n hn
  | _ => simp [deserializeUInt64]

/-- A value is accepted only if it denotes an integer of the type, which is then the result, except
that the unsigned 64-bit types wrap negative integers. -/
theorem denotes_deserializeScalar_iff (h : ConvertsExactly env) {k : ScalarKind} (hk : k.isInteger)
    (value : JsonValue) :
    ((deserializeScalar env k value).2 = true →
      Denotes value (k.toInteger (deserializeScalar env k value).1)) ↔ ¬WrapsNegative k value := by
  have hsigned (hok : (deserializeInt (w := 32) env fitsInt32 value).2 = true) :
      Denotes value (BitVec.toInt (deserializeInt (w := 32) env fitsInt32 value).1) := by
    obtain ⟨raw, hdenotes, hfits, hraw⟩ := denotes_deserializeInt h hok
    rw [fitsInt32, decide_eq_true_eq] at hfits
    rw [hraw, Signed.toInt_setWidth_of_inRange raw (by decide) (by decide) (by constructor <;> omega)]
    exact hdenotes
  have hunsigned (hok : (deserializeInt (w := 32) env fitsUInt32 value).2 = true) :
      Denotes value (BitVec.toNat (deserializeInt (w := 32) env fitsUInt32 value).1 : Int) := by
    obtain ⟨raw, hdenotes, hfits, hraw⟩ := denotes_deserializeInt h hok
    rw [fitsUInt32, decide_eq_true_eq] at hfits
    have hbits := BitVec.toInt_eq_toNat_cond raw
    have hnat : ((raw.setWidth 32).toNat : Int) = raw.toInt := by
      rw [BitVec.toNat_setWidth]
      split at hbits <;> omega
    rw [hraw, hnat]
    exact hdenotes
  have hwide (hok : (deserializeInt (w := 64) env (fun _ => true) value).2 = true) :
      Denotes value (BitVec.toInt (deserializeInt (w := 64) env (fun _ => true) value).1) := by
    obtain ⟨raw, hdenotes, -, hraw⟩ := denotes_deserializeInt h hok
    rw [hraw, BitVec.setWidth_eq]
    exact hdenotes
  have hnone (hk : k.isUInt64 = false) : ¬WrapsNegative k value := by
    rintro ⟨hk', -⟩
    rw [hk] at hk'
    cases hk'
  have hwraps := denotes_deserializeUInt64_iff h value
  cases k with
  | int32 | sint32 | sfixed32 => exact iff_of_true hsigned (hnone rfl)
  | uint32 | fixed32 => exact iff_of_true hunsigned (hnone rfl)
  | int64 | sint64 | sfixed64 => exact iff_of_true hwide (hnone rfl)
  | uint64 | fixed64 =>
    simp only [WrapsNegative, ScalarKind.isUInt64, true_and]
    exact hwraps
  | float | double | boolean | string | bytes => cases hk

/-! ## Lists -/

/-- The items of a list are converted one by one up to the first that is refused. -/
theorem deserializeItems_eq (k : ScalarKind) (ok : Bool) (list : List k.Carrier)
    (items : List JsonValue) :
    ∃ read, (deserializeItems env k ok list items).1 = list ++ read ∧
      List.Forall₂ (fun item v => deserializeScalar env k item = (v, true))
        (items.take read.length) read ∧
      ((deserializeItems env k ok list items).2 = true → read.length = items.length) := by
  induction items generalizing ok list with
  | nil => exact ⟨[], by simp [deserializeItems], by simp, by simp⟩
  | cons item items ih =>
    cases hitem : deserializeScalar env k item with
    | mk v accepted =>
      cases accepted with
      | false => exact ⟨[], by simp [deserializeItems, hitem], by simp, by simp [deserializeItems, hitem]⟩
      | true =>
        obtain ⟨read, hlist, hread, hlength⟩ := ih true (list ++ [v])
        refine ⟨v :: read, ?_, ?_, ?_⟩
        · simp [deserializeItems, hitem, hlist]
        · simpa using ⟨hitem, hread⟩
        · intro hok
          simp only [deserializeItems, hitem] at hok
          simp [hlength hok]

/-! ## Fields -/

/-- A scalar field has the value that was read, and an error if none was. -/
theorem deserializeScalarField_scalar {f : FieldInfo} {k : ScalarKind} (htype : f.type = .scalar k)
    (s : Deserializer) (old : Value) :
    (deserializeScalarField env f s old).2.1 = .scalar ⟨k, (deserializeScalar env k s.scalarValue).1⟩ ∧
      (s.hasError = false → ((deserializeScalarField env f s old).1.hasError = false ↔
        (deserializeScalar env k s.scalarValue).2 = true)) := by
  unfold deserializeScalarField
  rw [htype]
  simp only [deserializeCommon, readScalar]
  cases hread : deserializeScalar env k s.scalarValue with
  | mk v ok =>
    cases ok with
    | true =>
      simp only [iff_true, true_and]
      exact id
    | false => simp [Deserializer.setInvalidFormatError, Deserializer.setError, Deserializer.hasError]

/-- A list is read without an error only from an array whose items are all accepted. -/
theorem deserializeScalarField_list {f : FieldInfo} {k : ScalarKind} (htype : f.type = .list k)
    (s : Deserializer) (old : Value) (h : (deserializeScalarField env f s old).1.hasError = false) :
    ∃ items vs, s.scalarValue = .array items ∧
      (deserializeScalarField env f s old).2.1 = .scalars k vs ∧
      List.Forall₂ (fun item v => deserializeScalar env k item = (v, true)) items vs := by
  unfold deserializeScalarField at h ⊢
  rw [htype] at h ⊢
  simp only [readScalar] at h ⊢
  cases hvalue : s.scalarValue with
  | array items =>
    obtain ⟨read, hlist, hread, hlength⟩ := @deserializeItems_eq env k false [] items
    rw [hvalue] at h
    simp only [deserializeList] at h ⊢
    cases hitems : deserializeItems env k false [] items with
    | mk vs ok =>
      rw [hitems] at hlist hlength
      cases ok with
      | false =>
        rw [hitems] at h
        simp [Deserializer.setInvalidFormatError, Deserializer.setError, Deserializer.hasError] at h
      | true =>
        obtain rfl : vs = read := by simpa using hlist
        rw [hlength rfl, List.take_length] at hread
        exact ⟨items, vs, rfl, rfl, hread⟩
  | _ =>
    rw [hvalue] at h
    simp [deserializeList, Deserializer.setInvalidFormatError, Deserializer.setError,
      Deserializer.hasError] at h

/-- The key of an entry is not taken for its value. -/
theorem findKey_value (first json : JsonValue) :
    findKey env [("key", first), ("value", json)] "value" = some "value" := by
  have hname : convertJsonKeyToJsonName env "key" = "key" := rfl
  have hne : keyMatches env "value" "key" = false := by
    rw [keyMatches, hname]
    rfl
  have heq : keyMatches env "value" "value" = true := rfl
  simp [findKey, hne, heq]

/-- The key and the value of a map entry are read like two fields. -/
theorem scalarValue_entry (S : Schema) (key kind : ScalarKind) (text : String) {json : JsonValue}
    (hjson : json.isNull = false) (s : Deserializer) (scalarValue : Option JsonValue)
    (rest : List JsonState)
    (hs : s.state = ⟨[("key", .string text), ("value", json)], 0, scalarValue⟩ :: rest) :
    (nextFieldIndex env S (.mapEntry key (.scalar kind)) s).2 = .field 0 ∧
      (nextFieldIndex env S (.mapEntry key (.scalar kind)) s).1.scalarValue = .string text ∧
      (nextFieldIndex env S (.mapEntry key (.scalar kind))
        (nextFieldIndex env S (.mapEntry key (.scalar kind)) s).1).2 = .field 1 ∧
      (nextFieldIndex env S (.mapEntry key (.scalar kind))
        (nextFieldIndex env S (.mapEntry key (.scalar kind)) s).1).1.scalarValue = json := by
  obtain ⟨state, lastError, lastErrorString, events⟩ := s
  simp only at hs
  subst hs
  obtain ⟨events₁, hfirst⟩ : ∃ events₁, nextFieldIndex env S (.mapEntry key (.scalar kind))
      ⟨⟨[("key", .string text), ("value", json)], 0, scalarValue⟩ :: rest, lastError,
        lastErrorString, events⟩ =
      (⟨⟨[("key", .string text), ("value", json)], 1, some (.string text)⟩ :: rest, lastError,
        lastErrorString, events₁⟩, .field 0) := ⟨_, rfl⟩
  obtain ⟨events₂, hsecond⟩ : ∃ events₂, nextFieldIndex env S (.mapEntry key (.scalar kind))
      ⟨⟨[("key", .string text), ("value", json)], 1, some (.string text)⟩ :: rest, lastError,
        lastErrorString, events₁⟩ =
      (⟨⟨[("key", .string text), ("value", json)], 2, some json⟩ :: rest, lastError,
        lastErrorString, events₂⟩, .field 1) := by
    have hfind : findField env
        [{ fieldNumber := 2, jsonName := "value", type := .scalar kind, presence := .mapEntry }]
        ⟨[("key", .string text), ("value", json)], 1, some .null⟩ =
        .scalar ⟨[("key", .string text), ("value", json)], 2, some json⟩ 1
          { fieldNumber := 2, jsonName := "value", type := .scalar kind, presence := .mapEntry }
          json := by
      rw [findField]
      simp only [findKey_value]
      cases json with
      | null => cases hjson
      | _ => rfl
    simp [nextFieldIndex, Schema.propertyOrdering, MessageDescriptor.mapEntry,
      PropertyType.ofMapValue, Deserializer.met, hfind]
  rw [hfirst, hsecond]
  exact ⟨rfl, rfl, rfl, rfl⟩

/-- Only the same integer is equal to an integer. -/
theorem eq_of_sameInteger {k : ScalarKind} (hk : k.isInteger) {old : Value} {v : k.Carrier}
    (h : old.sameScalar (.scalar ⟨k, v⟩) = true) : old = .scalar ⟨k, v⟩ := by
  cases old with
  | scalar a =>
    obtain ⟨k', a⟩ := a
    simp only [Value.sameScalar, Scalar.isEqual] at h
    split at h
    · rename_i hkind
      change k' = k at hkind
      subst hkind
      cases k' <;> simp_all [ScalarKind.isEqual, ScalarKind.isInteger]
    · cases h
  | _ => simp [Value.sameScalar] at h

theorem eq_of_sameIntegers {k : ScalarKind} (hk : k.isInteger) {vs ws : List k.Carrier}
    (h : sameList vs ws = true) : vs = ws := by
  simp only [sameList, Bool.and_eq_true, beq_iff_eq, List.all_eq_true] at h
  obtain ⟨hlength, hall⟩ := h
  refine List.ext_getElem hlength fun n hn hn' => ?_
  have hsame : (Value.scalar ⟨k, vs[n]⟩).sameScalar (.scalar ⟨k, ws[n]⟩) = true :=
    hall (vs[n], ws[n]) (List.mem_iff_getElem.mpr ⟨n, by simp; omega, by simp⟩)
  have heq := eq_of_sameInteger hk hsame
  simpa using heq

theorem isEqual_scalar (S : Schema) (old : Value) (s : Scalar) :
    S.isEqual old (.scalar s) = old.sameScalar (.scalar s) := by
  cases old <;> rfl

/-- The setter of an integer field stores the value it is given. -/
theorem messageProperty_setMessageProperty (S : Schema) (m : Message) (i : Nat) {f : FieldInfo}
    {k : ScalarKind} (hk : k.isInteger) (htype : f.type = .scalar k) (hnumber : 0 < f.fieldNumber)
    (v : k.Carrier) :
    (S.setMessageProperty m i f (.scalar ⟨k, v⟩)).2 = true ∧
      (S.setMessageProperty m i f (.scalar ⟨k, v⟩)).1.messageProperty i f = .scalar ⟨k, v⟩ := by
  unfold Schema.setMessageProperty Message.messageProperty
  simp only [htype, Schema.convert]
  cases f.presence with
  | oneof j =>
    simp only
    split
    · rename_i hsame
      obtain ⟨hn, hequal⟩ := hsame
      have hold := eq_of_sameInteger hk ((isEqual_scalar S _ _).symm.trans hequal)
      simp [holdsField, hn, hold, hnumber.ne', Value.isNull]
    · simp [holdsField, Message.oneofState, hnumber.ne', Value.isNull]
  | optional | mapEntry =>
    simp only
    split
    · rename_i hequal
      exact ⟨rfl, eq_of_sameInteger hk ((isEqual_scalar S _ _).symm.trans hequal)⟩
    · simp
  | implicit | required => simp [Schema.assigned]

/-- The setter of a list of integers stores the list it is given. -/
theorem messageProperty_setMessageProperty_list (S : Schema) (m : Message) (i : Nat) {f : FieldInfo}
    {k : ScalarKind} (hk : k.isInteger) (htype : f.type = .list k) (hfits : f.presenceFits = true)
    (vs : List k.Carrier) :
    (S.setMessageProperty m i f (.scalars k vs)).1.messageProperty i f = .scalars k vs := by
  have himplicit : f.presence = .implicit := by
    unfold FieldInfo.presenceFits at hfits
    rw [htype] at hfits
    cases hpresence : f.presence <;> simp_all
  have hassigned : S.assigned f.type (m.member (.field i)) (.scalars k vs) = .scalars k vs := by
    rw [htype]
    cases hold : m.member (.field i) with
    | scalars k' ws =>
      simp only [Schema.assigned]
      split
      · rename_i hsame
        obtain ⟨rfl, hsame⟩ := hsame
        rw [eq_of_sameIntegers hk hsame]
      · rfl
    | _ => rfl
  unfold Schema.setMessageProperty Message.messageProperty
  simp only [htype, Schema.convert, himplicit]
  rw [← htype, hassigned, Message.member_setMember_self]

/-- A map gets an entry with the key and the value that were read. -/
theorem mem_hashEmplace_self (entries : List (Scalar × Value)) (key : Scalar) (v : Value) :
    (key, v) ∈ hashEmplace entries key v := by
  induction entries with
  | nil => exact List.mem_singleton_self _
  | cons e entries ih =>
    rw [hashEmplace]
    split
    · rename_i hkey
      rw [hkey]
      exact List.mem_cons_self
    · exact List.mem_cons_of_mem _ ih

/-- How integers that were read are stored: a singular one, those of a list, and those of an entry,
whose object has the key and the value of the JSON object as the values of its two fields. -/
structure StoresIntegers (env : JsonEnvironment) (k : ScalarKind) : Prop where
  scalar : ∀ (S : Schema) (m : Message) (i : Nat) (f : FieldInfo) (v : k.Carrier),
    f.type = .scalar k → 0 < f.fieldNumber →
      (S.setMessageProperty m i f (.scalar ⟨k, v⟩)).1.messageProperty i f = .scalar ⟨k, v⟩
  list : ∀ (S : Schema) (m : Message) (i : Nat) (f : FieldInfo) (vs : List k.Carrier),
    f.type = .list k → f.presenceFits = true →
      (S.setMessageProperty m i f (.scalars k vs)).1.messageProperty i f = .scalars k vs
  met : ∀ (S : Schema) (key kind : ScalarKind) (text : String) (json : JsonValue) (s : Deserializer)
    (scalarValue : Option JsonValue) (rest : List JsonState), json.isNull = false →
    s.state = ⟨[("key", .string text), ("value", json)], 0, scalarValue⟩ :: rest →
      (nextFieldIndex env S (.mapEntry key (.scalar kind)) s).2 = .field 0 ∧
        (nextFieldIndex env S (.mapEntry key (.scalar kind)) s).1.scalarValue = .string text ∧
        (nextFieldIndex env S (.mapEntry key (.scalar kind))
          (nextFieldIndex env S (.mapEntry key (.scalar kind)) s).1).2 = .field 1 ∧
        (nextFieldIndex env S (.mapEntry key (.scalar kind))
          (nextFieldIndex env S (.mapEntry key (.scalar kind)) s).1).1.scalarValue = json
  entry : ∀ (S : Schema) (entries : List (Scalar × Value)) (entry : Message) (key kind : ScalarKind)
    (a : key.Carrier) (b : kind.Carrier), entry.member (.field 0) = .scalar ⟨key, a⟩ →
    entry.member (.field 1) = .scalar ⟨kind, b⟩ →
      (⟨key, a⟩, .scalar ⟨kind, b⟩) ∈
        hashEmplace entries (entryKey key entry) (S.entryValue (.scalar kind) entry)

/-- An integer field, which may be the key or the value of a map entry, has the integer that its JSON
value denotes, or there is an error; so has every element of a list; except that the unsigned
64-bit types wrap negative integers. What was read is what is stored. -/
theorem integers_iff (env : JsonEnvironment) (h : ConvertsExactly env) (k : ScalarKind)
    (hk : k.isInteger) :
    (∀ f s old, f.type = .scalar k → s.hasError = false →
      (((deserializeScalarField env f s old).1.hasError = false →
        ∃ v, (deserializeScalarField env f s old).2.1 = .scalar ⟨k, v⟩ ∧
          Denotes s.scalarValue (k.toInteger v)) ↔ ¬WrapsNegative k s.scalarValue)) ∧
    (∀ f s old, f.type = .list k → (deserializeScalarField env f s old).1.hasError = false →
      ∃ items vs, s.scalarValue = .array items ∧
        (deserializeScalarField env f s old).2.1 = .scalars k vs ∧
        List.Forall₂ (fun item v => Denotes item (k.toInteger v) ↔ ¬WrapsNegative k item)
          items vs) ∧
    StoresIntegers env k := by
  refine ⟨?_, ?_, ?_⟩
  · intro f s old htype herror
    obtain ⟨hvalue, hok⟩ := @deserializeScalarField_scalar env f k htype s old
    rw [← denotes_deserializeScalar_iff h hk, hok herror, hvalue]
    constructor
    · intro hread hread'
      obtain ⟨v, hv, hdenotes⟩ := hread hread'
      cases hv
      exact hdenotes
    · intro hread hread'
      exact ⟨_, rfl, hread hread'⟩
  · intro f s old htype herror
    obtain ⟨items, vs, hitems, hvalue, hread⟩ := deserializeScalarField_list htype s old herror
    refine ⟨items, vs, hitems, hvalue, hread.imp ?_⟩
    intro item v hitem
    have hlaw := denotes_deserializeScalar_iff h hk item
    rw [hitem] at hlaw
    rw [← hlaw]
    exact ⟨fun hdenotes _ => hdenotes, fun hdenotes => hdenotes rfl⟩
  · constructor
    · intro S m i f v htype hnumber
      exact (messageProperty_setMessageProperty S m i hk htype hnumber v).2
    · intro S m i f vs htype hfits
      exact messageProperty_setMessageProperty_list S m i hk htype hfits vs
    · intro S key kind text json s scalarValue rest hjson hs
      exact scalarValue_entry S key kind text hjson s scalarValue rest hs
    · intro S entries entry key kind a b hkey hvalue
      have hentry : entryKey key entry = ⟨key, a⟩ := by rw [entryKey, hkey]
      have hcontent : S.entryValue (.scalar kind) entry = .scalar ⟨kind, b⟩ := hvalue
      rw [hentry, hcontent]
      exact mem_hashEmplace_self entries _ _

/-- A program that meets one decimal text. -/
def minusFortyTwo : JsonEnvironment :=
  { JsonEnvironment.ofDocument [] [] with
    hasMatch := fun _ text => text = "-42"
    toLongLong := fun text => if text = "-42" then some (-42) else none
    toULongLong := fun _ => none }

theorem minusFortyTwo_exact : ConvertsExactly minusFortyTwo where
  toLongLong text n hn := by
    obtain ⟨rfl, rfl⟩ : text = "-42" ∧ -42 = n := by
      simpa [minusFortyTwo, Option.ite_none_right_eq_some] using hn
    decide
  toULongLong text n hn := by cases hn
  doubleToInt64 d n hn := by cases hn
  doubleToUInt64 d n hn := by cases hn

/-- A field whose JSON value is this. -/
def readField (env : JsonEnvironment) (k : ScalarKind) (value : JsonValue) :
    Deserializer × Value × Bool :=
  deserializeScalarField env { fieldNumber := 1, jsonName := "number", type := .scalar k }
    { state := [{ obj := [], scalarValue := some value }] } .null

theorem integers_minusFortyTwo :
    ∃ v, (readField minusFortyTwo .int32 (.string "-42")).2.1 = .scalar ⟨.int32, v⟩ ∧
      Denotes (.string "-42") (ScalarKind.int32.toInteger v) :=
  ((integers_iff minusFortyTwo minusFortyTwo_exact .int32 rfl).1
    { fieldNumber := 1, jsonName := "number", type := .scalar .int32 }
    { state := [{ obj := [], scalarValue := some (.string "-42") }] } .null rfl rfl).mpr
    (fun h => absurd h.1 (by decide)) (by decide)

/-- A message type with an unsigned number. -/
def countSchema : Schema where
  message _ := ⟨"Count", [{ fieldNumber := 1, jsonName := "n", type := .scalar .uint64 }],
    by decide, by decide, by decide⟩
  enumKeys _ := []
  findHandler _ := none
  typeName _ := ""

/-- The text `{"n":-1}`. -/
def minusOne : Bytes := [0x7B, 0x22, 0x6E, 0x22, 0x3A, 0x2D, 0x31, 0x7D]

/-- The document `{"n":-1}` is accepted without an error, and the field holds the number 2^64 - 1, which
is not what the document says. -/
theorem not_integers_minusOne :
    (deserialize (.ofDocument minusOne [("n", .integer (-1))]) (fun _ => none) countSchema (.named 0)
        minusOne (countSchema.defaultMessage (.named 0))).2.2 = .returned true ∧
      (deserialize (.ofDocument minusOne [("n", .integer (-1))]) (fun _ => none) countSchema
        (.named 0) minusOne (countSchema.defaultMessage (.named 0))).1.lastError = .none ∧
      (deserialize (.ofDocument minusOne [("n", .integer (-1))]) (fun _ => none) countSchema
        (.named 0) minusOne (countSchema.defaultMessage (.named 0))).2.1.member (.field 0) =
          .scalar ⟨.uint64, BitVec.allOnes 64⟩ ∧
      ScalarKind.uint64.toInteger (BitVec.allOnes 64) = 2 ^ 64 - 1 ∧
      ¬Denotes (.integer (-1)) (2 ^ 64 - 1) :=
  ⟨by decide, by decide, rfl, by decide, fun h => absurd h (by decide : ¬(-1 : BitVec 64).toInt = _)⟩

end Json

end QtGrpc.Protobuf
